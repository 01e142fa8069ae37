import LazyMatch.Proofs.Usage
import Mathlib.Algebra.Order.Field.Rat

/-!
# Shares

Whether a share is large enough is decided by comparing two products of words. For counters that
stay within the bounds of `Usage.Moderate` all four products are those of the numbers, whatever the
knobs are, so the decision compares the shares themselves, as rational numbers, and further accesses
to groups only speak for the change of strategy (`Usage.decision_exact`).
-/

namespace LazyMatch

namespace Usage

variable {u v : Usage} {t : Tuning}

/-- Counters that no knob can make wrap. -/
structure Moderate (u : Usage) : Prop where
  calls : u.calls.toNat ≤ 2 ^ 32
  matched : u.matched.toNat ≤ 2 ^ 32
  groupAccesses : 100 * u.groupAccesses.toNat < 2 ^ 64

theorem Moderate.of_fewer_accesses (h : u.Moderate) (hcalls : v.calls = u.calls)
    (hmatched : v.matched = u.matched) (haccesses : v.groupAccesses ≤ u.groupAccesses) :
    v.Moderate where
  calls := hcalls ▸ h.calls
  matched := hmatched ▸ h.matched
  groupAccesses := by
    have hfewer := UInt64.le_iff_toNat_le.1 haccesses
    have hbound := h.groupAccesses
    omega

theorem Moderate.hundred_matched_lt (h : u.Moderate) : 100 * u.matched.toNat < 2 ^ 64 := by
  have hmatched := h.matched
  omega

theorem Moderate.favoursEager_iff (h : u.Moderate) :
    u.favoursEager t = true ↔
      t.minCalls.toNat ≤ u.calls.toNat ∧
        u.calls.toNat * t.minMatchPercent.toNat ≤ 100 * u.matched.toNat ∧
          u.matched.toNat * t.minGroupAccessPercent.toNat ≤ 100 * u.groupAccesses.toNat :=
  Usage.favoursEager_iff h.calls h.matched h.groupAccesses

theorem Moderate.favoursEager_mono (h : u.Moderate) (hcalls : v.calls = u.calls)
    (hmatched : v.matched = u.matched) (haccesses : v.groupAccesses ≤ u.groupAccesses)
    (hfavours : v.favoursEager t = true) : u.favoursEager t = true := by
  rw [(h.of_fewer_accesses hcalls hmatched haccesses).favoursEager_iff, hcalls, hmatched]
    at hfavours
  rcases hfavours with ⟨hmin, hmatches, hgroups⟩
  have hfewer := UInt64.le_iff_toNat_le.1 haccesses
  exact h.favoursEager_iff.2
    ⟨hmin, hmatches, hgroups.trans (Nat.mul_le_mul_left 100 hfewer)⟩

/-- The part is at least so many hundredths of the whole. Of nothing, every share is reached. -/
def ReachesShare (part whole percent : Nat) : Prop :=
  whole = 0 ∨ (percent : ℚ) / 100 ≤ (part : ℚ) / whole

theorem reachesShare_iff {part whole percent : Nat} :
    ReachesShare part whole percent ↔ whole * percent ≤ 100 * part := by
  rcases Nat.eq_zero_or_pos whole with rfl | hpos
  · simp [ReachesShare]
  · have hwhole : (0 : ℚ) < whole := Nat.cast_pos.2 hpos
    have hhundred : (0 : ℚ) < 100 := Nat.ofNat_pos
    rw [ReachesShare, or_iff_right hpos.ne', div_le_div_iff₀ hhundred hwhole, Nat.mul_comm whole,
      Nat.mul_comm 100]
    exact_mod_cast Iff.rfl

theorem period_ne_zero : period t ≠ 0 := by
  intro hzero
  have hpositive := Nat.le_max_right t.tripPoint.toNat 1
  rw [← toNat_period, hzero, UInt64.toNat_zero] at hpositive
  exact Nat.not_succ_le_zero 0 hpositive

theorem atTripPoint_iff_exists :
    u.atTripPoint t = true ↔ ∃ k, 1 ≤ k ∧ u.calls.toNat = k * max t.tripPoint.toNat 1 := by
  rw [atTripPoint_iff]
  constructor
  · rintro ⟨hpositive, k, hk⟩
    refine ⟨k, Nat.one_le_iff_ne_zero.2 ?_, hk.trans (Nat.mul_comm _ _)⟩
    rintro rfl
    rw [hk] at hpositive
    exact Nat.not_succ_le_zero 0 hpositive
  · rintro ⟨k, hpositive, hk⟩
    rw [hk]
    exact ⟨Nat.mul_pos hpositive (Nat.le_max_right _ 1), Nat.dvd_mul_left _ k⟩

/-- For moderate counters and any knobs, none of the four products wraps; finding groups at once is
favoured exactly if there were enough searches, and matches among the searches as well as accesses
among the matches reach their shares, be it cross-multiplied or as rational numbers; and fewer
accesses never favour it where more of them do not. The strategy is reconsidered after exactly the
positive multiples of the trip point, where 0 counts as 1, so no division is by 0. -/
theorem decision_exact (t : Tuning) (u : Usage) (h : u.Moderate) :
    ((u.matched * 100).toNat = 100 * u.matched.toNat ∧
      (u.calls * t.minMatchPercent.toUInt64).toNat = u.calls.toNat * t.minMatchPercent.toNat ∧
      (u.groupAccesses * 100).toNat = 100 * u.groupAccesses.toNat ∧
      (u.matched * t.minGroupAccessPercent.toUInt64).toNat =
        u.matched.toNat * t.minGroupAccessPercent.toNat) ∧
    (u.favoursEager t = true ↔
      t.minCalls.toNat ≤ u.calls.toNat ∧
        u.calls.toNat * t.minMatchPercent.toNat ≤ 100 * u.matched.toNat ∧
          u.matched.toNat * t.minGroupAccessPercent.toNat ≤ 100 * u.groupAccesses.toNat) ∧
    (u.favoursEager t = true ↔
      t.minCalls.toNat ≤ u.calls.toNat ∧
        ReachesShare u.matched.toNat u.calls.toNat t.minMatchPercent.toNat ∧
          ReachesShare u.groupAccesses.toNat u.matched.toNat t.minGroupAccessPercent.toNat) ∧
    (∀ v : Usage, v.calls = u.calls → v.matched = u.matched → v.groupAccesses ≤ u.groupAccesses →
      v.favoursEager t = true → u.favoursEager t = true) ∧
    (u.atTripPoint t = true ↔ ∃ k, 1 ≤ k ∧ u.calls.toNat = k * max t.tripPoint.toNat 1) ∧
    period t ≠ 0 := by
  refine ⟨⟨toNat_mul_hundred h.hundred_matched_lt, toNat_mul_percent h.calls,
    toNat_mul_hundred h.groupAccesses, toNat_mul_percent h.matched⟩, h.favoursEager_iff, ?_,
    fun v hcalls hmatched haccesses => h.favoursEager_mono hcalls hmatched haccesses,
    atTripPoint_iff_exists, period_ne_zero⟩
  rw [reachesShare_iff, reachesShare_iff]
  exact h.favoursEager_iff

/-- The largest counters that are moderate. -/
def greatestModerate : Usage where
  calls := 4294967296
  matched := 4294967296
  groupAccesses := 184467440737095516

/-- At the largest counters and percentages a product is just below the size of a word. The shares
are not reached, though every search matched and groups were asked for more often than that. -/
theorem greatestModerate_decision :
    greatestModerate.Moderate ∧
      (greatestModerate.calls * (4294967295 : UInt32).toUInt64).toNat = 2 ^ 64 - 2 ^ 32 ∧
      greatestModerate.favoursEager { minMatchPercent := 4294967295 } = false ∧
      greatestModerate.favoursEager { minMatchPercent := 100 } = true ∧
      greatestModerate.atTripPoint { tripPoint := 0 } = true := by
  have hmoderate : greatestModerate.Moderate := ⟨by decide, by decide, by decide⟩
  rcases decision_exact { minMatchPercent := 4294967295 } greatestModerate hmoderate
    with ⟨⟨-, hproduct, -⟩, hsteep, -⟩
  rcases decision_exact { minMatchPercent := 100 } greatestModerate hmoderate
    with ⟨-, hfair, -⟩
  rcases decision_exact { tripPoint := 0 } greatestModerate hmoderate
    with ⟨-, -, -, -, htrip, -⟩
  refine ⟨hmoderate, hproduct, Bool.eq_false_iff.2 ?_, hfair.2 ⟨?_, ?_, ?_⟩,
    htrip.2 ⟨4294967296, ?_, ?_⟩⟩
  · intro hfavours
    exact absurd (hsteep.1 hfavours).2.1 (by decide)
  all_goals decide

end Usage

end LazyMatch
