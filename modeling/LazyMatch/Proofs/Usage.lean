import LazyMatch.Usage
import Mathlib.Data.UInt

/-!
# Usage in numbers

The decision to reconsider a strategy is made on words, and by comparing products of words. As long
as the counters stay small enough, none of these products wraps, and the decision is the one that
the numbers themselves call for (`Usage.due_iff`).
-/

namespace LazyMatch

/-- Whether after `n` searches with `m` matches and `g` accesses to groups it is time to change the
strategy. -/
def Tuning.Due (t : Tuning) (n m g : Nat) : Prop :=
  1 ≤ n ∧ max t.tripPoint.toNat 1 ∣ n ∧ t.minCalls.toNat ≤ n ∧
    n * t.minMatchPercent.toNat ≤ 100 * m ∧ m * t.minGroupAccessPercent.toNat ≤ 100 * g

namespace Usage

variable {u : Usage} {t : Tuning}

theorem toNat_period : (period t).toNat = max t.tripPoint.toNat 1 := by
  rw [period, UInt32.toNat_toUInt64, UInt32.toNat_max]
  rfl

theorem atTripPoint_iff :
    u.atTripPoint t = true ↔ 1 ≤ u.calls.toNat ∧ max t.tripPoint.toNat 1 ∣ u.calls.toNat := by
  have hzero : u.calls ≠ 0 ↔ 1 ≤ u.calls.toNat := by
    rw [Ne, ← UInt64.toNat_inj, UInt64.toNat_zero, Nat.one_le_iff_ne_zero]
  have hperiod : u.calls % period t = 0 ↔ max t.tripPoint.toNat 1 ∣ u.calls.toNat := by
    rw [← UInt64.toNat_inj, UInt64.toNat_mod, UInt64.toNat_zero, toNat_period,
      Nat.dvd_iff_mod_eq_zero]
  rw [atTripPoint, Bool.and_eq_true, decide_eq_true_iff, decide_eq_true_iff, hzero, hperiod]

theorem toNat_mul_percent {counter : UInt64} {percent : UInt32} (h : counter.toNat ≤ 2 ^ 32) :
    (counter * percent.toUInt64).toNat = counter.toNat * percent.toNat := by
  have hpercent := percent.toNat_lt
  have hproduct : counter.toNat * percent.toNat < 2 ^ 64 := by
    calc
      counter.toNat * percent.toNat ≤ 2 ^ 32 * percent.toNat := Nat.mul_le_mul_right _ h
      _ < 2 ^ 32 * 2 ^ 32 := Nat.mul_lt_mul_of_pos_left hpercent (by decide)
      _ = 2 ^ 64 := by decide
  rw [UInt64.toNat_mul, UInt32.toNat_toUInt64, Nat.mod_eq_of_lt hproduct]

theorem toNat_mul_hundred {counter : UInt64} (h : 100 * counter.toNat < 2 ^ 64) :
    (counter * 100).toNat = 100 * counter.toNat := by
  have hhundred : (100 : UInt64).toNat = 100 := rfl
  rw [UInt64.toNat_mul, hhundred, Nat.mul_comm, Nat.mod_eq_of_lt h]

/-- Small counters are compared as the numbers they stand for. -/
theorem favoursEager_iff (hcalls : u.calls.toNat ≤ 2 ^ 32) (hmatched : u.matched.toNat ≤ 2 ^ 32)
    (haccesses : 100 * u.groupAccesses.toNat < 2 ^ 64) :
    u.favoursEager t = true ↔
      t.minCalls.toNat ≤ u.calls.toNat ∧
        u.calls.toNat * t.minMatchPercent.toNat ≤ 100 * u.matched.toNat ∧
          u.matched.toNat * t.minGroupAccessPercent.toNat ≤ 100 * u.groupAccesses.toNat := by
  -- Searches and matches stay within 32 bits, percentages are 32-bit words.
  have hhundred : 100 * u.matched.toNat < 2 ^ 64 := by omega
  rw [favoursEager, Bool.and_eq_true, Bool.and_eq_true, decide_eq_true_iff, decide_eq_true_iff,
    decide_eq_true_iff, UInt64.le_iff_toNat_le, UInt64.le_iff_toNat_le, UInt64.le_iff_toNat_le,
    UInt32.toNat_toUInt64, toNat_mul_percent hcalls, toNat_mul_percent hmatched,
    toNat_mul_hundred hhundred, toNat_mul_hundred haccesses, and_assoc]

/-- As long as the counters are small, the strategy changes when the numbers call for it. -/
theorem due_iff (hcalls : u.calls.toNat ≤ 2 ^ 32) (hmatched : u.matched.toNat ≤ 2 ^ 32)
    (haccesses : 100 * u.groupAccesses.toNat < 2 ^ 64) :
    u.atTripPoint t = true ∧ u.favoursEager t = true ↔
      t.Due u.calls.toNat u.matched.toNat u.groupAccesses.toNat := by
  rw [atTripPoint_iff, favoursEager_iff hcalls hmatched haccesses, Tuning.Due, and_assoc]

end Usage

end LazyMatch
