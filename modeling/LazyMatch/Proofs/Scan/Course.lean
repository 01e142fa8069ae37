import LazyMatch.Scan
import LazyMatch.Proofs.Table
import Mathlib.Order.Bounds.Basic

/-!
# The course of a scan

Which states a scan visits is said on the table itself (`Table.stateAfter`): one state for each
number of bytes, whether or not a scan would have ended by then. A match is the last of these states
that accepts (`Table.lastAccepting_eq_some_iff`). A scan may end in the dead state because nothing
is found from there on (`Table.Sound.lastAccepting_of_dead`).
-/

namespace LazyMatch

namespace Direction

/-- The position after `count` bytes. -/
def after : Direction → Int → Nat → Int
  | forward, start, count => start + count
  | backward, start, count => start - count

/-- The byte that a scan from `start` reads after `count` others. -/
def byteAfter (dir : Direction) (input : Input) (start : Int) (count : Nat) : UInt8 :=
  input.getD (dir.after start count).toNat 0

/-- The stretches that a scan may be given: from a position of the input to another one, in the
direction of the scan. -/
def Fits : Direction → (length : Nat) → (start limit : Int) → Prop
  | forward, length, start, limit => 0 ≤ start ∧ start ≤ limit ∧ limit ≤ length
  | backward, length, start, limit => -1 ≤ limit ∧ limit ≤ start ∧ start < length

theorem after_zero (dir : Direction) (start : Int) : dir.after start 0 = start := by
  cases dir <;> simp [after]

theorem advance_after (dir : Direction) (start : Int) (count : Nat) :
    dir.advance (dir.after start count) = dir.after start (count + 1) := by
  cases dir <;> simp only [after, advance] <;> omega

end Direction

namespace Table

variable {t : Table} {dir : Direction} {input : Input} {start : Int}

/-- The state in which a scan stands after `count` bytes from `start` on. -/
def stateAfter (t : Table) (dir : Direction) (input : Input) (start : Int) : Nat → StateId
  | 0 => if start = dir.edge input.size then t.startAtEdge else t.startInside
  | count + 1 => t.successor (t.stateAfter dir input start count) (dir.byteAfter input start count)

/-- The last of the states after 0 to `count` bytes that accepts, by its number of bytes. -/
def lastAccepting (t : Table) (dir : Direction) (input : Input) (start : Int) : Nat → Option Nat
  | 0 => if t.accepts (t.stateAfter dir input start 0) then some 0 else none
  | count + 1 =>
    if t.accepts (t.stateAfter dir input start (count + 1)) then some (count + 1)
    else t.lastAccepting dir input start count

theorem lastAccepting_eq_none_iff {count : Nat} :
    t.lastAccepting dir input start count = none ↔
      ∀ j ≤ count, t.accepts (t.stateAfter dir input start j) = false := by
  induction count with
  | zero => simp [lastAccepting]
  | succ count ih =>
    rw [lastAccepting, ite_some_eq_none_iff, ih, Bool.not_eq_true]
    constructor
    · rintro ⟨hlast, hbefore⟩ j hj
      rcases Nat.le_succ_iff.1 hj with hj | rfl
      · exact hbefore j hj
      · exact hlast
    · intro h
      exact ⟨h _ (Nat.le_refl _), fun j hj => h j (Nat.le_succ_of_le hj)⟩

theorem lastAccepting_eq_some_iff {count last : Nat} :
    t.lastAccepting dir input start count = some last ↔
      IsGreatest {j | j ≤ count ∧ t.accepts (t.stateAfter dir input start j) = true} last := by
  induction count with
  | zero =>
    constructor
    · intro h
      simp only [lastAccepting, Option.ite_none_right_eq_some, Option.some.injEq] at h
      rcases h with ⟨haccepts, rfl⟩
      exact ⟨⟨Nat.le_refl 0, haccepts⟩, fun j hj => hj.1⟩
    · rintro ⟨⟨hlast, haccepts⟩, -⟩
      cases Nat.le_zero.1 hlast
      rw [lastAccepting, if_pos haccepts]
  | succ count ih =>
    by_cases haccepts : t.accepts (t.stateAfter dir input start (count + 1)) = true
    · rw [lastAccepting, if_pos haccepts]
      have hgreatest : IsGreatest
          {j | j ≤ count + 1 ∧ t.accepts (t.stateAfter dir input start j) = true} (count + 1) :=
        ⟨⟨Nat.le_refl _, haccepts⟩, fun j hj => hj.1⟩
      constructor
      · rintro ⟨⟩
        exact hgreatest
      · intro h
        rw [h.unique hgreatest]
    · rw [lastAccepting, if_neg haccepts, ih]
      -- The state after the last byte does not count, so nothing else changes.
      have hsame : {j | j ≤ count + 1 ∧ t.accepts (t.stateAfter dir input start j) = true} =
          {j | j ≤ count ∧ t.accepts (t.stateAfter dir input start j) = true} := by
        ext j
        constructor
        · rintro ⟨hj, hj'⟩
          rcases Nat.le_succ_iff.1 hj with hj | rfl
          · exact ⟨hj, hj'⟩
          · exact absurd hj' haccepts
        · rintro ⟨hj, hj'⟩
          exact ⟨Nat.le_succ_of_le hj, hj'⟩
      rw [hsame]

theorem map_lastAccepting_zero {α : Type} (t : Table) (dir : Direction) (input : Input)
    (start : Int) (answer : Nat → α) :
    (t.lastAccepting dir input start 0).map answer =
      if t.accepts (t.stateAfter dir input start 0) then some (answer 0) else none := by
  rw [lastAccepting]
  split <;> rfl

/-- One more state either accepts, and is the last one then, or changes nothing. -/
theorem accepted_or_lastAccepting {α : Type} (t : Table) (dir : Direction) (input : Input)
    (start : Int) (count : Nat) (answer : Nat → α) :
    ((if t.accepts (t.stateAfter dir input start (count + 1)) then some (answer (count + 1))
        else none).or
      ((t.lastAccepting dir input start count).map answer)) =
    (t.lastAccepting dir input start (count + 1)).map answer := by
  rw [lastAccepting]
  split
  · rfl
  · exact Option.none_or

end Table

namespace Table.Sound

variable {t : Table} {dir : Direction} {input : Input} {start : Int}

theorem stateAfter_lt (h : t.Sound) (dir : Direction) (input : Input) (start : Int) (count : Nat) :
    (t.stateAfter dir input start count).toNat < t.states.size := by
  induction count with
  | zero =>
    rw [stateAfter]
    split
    · exact h.startAtEdge
    · exact h.startInside
  | succ count ih => exact h.successor_lt ih _

/-- A scan never leaves the dead state. -/
theorem stateAfter_of_dead (h : t.Sound) {count : Nat}
    (hdead : t.stateAfter dir input start count = deadState) (more : Nat) :
    t.stateAfter dir input start (count + more) = deadState := by
  induction more with
  | zero => exact hdead
  | succ more ih => rw [← Nat.add_assoc, stateAfter, ih, h.successor_deadState]

/-- A scan that has come to the dead state finds nothing more. -/
theorem lastAccepting_of_dead (h : t.Sound) {count : Nat}
    (hdead : t.stateAfter dir input start (count + 1) = deadState) (more : Nat) :
    t.lastAccepting dir input start (count + more) = t.lastAccepting dir input start count := by
  induction more with
  | zero => rfl
  | succ more ih =>
    have hnext : t.stateAfter dir input start (count + more + 1) = deadState := by
      rw [Nat.add_right_comm]
      exact h.stateAfter_of_dead hdead more
    rw [← Nat.add_assoc, lastAccepting, hnext, h.row_deadState.1, if_neg Bool.false_ne_true, ih]

theorem lastAccepting_of_dead_start (h : t.Sound)
    (hdead : t.stateAfter dir input start 0 = deadState) (count : Nat) :
    t.lastAccepting dir input start count = none := by
  refine lastAccepting_eq_none_iff.2 ?_
  intro j _
  rw [← Nat.zero_add j, h.stateAfter_of_dead hdead, h.row_deadState.1]

end Table.Sound

end LazyMatch
