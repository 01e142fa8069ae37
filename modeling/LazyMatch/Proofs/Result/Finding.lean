import LazyMatch.Result.Access
import Mathlib.Data.UInt

/-!
# Findings

A `Finding` is what a search is to find: nothing, or the boundaries of every group, group 0 being
the match. It fixes the answer to every question that a result can be asked (`Finding.answer`). A
result leads to a finding (`Result.LeadsTo`) if what it knows agrees with the finding and what it
has left pending would find the rest. Such a result answers every question, however often and in
whatever order it is asked, as the result does that knows the finding from the outset
(`Result.LeadsTo.answer_after`); and that one answers as the finding does, as long as the numbers of
the boundaries fit into 32-bit words (`Finding.answer_told`).
-/

namespace LazyMatch

def matchStart (boundaries : Array Int) : Int := boundaries.getD 0 unset

def matchStop (boundaries : Array Int) : Int := boundaries.getD 1 unset

theorem lookup_eq_getD {g : Array Int} {i : Nat} (h : i < g.size) :
    lookup g i = .ok (g.getD i unset) := by
  rw [lookup_of_lt h, Array.getD_eq_getD_getElem?, Array.getElem?_eq_getElem h, Option.getD_some]

/-- What there is to find: nothing, or the boundaries of every group. -/
abbrev Finding := Option (Array Int)

namespace Finding

/-- How many groups there are, the whole match included. -/
def groupCount : Finding → Nat
  | none => 0
  | some boundaries => boundaries.size / 2

/-- The boundary that stands at `place`, for a group that is there. -/
def ofGroup (boundaries : Array Int) (index : UInt32) (place : Nat) : Except Fault Int :=
  if index.toNat < groupCount (some boundaries) then lookup boundaries place
  else .error (.range (.group index (UInt32.ofNat (groupCount (some boundaries)))))

def answer : Finding → Accessor → Except Fault Int
  | M, .groupCount => .ok (groupCount M)
  | none, _ => .error .noMatch
  | some boundaries, .start => .ok (matchStart boundaries)
  | some boundaries, .stop => .ok (matchStop boundaries)
  | some boundaries, .startOfGroup index => ofGroup boundaries index (2 * index.toNat)
  | some boundaries, .stopOfGroup index => ofGroup boundaries index (2 * index.toNat + 1)

/-- The result that knows the finding from the outset. -/
def told : Finding → Result
  | none => .noMatch
  | some boundaries => .groups boundaries

/-- The result reads the boundary by its number, whatever that is. -/
theorem answer_withGroup_groups (g : Array Int) (index number : UInt32) :
    ((Result.groups g).withGroup index fun r => r.boundary number).answer =
      if index < (Result.groups g).groupCount then lookup g number.toNat
      else .error (.range (.group index (Result.groups g).groupCount)) := by
  have hfound : (Result.groups g).found = true := rfl
  rw [Result.withGroup, if_pos hfound]
  split <;> rfl

/-- Boundaries are numbered by 32-bit words, and a finding that has not more of them is told. -/
theorem answer_told {M : Finding} (h : ∀ g ∈ M, g.size ≤ 2 ^ 32) (a : Accessor) :
    (M.told.access a).answer = M.answer a := by
  cases M with
  | none => cases a <;> rfl
  | some g =>
    have hsize : g.size ≤ 2 ^ 32 := h g rfl
    have hcount : (Result.groups g).groupCount.toNat = g.size / 2 :=
      UInt32.toNat_ofNat_of_lt' (by simp only [UInt32.size]; omega)
    have hgroup (index number : UInt32) (place : Nat)
        (hplace : index.toNat < g.size / 2 → number.toNat = place) :
        ((Result.groups g).withGroup index fun r => r.boundary number).answer =
          ofGroup g index place := by
      have hthere : index < (Result.groups g).groupCount ↔ index.toNat < g.size / 2 := by
        rw [UInt32.lt_iff_toNat_lt, hcount]
      rw [answer_withGroup_groups, ofGroup, groupCount]
      by_cases hindex : index.toNat < g.size / 2
      · rw [if_pos (hthere.2 hindex), if_pos hindex, hplace hindex]
      · rw [if_neg (mt hthere.1 hindex), if_neg hindex]
        rfl
    have hdouble {index : UInt32} (hindex : index.toNat < g.size / 2) :
        (index * 2).toNat = 2 * index.toNat := by
      rw [UInt32.toNat_mul]
      simp only [UInt32.reduceToNat]
      omega
    cases a with
    | start => rfl
    | stop => rfl
    | groupCount => exact congrArg (fun n : Nat => Except.ok (n : Int)) hcount
    | startOfGroup index => exact hgroup index _ _ hdouble
    | stopOfGroup index =>
      refine hgroup index _ _ fun hindex => ?_
      rw [UInt32.toNat_add, hdouble hindex]
      simp only [UInt32.reduceToNat]
      omega

end Finding

/-! ## What is known or can be found -/

/-- Either `a` is known, or nothing is known and the work finds `a`. -/
inductive Obtainable {α : Type} (work : Work α) (a : α) : Option α → Prop
  | known : Obtainable work a (some a)
  | pending (h : work.answer = .ok a) : Obtainable work a none

namespace Result

variable {r : Result} {M : Finding}

/-- What is known of the result agrees with the finding, and what is pending leads to it. -/
inductive LeadsTo : Result → Finding → Prop
  | noMatch : LeadsTo .noMatch none
  | single (start stop : Int) : LeadsTo (.single start stop) (some #[start, stop])
  | lateStart {p : Pending} {start stop : Int} {start? : Option Int}
      (hstart : Obtainable (p.locateStart stop) start start?) :
      LeadsTo (.lateStart p stop start?) (some #[start, stop])
  | groups {g : Array Int} (hsize : 2 ≤ g.size) : LeadsTo (.groups g) (some g)
  | lateGroups {p : Pending} {g : Array Int} {start? : Option Int} {groups? : Option (Array Int)}
      (hsize : 2 ≤ g.size) (hcount : UInt32.ofNat (g.size / 2) = p.bundle.groupCount)
      (hstart : Obtainable (p.locateStart (matchStop g)) (matchStart g) start?)
      (hgroups : Obtainable (p.locateGroups (matchStart g) (matchStop g)) g groups?) :
      LeadsTo (.lateGroups p (matchStop g) start? groups?) (some g)
  | lateTemplate {p : Pending} {g : Array Int} {start? : Option Int}
      {groups? : Option (Array Int)}
      (hsize : 2 ≤ g.size) (hcount : UInt32.ofNat (g.size / 2) = p.bundle.groupCount)
      (hstart : start? = none ∨ start? = some (matchStart g))
      (hgroups : Obtainable (p.templateBoundaries (matchStop g)) g groups?) :
      LeadsTo (.lateTemplate p (matchStop g) start? groups?) (some g)

theorem eq_noMatch_of_found (h : r.found = false) : r = .noMatch := by
  cases r with
  | noMatch => rfl
  | single => cases h
  | lateStart => cases h
  | groups => cases h
  | lateGroups => cases h
  | lateTemplate => cases h

theorem next_stop (r : Result) : r.stop.next = r := by
  unfold Result.stop
  split <;> rfl

namespace LeadsTo

theorem found_eq (h : r.LeadsTo M) : r.found = M.isSome := by
  cases h <;> rfl

theorem groupCount_eq (h : r.LeadsTo M) : r.groupCount = M.told.groupCount := by
  cases h with
  | noMatch => rfl
  | single => simp [Result.groupCount, Finding.told]
  | lateStart => simp [Result.groupCount, Finding.told]
  | groups => rfl
  | lateGroups hsize hcount hstart hgroups =>
    cases hgroups with
    | known => rfl
    | pending => exact hcount.symm
  | lateTemplate hsize hcount => exact hcount.symm

theorem answer_stop (h : r.LeadsTo M) : r.stop.answer = M.told.stop.answer := by
  cases h <;> rfl

theorem start_spec (h : r.LeadsTo M) :
    r.start.answer = M.told.start.answer ∧ r.start.next.LeadsTo M := by
  cases h with
  | noMatch => exact ⟨rfl, .noMatch⟩
  | single start stop => exact ⟨rfl, .single start stop⟩
  | lateStart hstart =>
    cases hstart with
    | known => exact ⟨rfl, .lateStart .known⟩
    | pending hwork =>
      refine ⟨(Work.answer_onto _ _ _).trans hwork, ?_⟩
      rw [Result.start, Work.next_onto_of_ok hwork]
      exact .lateStart .known
  | groups hsize => exact ⟨rfl, .groups hsize⟩
  | lateGroups hsize hcount hstart hgroups =>
    cases hstart with
    | known => exact ⟨rfl, .lateGroups hsize hcount .known hgroups⟩
    | pending hwork =>
      refine ⟨(Work.answer_onto _ _ _).trans hwork, ?_⟩
      rw [Result.start, Work.next_onto_of_ok hwork]
      exact .lateGroups hsize hcount .known hgroups
  | lateTemplate hsize hcount hstart hgroups =>
    -- The start is read off the boundaries of the template, which are found for it if need be.
    rcases hstart with rfl | rfl
    · cases hgroups with
      | known => exact ⟨rfl, .lateTemplate hsize hcount (.inr rfl) .known⟩
      | pending hwork =>
        refine ⟨?_, ?_⟩
        · rw [Result.start, Turn.answer_map, Work.answer_onto, hwork]
          rfl
        · rw [Result.start, Turn.next_map, Work.next_onto_of_ok hwork]
          exact .lateTemplate hsize hcount (.inr rfl) .known
    · exact ⟨rfl, .lateTemplate hsize hcount (.inr rfl) hgroups⟩

theorem boundaries_spec {g : Array Int} (h : r.LeadsTo (some g)) :
    r.boundaries.answer = .ok g ∧ r.boundaries.next.LeadsTo (some g) := by
  have hstarted := h.start_spec
  cases h with
  | single start stop => exact ⟨rfl, .single start stop⟩
  | @lateStart p start stop start? hstart =>
    refine ⟨?_, hstarted.2⟩
    rw [Result.boundaries, Turn.answer_map, hstarted.1]
    rfl
  | groups hsize => exact ⟨rfl, .groups hsize⟩
  | @lateGroups p _ start? groups? hsize hcount hstart hgroups =>
    cases hgroups with
    | known => exact ⟨rfl, .lateGroups hsize hcount hstart .known⟩
    | pending hwork =>
      -- The start is found first and stays known; the scan for the groups runs from it.
      have hok : (Result.lateGroups p (matchStop g) start? none).start.answer = .ok (matchStart g) :=
        hstarted.1
      rw [Result.boundaries, Turn.andThen_of_ok hok]
      refine ⟨(Work.answer_onto _ _ _).trans hwork, ?_⟩
      rw [Work.next_onto_of_ok hwork]
      exact .lateGroups hsize hcount .known .known
  | lateTemplate hsize hcount hstart hgroups =>
    cases hgroups with
    | known => exact ⟨rfl, .lateTemplate hsize hcount hstart .known⟩
    | pending hwork =>
      rw [Result.boundaries]
      refine ⟨(Work.answer_onto _ _ _).trans hwork, ?_⟩
      rw [Work.next_onto_of_ok hwork]
      exact .lateTemplate hsize hcount hstart .known

theorem eq_zero_or_one {number : UInt32} (h : number.toNat < 2) : number = 0 ∨ number = 1 := by
  have hcases : number.toNat = 0 ∨ number.toNat = 1 := by omega
  rcases hcases with h | h
  · exact .inl (UInt32.toNat_inj.1 h)
  · exact .inr (UInt32.toNat_inj.1 h)

/-- Asking for one boundary gives it, with or without finding all of them. -/
theorem boundary_spec {g : Array Int} (h : r.LeadsTo (some g)) {number : UInt32}
    (hnumber : number.toNat < g.size) :
    (r.boundary number).answer = lookup g number.toNat ∧
      (r.boundary number).next.LeadsTo (some g) := by
  have hstarted := h.start_spec
  have hall := h.boundaries_spec
  -- Results with groups of their own read the boundary from all of them.
  have hread : ∀ known, r.boundaries.andThen (fun g known => ⟨lookup g number.toNat, known, []⟩)
      = known → known.answer = lookup g number.toNat ∧ known.next.LeadsTo (some g) := by
    rintro _ rfl
    rw [Turn.andThen_of_ok hall.1]
    exact ⟨rfl, hall.2⟩
  cases h with
  | single start stop =>
    refine ⟨?_, .single start stop⟩
    rcases eq_zero_or_one hnumber with rfl | rfl <;> rfl
  | lateStart hstart =>
    rcases eq_zero_or_one hnumber with rfl | rfl
    · exact hstarted
    · exact ⟨rfl, .lateStart hstart⟩
  | groups => exact hread _ rfl
  | lateGroups => exact hread _ rfl
  | lateTemplate => exact hread _ rfl

theorem boundary_lt_size {g : Array Int} {index : UInt32}
    (h : index < (Result.groups g).groupCount) :
    (index * 2).toNat < g.size ∧ (index * 2 + 1).toNat < g.size := by
  have hindex : index.toNat < UInt32.size ∧ index.toNat < g.size / 2 := by
    have hlt := UInt32.lt_iff_toNat_lt.1 h
    rw [Result.groupCount, UInt32.toNat_ofNat'] at hlt
    have hmod := Nat.mod_le (g.size / 2) (2 ^ 32)
    exact ⟨index.toNat_lt, by omega⟩
  -- Numbers are doubled in 32-bit words, which can only make them smaller.
  rw [UInt32.toNat_add, UInt32.toNat_mul]
  simp only [UInt32.reduceToNat]
  have hdouble := Nat.mod_le (index.toNat * 2) (2 ^ 32)
  have hnext := Nat.mod_le (index.toNat * 2 % 2 ^ 32 + 1) (2 ^ 32)
  omega

/-- Asking for a boundary of a group gives it, or refuses what is not there. -/
theorem withGroup_spec {g : Array Int} (h : r.LeadsTo (some g)) {index number : UInt32}
    (hnumber : index < (Result.groups g).groupCount → number.toNat < g.size) :
    (r.withGroup index fun r => r.boundary number).answer =
        ((Result.groups g).withGroup index fun r => r.boundary number).answer ∧
      (r.withGroup index fun r => r.boundary number).next.LeadsTo (some g) := by
  have hcount : r.groupCount = (Result.groups g).groupCount := h.groupCount_eq
  have hfound : r.found = true := h.found_eq
  rw [Finding.answer_withGroup_groups, Result.withGroup, if_pos hfound, hcount]
  by_cases hindex : index < (Result.groups g).groupCount
  · rw [if_pos hindex, if_pos hindex]
    exact h.boundary_spec (hnumber hindex)
  · rw [if_neg hindex, if_neg hindex]
    exact ⟨rfl, h⟩

/-- Every question is answered as by the result that knows the finding, and the result still leads
there. -/
theorem access_spec (h : r.LeadsTo M) (a : Accessor) :
    (r.access a).answer = (M.told.access a).answer ∧ (r.access a).next.LeadsTo M := by
  cases M with
  | none =>
    cases h
    cases a <;> exact ⟨rfl, .noMatch⟩
  | some g =>
    cases a with
    | start => exact h.start_spec
    | stop =>
      refine ⟨h.answer_stop, ?_⟩
      rw [Result.access, next_stop]
      exact h
    | groupCount =>
      refine ⟨?_, h⟩
      rw [Result.access, Turn.answer_done, h.groupCount_eq]
      rfl
    | startOfGroup index => exact h.withGroup_spec fun hindex => (boundary_lt_size hindex).1
    | stopOfGroup index => exact h.withGroup_spec fun hindex => (boundary_lt_size hindex).2

end LeadsTo

/-! ## Questions in any order -/

def after (r : Result) (questions : List Accessor) : Result :=
  questions.foldl (fun r a => (r.access a).next) r

theorem after_cons (r : Result) (a : Accessor) (questions : List Accessor) :
    r.after (a :: questions) = (r.access a).next.after questions := rfl

theorem LeadsTo.after (h : r.LeadsTo M) (questions : List Accessor) :
    (r.after questions).LeadsTo M := by
  -- Every question leaves a result that leads to the same finding.
  induction questions generalizing r with
  | nil => exact h
  | cons a questions ih =>
    rw [after_cons]
    exact ih (h.access_spec a).2

/-- Whatever was asked before, the answer is that of the result that knows the finding. -/
theorem LeadsTo.answer_after (h : r.LeadsTo M) (questions : List Accessor) (a : Accessor) :
    ((r.after questions).access a).answer = (M.told.access a).answer :=
  ((h.after questions).access_spec a).1

end Result

end LazyMatch
