import LazyMatch.Proofs.Result.Constancy
import LazyMatch.Proofs.Result.Provision

/-!
# Accesses that fail

An access may find the start, then the groups, and each of them may fail. A failed access leaves the
result as it was, except that a start which was found on the way to groups that were not found is
kept (`Result.failed_access_keeps`). So nothing that is known after a failure is other than what a
successful access would have found, and groups are known as a whole or not at all.
-/

namespace LazyMatch

/-- Whether a failure is thrown. Reading outside an array is not. -/
def Fault.Thrown (fault : Fault) : Prop := fault ≠ .lookup

namespace Result

variable {r : Result} {fault : Fault}

/-- A failed scan for the start, or for the template, leaves nothing behind. -/
theorem next_start_of_error (h : r.start.answer = .error fault) : r.start.next = r := by
  cases r with
  | noMatch => rfl
  | single start stop => rfl
  | lateStart p stop start? =>
    cases start? with
    | some start => rfl
    | none =>
      rw [Result.start, Work.answer_onto] at h
      rw [Result.start, Work.next_onto_of_error h]
  | groups g => rfl
  | lateGroups p stop start? groups? =>
    cases start? with
    | some start => rfl
    | none =>
      rw [Result.start, Work.answer_onto] at h
      rw [Result.start, Work.next_onto_of_error h]
  | lateTemplate p stop start? groups? =>
    cases start? with
    | some start => rfl
    | none =>
      cases groups? with
      | some g => cases h
      | none =>
        rw [Result.start, Turn.answer_map, Work.answer_onto] at h
        rw [Result.start, Turn.next_map, Work.next_onto_of_error (error_of_map_eq_error h)]

/-- The start was found on the way to the groups, and these were not: the result has learnt its
start. -/
inductive StartsOnly (fault : Fault) : Result → Result → Prop
  | mk {p : Pending} {stop start : Int} (hstart : (p.locateStart stop).answer = .ok start)
      (hgroups : (p.locateGroups start stop).answer = .error fault) :
      StartsOnly fault (.lateGroups p stop none none) (.lateGroups p stop (some start) none)

theorem next_boundaries_of_error (h : r.boundaries.answer = .error fault) :
    r.boundaries.next = r ∨ StartsOnly fault r r.boundaries.next := by
  cases r with
  | noMatch => exact .inl rfl
  | single start stop => cases h
  | lateStart p stop start? => exact .inl (next_start_of_error (error_of_map_eq_error h))
  | groups g => cases h
  | lateGroups p stop start? groups? =>
    cases groups? with
    | some g => cases h
    | none =>
      rw [Result.boundaries] at h ⊢
      cases hstart : (Result.lateGroups p stop start? none).start.answer with
      | error reported =>
        rw [Turn.andThen_of_error hstart]
        exact .inl (next_start_of_error hstart)
      | ok start =>
        rw [Turn.andThen_of_ok hstart, Work.answer_onto] at h
        rw [Turn.andThen_of_ok hstart, Work.next_onto_of_error h, next_start_of_lateGroups hstart]
        cases start? with
        | some known =>
          cases hstart
          exact .inl rfl
        | none => exact .inr ⟨(Work.answer_onto _ _ _).symm.trans hstart, h⟩
  | lateTemplate p stop start? groups? =>
    cases groups? with
    | some g => cases h
    | none =>
      rw [Result.boundaries, Work.answer_onto] at h
      rw [Result.boundaries, Work.next_onto_of_error h]
      exact .inl rfl

/-- A group access that fails is refused, or fails to find the start or the groups. -/
theorem next_withGroup_of_error (hthrown : fault.Thrown) {index number : UInt32}
    (h : (r.withGroup index fun r => r.boundary number).answer = .error fault) :
    (r.withGroup index fun r => r.boundary number).next = r ∨
      StartsOnly fault r (r.withGroup index fun r => r.boundary number).next := by
  have hcases := r.withGroup_cases index number
  generalize r.withGroup index (fun r => r.boundary number) = turn at h hcases ⊢
  cases hcases with
  | told => exact .inl rfl
  | started => exact .inl (next_start_of_error h)
  | spelt number =>
    rw [(andThen_lookup_keeps r.boundaries number).2]
    cases hboundaries : r.boundaries.answer with
    | error reported =>
      rw [Turn.andThen_of_error hboundaries] at h
      cases h
      exact next_boundaries_of_error hboundaries
    | ok g =>
      -- The groups were found, so what fails can only be reading outside them.
      rw [Turn.andThen_of_ok hboundaries] at h
      unfold lookup at h
      split at h <;> cases h
      exact absurd rfl hthrown

/-- Only a group access finds the start on the way to something else. -/
theorem next_access_of_error (hthrown : fault.Thrown) {a : Accessor}
    (h : (r.access a).answer = .error fault) :
    (r.access a).next = r ∨
      (∃ index, a = .startOfGroup index ∨ a = .stopOfGroup index) ∧
        StartsOnly fault r (r.access a).next := by
  cases a with
  | start => exact .inl (next_start_of_error h)
  | stop => exact .inl r.next_stop
  | groupCount => cases h
  | startOfGroup index =>
    exact (next_withGroup_of_error hthrown h).imp_right fun hkept => ⟨⟨index, .inl rfl⟩, hkept⟩
  | stopOfGroup index =>
    exact (next_withGroup_of_error hthrown h).imp_right fun hkept => ⟨⟨index, .inr rfl⟩, hkept⟩

/-- An access that throws leaves the result as it was. The only exception is a group access that
found the start, as a match with pending groups needs it, and then failed to find the groups: the
result has learnt the start that the backward automaton found, and nothing else. A match that is not
there, and a group that is not there, are refused without any scan or change. And in whatever order
the result was asked, a start that it knows is the one that it would have answered at first. -/
theorem failed_access_keeps (r : Result) :
    (∀ (a : Accessor) (fault : Fault), fault.Thrown → (r.access a).answer = .error fault →
      (r.access a).next = r ∨
        ∃ p stop start, r = .lateGroups p stop none none ∧
          (∃ index, a = .startOfGroup index ∨ a = .stopOfGroup index) ∧
          (p.locateStart stop).answer = .ok start ∧
          (p.locateGroups start stop).answer = .error fault ∧
          (r.access a).next = .lateGroups p stop (some start) none) ∧
    (r.found = false → ∀ a, a ≠ .groupCount → r.access a = .failed .noMatch r) ∧
    (r.found = true → ∀ index, ¬ index < r.groupCount →
      r.access (.startOfGroup index) = .failed (.range (.group index r.groupCount)) r ∧
        r.access (.stopOfGroup index) = .failed (.range (.group index r.groupCount)) r) ∧
    ∀ (questions : List Accessor) (start : Int), (r.after questions).start? = some start →
      r.start.answer = .ok start := by
  refine ⟨fun a fault hthrown h => ?_, fun hnone a ha => ?_, fun hfound index hindex => ?_,
    fun questions start hstart => ?_⟩
  · refine (next_access_of_error hthrown h).imp_right ?_
    rintro ⟨hgroup, hkept⟩
    generalize (r.access a).next = later at hkept ⊢
    cases hkept with
    | mk hstart hgroups => exact ⟨_, _, _, rfl, hgroup, hstart, hgroups, rfl⟩
  · rw [eq_noMatch_of_found hnone]
    cases a with
    | groupCount => exact absurd rfl ha
    | start => rfl
    | stop => rfl
    | startOfGroup index => rfl
    | stopOfGroup index => rfl
  · exact ⟨withGroup_of_not_lt hfound hindex fun r => r.boundary (index * 2),
      withGroup_of_not_lt hfound hindex fun r => r.boundary (index * 2 + 1)⟩
  · rw [← r.access_start_after questions]
    exact answer_start_of_start? hstart

end Result

/-- The groups of the sample cannot be found, and asking for one of them leaves the start behind; a
group that is not there, and a match that is not there, are refused. -/
theorem rejectingBundle_failed_access :
    ∃ r p start, (rejectingBundle.find sampleInput 0).answer = .ok r ∧
      (r.access (.startOfGroup 1)).answer = .error (.contract .captureRejected) ∧
      (p.locateStart 4).answer = .ok start ∧
      (r.access (.startOfGroup 1)).next = .lateGroups p 4 (some start) none ∧
      r.access (.startOfGroup 2) = .failed (.range (.group 2 2)) r ∧
      Result.noMatch.access .start = .failed .noMatch .noMatch ∧
      (r.after [.stopOfGroup 1]).start? = some 1 ∧ r.start.answer = .ok 1 := by
  let r : Result := .lateGroups (rejectingBundle.pending sampleInput 0) 4 none none
  have hfind : (rejectingBundle.find sampleInput 0).answer = .ok r := rfl
  have hfault : (r.access (.startOfGroup 1)).answer = .error (.contract .captureRejected) := rfl
  have hknown : (r.after [.stopOfGroup 1]).start? = some 1 := rfl
  have hlearnt : (r.access (.startOfGroup 1)).next.start? = some 1 := rfl
  rcases r.failed_access_keeps with ⟨hkeeps, -, hrefused, hstart⟩
  rcases Result.noMatch.failed_access_keeps with ⟨-, hunmatched, -, -⟩
  have hthrown : Fault.Thrown (.contract .captureRejected) := nofun
  rcases hkeeps (.startOfGroup 1) _ hthrown hfault
    with hsame | ⟨p, stop, start, hr, -, hfound, -, hnext⟩
  · rw [hsame] at hlearnt
    cases hlearnt
  · have hstop : stop = 4 := (Option.some.inj (congrArg Result.stop? hr)).symm
    rw [hstop] at hfound hnext
    exact ⟨r, p, start, hfind, hfault, hfound, hnext, (hrefused rfl 2 (by decide)).1,
      hunmatched rfl .start nofun, hknown, hstart [.stopOfGroup 1] 1 hknown⟩

end LazyMatch
