import LazyMatch.Proofs.Result.Laziness

/-!
# Results that lack no automaton

A scan whose automaton is missing fails. A result is equipped if it has the automata for everything
that it still has to find (`Result.Equipped`), and it stays so whatever it learns. An equipped
result never fails for want of an automaton: if that failure is answered, then an automaton that was
run has reported it (`Result.Equipped.reported_access`).
-/

namespace LazyMatch

/-- The failures of scans whose automaton is missing. -/
inductive Fault.WantsAutomaton : Fault → Prop
  | backward : WantsAutomaton (.contract .noBackward)
  | capture : WantsAutomaton (.contract .noCapture)

/-- An automaton that was run reported this failure. -/
def Reported (fault : Fault) (events : List Event) : Prop :=
  ∃ made, Event.run made ∈ events ∧ made.answer = .error fault

theorem Reported.append_left {fault : Fault} {events : List Event} (h : Reported fault events)
    (before : List Event) : Reported fault (before ++ events) := by
  rcases h with ⟨made, hmade, hanswer⟩
  exact ⟨made, List.mem_append_right before hmade, hanswer⟩

theorem error_of_map_eq_error {α β : Type} {f : α → β} {answer : Except Fault α} {fault : Fault}
    (h : answer.map f = .error fault) : answer = .error fault := by
  cases answer with
  | ok a => cases h
  | error reported => simpa [Except.map] using h

/-! ## Pending scans -/

namespace Pending

variable {p : Pending} {fault : Fault}

theorem reported_backwardValue (hbackward : p.bundle.backward.isSome = true)
    (hwants : fault.WantsAutomaton) {stop : Int}
    (h : (p.backwardValue stop).answer = .error fault) :
    Reported fault (p.backwardValue stop).events := by
  rcases Option.isSome_iff_exists.1 hbackward with ⟨backward, hb⟩
  rw [p.backwardValue_eq hb] at h ⊢
  cases hscan : backward.scan p.input 0 (stop - 1) p.floor with
  | error reported =>
    rw [hscan] at h
    cases h
    exact ⟨_, List.mem_singleton.2 rfl, rfl⟩
  | ok outcome =>
    -- A scan that ends can only find nothing, which is another failure.
    simp only [hscan, Except.bind] at h
    split at h
    · cases h
    · cases h
      cases hwants

theorem reported_locateStart (hbackward : p.bundle.backward.isSome = true)
    (hwants : fault.WantsAutomaton) {stop : Int}
    (h : (p.locateStart stop).answer = .error fault) :
    Reported fault (p.locateStart stop).events := by
  rw [p.locateStart_eq] at h ⊢
  exact reported_backwardValue hbackward hwants (error_of_map_eq_error h)

theorem reported_templateBoundaries (hbackward : p.bundle.backward.isSome = true)
    (hwants : fault.WantsAutomaton) {stop : Int}
    (h : (p.templateBoundaries stop).answer = .error fault) :
    Reported fault (p.templateBoundaries stop).events := by
  rw [p.templateBoundaries_eq] at h ⊢
  cases hvalue : (p.backwardValue stop).answer with
  | ok value =>
    rw [hvalue] at h
    have hnumber := error_of_map_eq_error h
    rw [Bundle.unknownTemplate_of_templateNumber hnumber] at hwants
    cases hwants
  | error reported =>
    rw [hvalue] at h
    cases h
    exact reported_backwardValue hbackward hwants hvalue

theorem reported_locateGroups (hcapture : p.bundle.capture.isSome = true)
    (hwants : fault.WantsAutomaton) {start stop : Int}
    (h : (p.locateGroups start stop).answer = .error fault) :
    Reported fault (p.locateGroups start stop).events := by
  rcases Option.isSome_iff_exists.1 hcapture with ⟨capture, hc⟩
  rw [p.locateGroups_eq hc] at h ⊢
  cases hscan : capture.scan p.input p.origin start stop with
  | error reported =>
    rw [hscan] at h
    cases h
    exact ⟨_, List.mem_append_right _ (List.mem_singleton.2 rfl), rfl⟩
  | ok outcome =>
    simp only [hscan, Except.bind] at h
    split at h
    · cases h
    · cases h
      cases hwants

end Pending

/-! ## Results -/

namespace Result

variable {r r' : Result} {fault : Fault}

/-- The automata for all that is left to find are there. -/
def Equipped (r : Result) : Prop :=
  ∀ p ∈ r.pending?,
    (r.toFind .backward ≠ 0 → p.bundle.backward.isSome = true) ∧
      (r.toFind .capture ≠ 0 → p.bundle.capture.isSome = true)

theorem Finds.equipped (h : Finds r r') (hequipped : r.Equipped) : r'.Equipped := by
  intro p hp
  rcases hequipped p (h.pending?_eq ▸ hp) with ⟨hbackward, hcapture⟩
  constructor
  · intro hleft
    have hfewer := h.toFind_le .backward
    exact hbackward (by omega)
  · intro hleft
    have hfewer := h.toFind_le .capture
    exact hcapture (by omega)

namespace Equipped

theorem reported_start (hequipped : r.Equipped) (hwants : fault.WantsAutomaton)
    (h : r.start.answer = .error fault) : Reported fault r.start.events := by
  cases r with
  | noMatch =>
    cases h
    cases hwants
  | single start stop => cases h
  | lateStart p stop start? =>
    cases start? with
    | some start => cases h
    | none =>
      rw [Result.start, Work.answer_onto] at h
      rw [Result.start, Work.events_onto]
      exact Pending.reported_locateStart ((hequipped p rfl).1 Nat.one_ne_zero) hwants h
  | groups g => cases h
  | lateGroups p stop start? groups? =>
    cases start? with
    | some start => cases h
    | none =>
      have hleft : (Result.lateGroups p stop none groups?).toFind .backward ≠ 0 := by
        cases groups? <;> exact Nat.one_ne_zero
      rw [Result.start, Work.answer_onto] at h
      rw [Result.start, Work.events_onto]
      exact Pending.reported_locateStart ((hequipped p rfl).1 hleft) hwants h
  | lateTemplate p stop start? groups? =>
    cases start? with
    | some start => cases h
    | none =>
      cases groups? with
      | some g => cases h
      | none =>
        rw [Result.start, Turn.answer_map, Work.answer_onto] at h
        rw [Result.start, Turn.events_map, Work.events_onto]
        exact Pending.reported_templateBoundaries ((hequipped p rfl).1 Nat.one_ne_zero) hwants
          (error_of_map_eq_error h)

theorem reported_boundaries (hequipped : r.Equipped) (hwants : fault.WantsAutomaton)
    (h : r.boundaries.answer = .error fault) : Reported fault r.boundaries.events := by
  cases r with
  | noMatch =>
    cases h
    cases hwants
  | single start stop => cases h
  | lateStart p stop start? =>
    exact hequipped.reported_start hwants (error_of_map_eq_error h)
  | groups g => cases h
  | lateGroups p stop start? groups? =>
    cases groups? with
    | some g => cases h
    | none =>
      rw [Result.boundaries] at h ⊢
      cases hstart : (Result.lateGroups p stop start? none).start.answer with
      | error reported =>
        rw [Turn.andThen_of_error hstart] at h ⊢
        cases h
        exact hequipped.reported_start hwants hstart
      | ok start =>
        have hleft : (Result.lateGroups p stop start? none).toFind .capture ≠ 0 := by
          cases start? <;> exact Nat.one_ne_zero
        rw [Turn.andThen_of_ok hstart] at h ⊢
        rw [Work.answer_onto] at h
        rw [Work.events_onto]
        exact (Pending.reported_locateGroups ((hequipped p rfl).2 hleft) hwants h).append_left _
  | lateTemplate p stop start? groups? =>
    cases groups? with
    | some g => cases h
    | none =>
      have hleft : (Result.lateTemplate p stop start? none).toFind .backward ≠ 0 := by
        cases start? <;> exact Nat.one_ne_zero
      rw [Result.boundaries, Work.answer_onto] at h
      rw [Result.boundaries, Work.events_onto]
      exact Pending.reported_templateBoundaries ((hequipped p rfl).1 hleft) hwants h

/-- A result that has its automata does not fail for want of one. -/
theorem reported_access (hequipped : r.Equipped) (hwants : fault.WantsAutomaton) (a : Accessor)
    (h : (r.access a).answer = .error fault) : Reported fault (r.access a).events := by
  have hcases := r.access_cases a
  generalize r.access a = turn at h hcases ⊢
  cases hcases with
  | told hrefusal =>
    rcases hrefusal fault h with rfl | ⟨e, rfl⟩ <;> cases hwants
  | started => exact hequipped.reported_start hwants h
  | spelt number =>
    rw [(andThen_lookup_keeps r.boundaries number).1]
    cases hboundaries : r.boundaries.answer with
    | error reported =>
      rw [Turn.andThen_of_error hboundaries] at h
      cases h
      exact hequipped.reported_boundaries hwants hboundaries
    | ok g =>
      rw [Turn.andThen_of_ok hboundaries] at h
      unfold lookup at h
      split at h <;> cases h
      cases hwants

end Equipped

end Result

end LazyMatch
