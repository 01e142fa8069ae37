import LazyMatch.Proofs.Find.Provision
import LazyMatch.Proofs.Find.WholeMatch

/-!
# Whether the start is known

A result says that it knows its start, and is printed with it, where it has the start at hand. Then
the start is told without a run. The converse fails in one case: a result that has found its
template for the sake of a group, and has not been asked for its start since, could read the start
off the template, but says that it does not know it. In every history of every result, wherever it
comes from, this is the only exception (`Result.tellsStart_iff_known_or_overlooked`).
-/

namespace LazyMatch

/-- Where a value was found, a run was made for it. -/
theorem Pending.exists_run_of_backwardValue {p : Pending} {stop value : Int}
    (h : (p.backwardValue stop).answer = .ok value) :
    ∃ made, Event.run made ∈ (p.backwardValue stop).events := by
  rcases exists_scan_of_backwardValue h with ⟨backward, -, hb, -⟩
  rcases run_mem_backwardValue (Option.isSome_of_eq_some hb) stop with ⟨made, hmade, -⟩
  exact ⟨made, hmade⟩

namespace Result

variable {r : Result} {p : Pending} {stop : Int} {g : Array Int}

/-! ## Starts that are told without a run -/

/-- The start would be told without a run of an automaton. -/
structure TellsStart (r : Result) : Prop where
  answered : ∃ start, r.start.answer = .ok start
  still : ∀ made, Event.run made ∉ r.start.events

theorem tellsStart_of_known (h : r.start?.isSome = true) : r.TellsStart := by
  rcases Option.isSome_iff_exists.1 h with ⟨start, hstart⟩
  refine ⟨⟨start, answer_start_of_start? hstart⟩, fun made hmade => ?_⟩
  cases r with
  | noMatch => cases h
  | single start stop => cases hmade
  | lateStart p stop start? =>
    cases hstart
    cases hmade
  | groups g => cases hmade
  | lateGroups p stop start? groups? =>
    cases hstart
    cases hmade
  | lateTemplate p stop start? groups? =>
    cases hstart
    cases hmade

/-- Where the start is found by a scan, a run is made for it. -/
theorem not_tellsStart_of_locateStart (hanswer : r.start.answer = (p.locateStart stop).answer)
    (hevents : r.start.events = (p.locateStart stop).events) : ¬ r.TellsStart := by
  rintro ⟨⟨start, hstart⟩, hstill⟩
  rw [hanswer] at hstart
  rw [hevents, p.locateStart_eq] at hstill
  rcases Pending.exists_run_of_backwardValue (Pending.backwardValue_of_locateStart hstart)
    with ⟨made, hmade⟩
  exact hstill made hmade

theorem not_tellsStart_of_template : ¬ (Result.lateTemplate p stop none none).TellsStart := by
  rintro ⟨⟨start, hstart⟩, hstill⟩
  rw [Result.start, Turn.answer_map, Work.answer_onto, p.templateBoundaries_eq] at hstart
  rw [Result.start, Turn.events_map, Work.events_onto, p.templateBoundaries_eq] at hstill
  cases hvalue : (p.backwardValue stop).answer with
  | error fault =>
    rw [hvalue] at hstart
    cases hstart
  | ok value =>
    rcases Pending.exists_run_of_backwardValue hvalue with ⟨made, hmade⟩
    exact hstill made hmade

/-- The start is told without a run if it is known, or if the template is. -/
theorem tellsStart_iff :
    r.TellsStart ↔
      r.start?.isSome = true ∨ ∃ p stop g, r = .lateTemplate p stop none (some g) := by
  constructor
  · intro htells
    cases r with
    | noMatch =>
      rcases htells.answered with ⟨start, hstart⟩
      cases hstart
    | single start stop => exact .inl rfl
    | lateStart p stop start? =>
      cases start? with
      | some start => exact .inl rfl
      | none =>
        exact absurd htells
          (not_tellsStart_of_locateStart (Work.answer_onto _ _ _) (Work.events_onto _ _ _))
    | groups g => exact .inl rfl
    | lateGroups p stop start? groups? =>
      cases start? with
      | some start => exact .inl rfl
      | none =>
        exact absurd htells
          (not_tellsStart_of_locateStart (Work.answer_onto _ _ _) (Work.events_onto _ _ _))
    | lateTemplate p stop start? groups? =>
      cases start? with
      | some start => exact .inl rfl
      | none =>
        cases groups? with
        | some g => exact .inr ⟨p, stop, g, rfl⟩
        | none => exact absurd htells not_tellsStart_of_template
  · rintro (hknown | ⟨p, stop, g, rfl⟩)
    · exact tellsStart_of_known hknown
    · exact ⟨⟨_, rfl⟩, fun made => List.not_mem_nil⟩

end Result

/-! ## The history of a result that looks for its template -/

namespace Accessor

def asksStart : Accessor → Bool
  | start => true
  | stop => false
  | groupCount => false
  | startOfGroup _ => false
  | stopOfGroup _ => false

/-- Whether one of so many groups is asked for. -/
def asksGroup (count : UInt32) : Accessor → Bool
  | start => false
  | stop => false
  | groupCount => false
  | startOfGroup index => index < count
  | stopOfGroup index => index < count

end Accessor

namespace Result

variable {r : Result} {p : Pending} {stop : Int} {g : Array Int} {startAsked groupAsked : Bool}

/-- What has become of a result whose template has these boundaries. -/
def templateAfter (p : Pending) (stop : Int) (g : Array Int) (startAsked groupAsked : Bool) :
    Result :=
  .lateTemplate p stop (if startAsked then some (matchStart g) else none)
    (if startAsked || groupAsked then some g else none)

theorem next_start_templateAfter (hfound : (p.templateBoundaries stop).answer = .ok g) :
    (templateAfter p stop g startAsked groupAsked).start.next =
      templateAfter p stop g true groupAsked := by
  cases startAsked with
  | true => rfl
  | false =>
    cases groupAsked with
    | true => rfl
    | false => exact Work.next_onto_of_ok hfound _ _

theorem next_boundaries_templateAfter (hfound : (p.templateBoundaries stop).answer = .ok g) :
    (templateAfter p stop g startAsked groupAsked).boundaries.next =
      templateAfter p stop g startAsked true := by
  cases startAsked with
  | true => rfl
  | false =>
    cases groupAsked with
    | true => rfl
    | false => exact Work.next_onto_of_ok hfound _ _

theorem next_withGroup_templateAfter (hfound : (p.templateBoundaries stop).answer = .ok g)
    (index number : UInt32) :
    ((templateAfter p stop g startAsked groupAsked).withGroup index
        fun r => r.boundary number).next =
      templateAfter p stop g startAsked (groupAsked || decide (index < p.bundle.groupCount)) := by
  have hmatch : (templateAfter p stop g startAsked groupAsked).found = true := rfl
  have hcount : (templateAfter p stop g startAsked groupAsked).groupCount = p.bundle.groupCount :=
    rfl
  rw [withGroup, if_pos hmatch, hcount]
  by_cases hindex : index < p.bundle.groupCount
  · rw [if_pos hindex, decide_eq_true hindex, Bool.or_true]
    exact (andThen_lookup_keeps _ _).2.trans (next_boundaries_templateAfter hfound)
  · rw [if_neg hindex, decide_eq_false hindex, Bool.or_false]
    rfl

theorem next_access_templateAfter (hfound : (p.templateBoundaries stop).answer = .ok g)
    (a : Accessor) :
    ((templateAfter p stop g startAsked groupAsked).access a).next =
      templateAfter p stop g (startAsked || a.asksStart)
        (groupAsked || a.asksGroup p.bundle.groupCount) := by
  cases a with
  | start =>
    rw [Accessor.asksStart, Accessor.asksGroup, Bool.or_true, Bool.or_false]
    exact next_start_templateAfter hfound
  | stop =>
    rw [Accessor.asksStart, Accessor.asksGroup, Bool.or_false, Bool.or_false]
    exact next_stop _
  | groupCount =>
    rw [Accessor.asksStart, Accessor.asksGroup, Bool.or_false, Bool.or_false]
    rfl
  | startOfGroup index =>
    rw [Accessor.asksStart, Accessor.asksGroup, Bool.or_false]
    exact next_withGroup_templateAfter hfound index _
  | stopOfGroup index =>
    rw [Accessor.asksStart, Accessor.asksGroup, Bool.or_false]
    exact next_withGroup_templateAfter hfound index _

/-- All that matters of a history is whether the start and whether a group was asked for. -/
theorem after_templateAfter (hfound : (p.templateBoundaries stop).answer = .ok g)
    (questions : List Accessor) :
    (templateAfter p stop g startAsked groupAsked).after questions =
      templateAfter p stop g (startAsked || questions.any Accessor.asksStart)
        (groupAsked || questions.any (Accessor.asksGroup p.bundle.groupCount)) := by
  induction questions generalizing startAsked groupAsked with
  | nil => simp [after]
  | cons a questions ih =>
    rw [after_cons, next_access_templateAfter hfound, ih, List.any_cons, List.any_cons,
      Bool.or_assoc, Bool.or_assoc]

/-- As long as its template cannot be found, a result learns nothing. -/
theorem after_of_template_error {fault : Fault}
    (hfault : (p.templateBoundaries stop).answer = .error fault) (questions : List Accessor) :
    (Result.lateTemplate p stop none none).after questions = .lateTemplate p stop none none := by
  have hnext (a : Accessor) :
      ((Result.lateTemplate p stop none none).access a).next = .lateTemplate p stop none none :=
    access_induction (P := fun next _ => next = .lateTemplate p stop none none) _ a rfl
      (Work.next_onto_of_error hfault _ _) (Work.next_onto_of_error hfault _ _)
  induction questions with
  | nil => rfl
  | cons a questions ih => rw [after_cons, hnext, ih]

/-! ## Results wherever they come from -/

/-- A result as it is made, by hand or by a search: what it leaves pending has not been found. -/
inductive Made : Result → Prop
  | noMatch : Made .noMatch
  | single (start stop : Int) : Made (.single start stop)
  | lateStart (p : Pending) (stop : Int) : Made (.lateStart p stop none)
  | groups (g : Array Int) : Made (.groups g)
  | lateGroups (p : Pending) (stop : Int) (start? : Option Int) :
      Made (.lateGroups p stop start? none)
  | lateTemplate (p : Pending) (stop : Int) : Made (.lateTemplate p stop none none)

theorem made_of_pending? (h : r.pending? = none) : r.Made := by
  cases r with
  | noMatch => exact .noMatch
  | single start stop => exact .single start stop
  | lateStart p stop start? => cases h
  | groups g => exact .groups g
  | lateGroups p stop start? groups? => cases h
  | lateTemplate p stop start? groups? => cases h

/-- The template was found for the sake of a group, and the start has not been asked for. -/
def OverlooksStart (r : Result) (questions : List Accessor) : Prop :=
  ∃ p stop g, r = .lateTemplate p stop none none ∧ (p.templateBoundaries stop).answer = .ok g ∧
    Accessor.start ∉ questions ∧
    ∃ index, index < p.bundle.groupCount ∧
      (Accessor.startOfGroup index ∈ questions ∨ Accessor.stopOfGroup index ∈ questions)

theorem any_asksStart_iff {questions : List Accessor} :
    questions.any Accessor.asksStart = true ↔ Accessor.start ∈ questions := by
  rw [List.any_eq_true]
  constructor
  · rintro ⟨a, ha, hasks⟩
    cases a with
    | start => exact ha
    | stop => cases hasks
    | groupCount => cases hasks
    | startOfGroup index => cases hasks
    | stopOfGroup index => cases hasks
  · intro hmem
    exact ⟨.start, hmem, rfl⟩

theorem any_asksGroup_iff {count : UInt32} {questions : List Accessor} :
    questions.any (Accessor.asksGroup count) = true ↔
      ∃ index, index < count ∧
        (Accessor.startOfGroup index ∈ questions ∨ Accessor.stopOfGroup index ∈ questions) := by
  rw [List.any_eq_true]
  constructor
  · rintro ⟨a, ha, hasks⟩
    cases a with
    | start => cases hasks
    | stop => cases hasks
    | groupCount => cases hasks
    | startOfGroup index => exact ⟨index, of_decide_eq_true hasks, .inl ha⟩
    | stopOfGroup index => exact ⟨index, of_decide_eq_true hasks, .inr ha⟩
  · rintro ⟨index, hindex, hmem | hmem⟩
    · exact ⟨_, hmem, decide_eq_true hindex⟩
    · exact ⟨_, hmem, decide_eq_true hindex⟩

def looksForTemplate : Result → Bool
  | noMatch => false
  | single .. => false
  | lateStart .. => false
  | groups _ => false
  | lateGroups .. => false
  | lateTemplate .. => true

theorem looksForTemplate_after (r : Result) (questions : List Accessor) :
    (r.after questions).looksForTemplate = r.looksForTemplate :=
  after_preserves (P := fun later => later.looksForTemplate = r.looksForTemplate)
    (fun hstep h => by cases hstep <;> exact h) rfl questions

theorem exists_templateAfter_eq_iff :
    (∃ p' stop' g', templateAfter p stop g startAsked groupAsked =
        .lateTemplate p' stop' none (some g')) ↔ startAsked = false ∧ groupAsked = true := by
  cases startAsked <;> cases groupAsked <;> simp [templateAfter]

/-- The result knows its template and not its start exactly if a group was asked for, the start was
not, and the template can be found. -/
theorem overlooked_after_iff (hmade : r.Made) (questions : List Accessor) :
    (∃ p stop g, r.after questions = .lateTemplate p stop none (some g)) ↔
      r.OverlooksStart questions := by
  -- A result of another kind stays of that kind.
  have hother (hnone : r.looksForTemplate = false) :
      (∃ p stop g, r.after questions = .lateTemplate p stop none (some g)) ↔
        r.OverlooksStart questions := by
    refine iff_of_false ?_ ?_
    · rintro ⟨p, stop, g, hafter⟩
      have hkept := r.looksForTemplate_after questions
      rw [hafter, hnone] at hkept
      cases hkept
    · rintro ⟨p, stop, g, rfl, -⟩
      cases hnone
  cases hmade with
  | noMatch => exact hother rfl
  | single start stop => exact hother rfl
  | lateStart p stop => exact hother rfl
  | groups g => exact hother rfl
  | lateGroups p stop start? => exact hother rfl
  | lateTemplate p stop =>
    cases hanswer : (p.templateBoundaries stop).answer with
    | error fault =>
      rw [after_of_template_error hanswer]
      refine iff_of_false ?_ ?_
      · rintro ⟨_, _, _, hknown⟩
        cases hknown
      · rintro ⟨_, _, _, ⟨⟩, hfound, -⟩
        cases hanswer.symm.trans hfound
    | ok g =>
      have hafter : (Result.lateTemplate p stop none none).after questions =
          templateAfter p stop g (false || questions.any Accessor.asksStart)
            (false || questions.any (Accessor.asksGroup p.bundle.groupCount)) :=
        @after_templateAfter p stop g false false hanswer questions
      rw [hafter, exists_templateAfter_eq_iff, Bool.false_or, Bool.false_or, any_asksGroup_iff,
        ← Bool.not_eq_true, any_asksStart_iff]
      constructor
      · rintro ⟨hstart, hgroup⟩
        exact ⟨p, stop, g, rfl, hanswer, hstart, hgroup⟩
      · rintro ⟨_, _, _, ⟨⟩, -, hstart, hgroup⟩
        exact ⟨hstart, hgroup⟩

/-! ## What is said and printed -/

theorem answer_print_of_known {start stop : Int} (hstart : r.start? = some start)
    (hstop : r.stop? = some stop) :
    r.print.answer = .ok (r.label ++ "[" ++ toString start ++ "," ++ toString stop ++ ")") := by
  rw [print_eq, Turn.answer_done, text, hstop, hstart]
  rfl

theorem answer_print_of_unknown {stop : Int} (hstart : r.start? = none)
    (hstop : r.stop? = some stop) :
    r.print.answer = .ok (r.label ++ "[" ++ "?" ++ "," ++ toString stop ++ ")") := by
  rw [print_eq, Turn.answer_done, text, hstop, hstart]
  rfl

end Result

theorem Bundle.Gives.made {b : Bundle} {input : Input} {origin : Int} {r : Result}
    (h : b.Gives input origin r) : r.Made := by
  rcases h.find_or_pending? with hfind | hnone
  · cases fresh_of_find hfind with
    | noMatch => exact .noMatch
    | single start stop => exact .single start stop
    | lateStart stop => exact .lateStart _ stop
    | template t start => exact Result.made_of_pending? (t.pending?_resultFromStart start)
    | lateGroups stop start? => exact .lateGroups _ stop start?
    | lateTemplate stop => exact .lateTemplate _ stop
  · exact Result.made_of_pending? hnone

/-- Take a match as it is made by hand or by a search, after any questions, of which some may have
failed. If it says that it knows its start, the start is told without a run, and printed; otherwise
a question mark is printed. A result that says that it does not know its start would yet tell it
without a run exactly if it has found its template for the sake of a group and has not been asked
for the start. -/
theorem Result.tellsStart_iff_known_or_overlooked (r : Result) (questions : List Accessor) :
    (∀ (b : Bundle) (input : Input) (origin : Int), b.Gives input origin r → r.Made) ∧
    (∀ (a : Automaton) (input : Input) (origin : Int),
      (a.find input origin).answer = .ok r → r.Made) ∧
    (r.Made → r.found = true → ∀ later : Result, later = r.after questions →
      (later.TellsStart ↔ later.start?.isSome = true ∨ r.OverlooksStart questions) ∧
      (r.OverlooksStart questions → later.start? = none) ∧
      ∃ stop, later.stop.answer = .ok stop ∧
        (∀ start, later.start? = some start →
          later.start.answer = .ok start ∧
            later.print.answer =
              .ok (later.label ++ "[" ++ toString start ++ "," ++ toString stop ++ ")")) ∧
        (later.start? = none →
          later.print.answer =
            .ok (later.label ++ "[" ++ "?" ++ "," ++ toString stop ++ ")"))) := by
  refine ⟨fun b input origin hgives => hgives.made,
    fun a input origin hfind => made_of_pending? (Automaton.pending?_of_find hfind), ?_⟩
  rintro hmade hfound later rfl
  have hlater : (r.after questions).found = true := (r.found_after questions).trans hfound
  rw [found_eq_isSome] at hlater
  rcases Option.isSome_iff_exists.1 hlater with ⟨stop, hstop⟩
  refine ⟨?_, fun hoverlooks => ?_, stop, ?_, fun start hstart => ?_, fun hnone => ?_⟩
  · rw [tellsStart_iff, overlooked_after_iff hmade]
  · rcases (overlooked_after_iff hmade questions).2 hoverlooks with ⟨p, stop, g, hafter⟩
    rw [hafter]
    rfl
  · rw [Result.stop, hstop]
    rfl
  · exact ⟨answer_start_of_start? hstart, answer_print_of_known hstart hstop⟩
  · exact answer_print_of_unknown hnone hstop

/-- The match of `a(b)?c` in the sample input, as a search leaves it. -/
def pendingTemplate : Result := .lateTemplate (templateBundle.pending sampleInput 0) 4 none none

/-- Asked for a group and printed, the result has a question mark for its start. The start is told
without a run all the same, and then it is printed. -/
theorem templateBundle_overlooks_start :
    (templateBundle.find sampleInput 0).answer = .ok pendingTemplate ∧ pendingTemplate.Made ∧
      pendingTemplate.found = true ∧ pendingTemplate.OverlooksStart [.startOfGroup 1] ∧
      (pendingTemplate.after [.startOfGroup 1]).start? = none ∧
      (pendingTemplate.after [.startOfGroup 1]).TellsStart ∧
      (pendingTemplate.after [.startOfGroup 1]).print.answer = .ok "trace_finder[?,4)" ∧
      (pendingTemplate.after [.startOfGroup 1, .start]).print.answer =
        .ok "trace_finder[1,4)" := by
  rcases pendingTemplate.tellsStart_iff_known_or_overlooked [.startOfGroup 1]
    with ⟨hgives, -, hasked⟩
  rcases pendingTemplate.tellsStart_iff_known_or_overlooked [.startOfGroup 1, .start]
    with ⟨-, -, hstarted⟩
  have hfind : (templateBundle.find sampleInput 0).answer = .ok pendingTemplate := rfl
  have hmade : pendingTemplate.Made := hgives templateBundle sampleInput 0 (.inl hfind)
  have hoverlooks : pendingTemplate.OverlooksStart [.startOfGroup 1] :=
    ⟨_, 4, Template.grouped.boundaries 1, rfl, rfl, by simp, 1, by decide, by simp⟩
  rcases hasked hmade rfl _ rfl with ⟨htells, hunknown, stop, hstop, -, hmark⟩
  rcases hstarted hmade rfl _ rfl with ⟨-, -, stop', hstop', hknown, -⟩
  have hend : (pendingTemplate.after [.startOfGroup 1]).stop.answer = .ok 4 := by rfl
  have hend' : (pendingTemplate.after [.startOfGroup 1, .start]).stop.answer = .ok 4 := by rfl
  have hstart : (pendingTemplate.after [.startOfGroup 1, .start]).start? = some 1 :=
    congrArg some (Template.grouped.matchStart_boundaries 1)
  cases hend.symm.trans hstop
  cases hend'.symm.trans hstop'
  exact ⟨hfind, hmade, rfl, hoverlooks, hunknown hoverlooks, htells.2 (.inr hoverlooks),
    hmark (hunknown hoverlooks), (hknown 1 hstart).2⟩

end LazyMatch
