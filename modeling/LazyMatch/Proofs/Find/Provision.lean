import LazyMatch.Proofs.Find.Laziness
import LazyMatch.Proofs.Matcher.Search
import LazyMatch.Proofs.Result.Provision

/-!
# When a backward automaton is needed

A bundle is refused for want of a backward automaton by rules about its templates, its flags and its
other automata. A search decides by rules of its own what it leaves pending. The two agree
(`Bundle.toFind_resultFromStop`): the check refuses exactly the bundles of which some search would
leave a start, or a template, to a backward automaton that is not there. So no result of an accepted
bundle ever fails for want of an automaton (`Bundle.provided`).
-/

namespace LazyMatch

/-! ## What a search leaves to the backward automaton -/

namespace Template

theorem toFind_resultFromStart (t : Template) (start : Int) (role : Role) :
    (t.resultFromStart start).toFind role = 0 := by
  unfold resultFromStart
  split <;> rfl

end Template

namespace Bundle

variable {b : Bundle} {input : Input} {origin stop : Int} {r : Result}

/-- A match that the forward automaton finds leaves something to the backward automaton exactly if
the check says so, except that an empty match without groups needs no automaton to find its
start. -/
theorem toFind_resultFromStop (b : Bundle) (input : Input) (origin stop : Int) :
    (b.resultFromStop input origin stop).toFind .backward ≠ 0 ↔
      b.needsBackward = true ∧ ¬ (b.templates = #[] ∧ b.capture = none ∧ stop = origin) := by
  rcases Nat.lt_trichotomy b.templates.size 1 with hsize | hsize | hsize
  · have hempty : b.templates = #[] := Array.size_eq_zero_iff.1 (Nat.lt_one_iff.1 hsize)
    rw [resultFromStop_of_empty hempty, Parts.needsBackward_of_empty hempty]
    -- Both sides make the same decisions now.
    cases hc : b.capture with
    | none =>
      by_cases hstop : stop = origin
      · simp [hempty, hstop, Result.toFind]
      · cases b.forward.anchored || b.sticky <;> simp [hstop, Result.toFind]
    | some capture =>
      cases b.startsAtOrigin <;> simp [Result.toFind]
  · rcases Array.size_eq_one_iff.1 hsize with ⟨t, ht⟩
    rw [resultFromStop_of_single ht, Parts.needsBackward_of_single hsize, Template.resultFromStop,
      t.toFind_resultFromStart]
    simp
  · have hsome : b.templates ≠ #[] := by
      intro hempty
      simp [hempty] at hsize
    rw [resultFromStop_of_many hsize, Parts.needsBackward_of_many hsize]
    simp [hsome, Result.toFind]

/-- The automaton for the groups is there if a match leaves something to it. -/
theorem capture_of_toFind_resultFromStop
    (h : (b.resultFromStop input origin stop).toFind .capture ≠ 0) : b.capture.isSome = true := by
  rcases Nat.lt_trichotomy b.templates.size 1 with hsize | hsize | hsize
  · have hempty : b.templates = #[] := Array.size_eq_zero_iff.1 (Nat.lt_one_iff.1 hsize)
    rw [resultFromStop_of_empty hempty] at h
    cases hc : b.capture with
    | some capture => rfl
    | none =>
      simp only [hc, Option.isNone_none, if_true] at h
      repeat' split at h
      all_goals exact absurd rfl h
  · rcases Array.size_eq_one_iff.1 hsize with ⟨t, ht⟩
    rw [resultFromStop_of_single ht] at h
    exact absurd (t.toFind_resultFromStart _ _) h
  · rw [resultFromStop_of_many hsize] at h
    exact absurd rfl h

theorem unknownTemplate_of_resultFromValue {value : Int} {fault : Fault}
    (h : b.resultFromValue input origin value = .error fault) :
    fault = .contract .unknownTemplate := by
  unfold resultFromValue at h
  split at h
  · exact unknownTemplate_of_templateNumber (error_of_map_eq_error h)
  · split at h
    · cases h
    · split at h <;> cases h

/-- A search backward has used the backward automaton, and leaves nothing to it. -/
theorem toFind_of_resultFromValue {value : Int}
    (h : b.resultFromValue input origin value = .ok r) :
    r.toFind .backward = 0 ∧ (r.toFind .capture ≠ 0 → b.capture.isSome = true) := by
  rcases resultFromValue_cases h with ⟨t, -, start, rfl⟩ | ⟨-, rfl⟩
  · exact ⟨t.toFind_resultFromStart _ _, fun hleft => absurd (t.toFind_resultFromStart _ _) hleft⟩
  · split
    · next hcapture => exact ⟨rfl, fun _ => hcapture⟩
    · exact ⟨rfl, fun hleft => absurd rfl hleft⟩

/-! ## Results of searches have their automata -/

theorem Fresh.equipped (h : b.Fresh input origin r)
    (hbackward : r.toFind .backward ≠ 0 → b.backward.isSome = true)
    (hcapture : r.toFind .capture ≠ 0 → b.capture.isSome = true) : r.Equipped := by
  intro p hp
  rw [h.eq_pending p hp]
  exact ⟨hbackward, hcapture⟩

theorem equipped_of_find (h : (b.find input origin).answer = .ok r) : r.Equipped := by
  refine (fresh_of_find h).equipped ?_ ?_
  · intro hleft
    rcases find_cases h with rfl | ⟨stop, rfl⟩ | ⟨backward, value, hb, hvalue⟩
    · exact absurd rfl hleft
    · rcases b.exists_backward ((b.toFind_resultFromStop input origin stop).1 hleft).1
        with ⟨backward, hb⟩
      exact Option.isSome_of_mem hb
    · exact Option.isSome_of_mem hb
  · intro hleft
    rcases find_cases h with rfl | ⟨stop, rfl⟩ | ⟨backward, value, hb, hvalue⟩
    · exact absurd rfl hleft
    · exact capture_of_toFind_resultFromStop hleft
    · exact (toFind_of_resultFromValue hvalue).2 hleft

/-- A search fails for want of an automaton only where the one that it runs reports this. -/
theorem reported_find {fault : Fault} (hwants : fault.WantsAutomaton)
    (h : (b.find input origin).answer = .error fault) :
    Reported fault (b.find input origin).events := by
  rcases b.find_route input origin with ⟨backward, hb, -, hfind⟩ | ⟨-, hfind⟩
  · rw [hfind, findBackward_eq] at h ⊢
    cases hscan : backward.scan input 0 (input.size - 1) (b.pending input origin).floor with
    | error reported =>
      rw [hscan] at h
      cases h
      exact ⟨_, List.mem_singleton.2 rfl, rfl⟩
    | ok outcome =>
      simp only [hscan, Except.bind] at h
      split at h
      · rw [unknownTemplate_of_resultFromValue h] at hwants
        cases hwants
      · cases h
  · rw [hfind, findForward_eq] at h ⊢
    cases hscan : b.forward.scan input origin origin input.size with
    | error reported =>
      rw [hscan] at h
      cases h
      exact ⟨_, List.mem_singleton.2 rfl, rfl⟩
    | ok outcome =>
      rw [hscan] at h
      cases h

end Bundle

/-! ## The check and the searches agree -/

/-- Some questions to the result run the backward automaton. -/
def Result.RunsBackward (r : Result) : Prop :=
  ∃ (questions : List Accessor) (made : Run),
    Event.run made ∈ r.eventsOf questions ∧ made.role = .backward

theorem Pending.run_mem_backwardValue {p : Pending} (hbackward : p.bundle.backward.isSome = true)
    (stop : Int) :
    ∃ made, Event.run made ∈ (p.backwardValue stop).events ∧ made.role = .backward := by
  rcases Option.isSome_iff_exists.1 hbackward with ⟨backward, hb⟩
  rw [p.backwardValue_eq hb]
  exact ⟨_, List.mem_singleton.2 rfl, rfl⟩

/-- A result runs the backward automaton that it has if it has anything left to find by it. -/
theorem Result.runsBackward_iff {r : Result} (htidy : r.Tidy)
    (hbackward : ∀ p ∈ r.pending?, p.bundle.backward.isSome = true) :
    r.RunsBackward ↔ r.toFind .backward ≠ 0 := by
  constructor
  · rintro ⟨questions, made, hmade, hrole⟩ hnone
    exact without_of_toFind_eq_zero hnone questions made hmade hrole
  · intro hleft
    -- Asking for the start makes the run.
    have hstart : ∃ made, Event.run made ∈ r.start.events ∧ made.role = .backward := by
      cases r with
      | noMatch => exact absurd rfl hleft
      | single start stop => exact absurd rfl hleft
      | lateStart p stop start? =>
        cases start? with
        | some start => exact absurd rfl hleft
        | none =>
          rw [Result.start, Work.events_onto, p.locateStart_eq]
          exact p.run_mem_backwardValue (hbackward p rfl) stop
      | groups g => exact absurd rfl hleft
      | lateGroups p stop start? groups? =>
        cases start? with
        | some start => cases groups? <;> exact absurd rfl hleft
        | none =>
          rw [Result.start, Work.events_onto, p.locateStart_eq]
          exact p.run_mem_backwardValue (hbackward p rfl) stop
      | lateTemplate p stop start? groups? =>
        cases groups? with
        | some g => cases start? <;> exact absurd rfl hleft
        | none =>
          cases start? with
          | some start => exact htidy.elim
          | none =>
            rw [Result.start, Turn.events_map, Work.events_onto, p.templateBoundaries_eq]
            exact p.run_mem_backwardValue (hbackward p rfl) stop
    rcases hstart with ⟨made, hmade, hrole⟩
    refine ⟨[.start], made, ?_, hrole⟩
    simpa [eventsOf, access] using hmade

namespace Bundle

/-- The bundle with a forward automaton that reports an end of a match whatever it scans. -/
def reporting (b : Bundle) (stop : Int) : Bundle where
  toParts :=
    { b.toParts with forward := { b.forward with scan := fun _ _ _ _ => .ok (.offset stop) } }
  sound := b.sound

theorem answer_findForward_reporting (b : Bundle) (input : Input) (origin stop : Int) :
    ((b.reporting stop).findForward input origin).answer =
      .ok ((b.reporting stop).resultFromStop input origin stop) := by
  rw [findForward_eq]
  rfl

/-- Where the forward automaton reports the end of a match, its result runs the backward automaton
exactly if the check would miss it, unless the match is empty and has no groups. -/
theorem runsBackward_reporting (b : Bundle) (hbackward : b.backward.isSome = true) (input : Input)
    (origin stop : Int) :
    ((b.reporting stop).resultFromStop input origin stop).RunsBackward ↔
      b.needsBackward = true ∧ ¬ (b.templates = #[] ∧ b.capture = none ∧ stop = origin) := by
  have hfresh := (b.reporting stop).fresh_resultFromStop input origin stop
  refine (Result.runsBackward_iff hfresh.tidy ?_).trans
    ((b.reporting stop).toFind_resultFromStop input origin stop)
  intro p hp
  rw [hfresh.eq_pending p hp]
  exact hbackward

/-- Let automata, templates and flags fit, a backward automaton among them. Without it the check
refuses them exactly if the forward automaton can report an end of a match from which the search
gives a result that will run the backward automaton. So no search over a bundle that was accepted,
and no access to its result, whatever was asked before, fails for want of an automaton: where that
failure is answered, an automaton that was run has reported it. -/
theorem provided :
    (∀ p : Parts, p.RolesFit → p.backward.isSome = true →
      ∃ b, assemble (some p.forward) p.backward p.capture p.templates p.flags = .ok b ∧
        ((∃ error, assemble (some p.forward) none p.capture p.templates p.flags = .error error) ↔
          ∃ (input : Input) (origin stop : Int) (r : Result),
            0 ≤ origin ∧ origin ≤ stop ∧ stop ≤ input.size ∧
              ((b.reporting stop).findForward input origin).answer = .ok r ∧ r.RunsBackward)) ∧
      ∀ (b : Bundle) (input : Input) (origin : Int) (fault : Fault), fault.WantsAutomaton →
        ((b.find input origin).answer = .error fault →
          Reported fault (b.find input origin).events) ∧
        ∀ r : Result, ((b.find input origin).answer = .ok r ∨
            ∃ m : Matcher, m.bundle = b ∧ (m.search input origin).answer = .ok r) →
          ∀ (questions : List Accessor) (a : Accessor),
            ((r.after questions).access a).answer = .error fault →
              Reported fault ((r.after questions).access a).events := by
  constructor
  · intro p hfit hbackward
    have hsound : p.firstFault = none := by
      rw [p.firstFault_of_rolesFit hfit]
      simp [Option.isNone_eq_false_iff.2 hbackward]
    let b : Bundle := { toParts := p, sound := hsound }
    refine ⟨b, ofParts_of_sound hsound, (assemble_error_iff hfit).trans ?_⟩
    constructor
    · intro hneeds
      -- Any match that is not empty will do.
      refine ⟨#[0], 0, 1, _, by decide, by decide, by decide,
        b.answer_findForward_reporting #[0] 0 1, ?_⟩
      exact (b.runsBackward_reporting hbackward #[0] 0 1).2 ⟨hneeds, by simp⟩
    · rintro ⟨input, origin, stop, r, -, -, -, hr, hruns⟩
      rw [b.answer_findForward_reporting] at hr
      cases hr
      exact ((b.runsBackward_reporting hbackward input origin stop).1 hruns).1
  · intro b input origin fault hwants
    refine ⟨reported_find hwants, ?_⟩
    intro r hsearched questions a herror
    have hequipped : r.Equipped := by
      rcases hsearched with hfind | ⟨m, rfl, hsearch⟩
      · exact equipped_of_find hfind
      · rcases (m.search_cases input origin).find_or_pending?_of_ok hsearch with hfind | hnone
        · exact equipped_of_find hfind
        · simp [Result.Equipped, hnone]
    have hstill : (r.after questions).Equipped :=
      Result.after_preserves (fun hstep h => hstep.equipped h) hequipped questions
    exact hstill.reported_access hwants a herror

end Bundle

/-! ## A backward automaton that reports that it is missing -/

/-- An automaton that fails every scan. -/
def Automaton.failing (fault : Fault) : Automaton where
  anchored := false
  lookbehind := 0
  groupCount := 0
  scan _ _ _ _ := .error fault

/-- Automata of which the backward one fails as if it were not there. -/
def failingBundle (forward : Automaton) : Bundle where
  forward
  backward := some (.failing (.contract .noBackward))
  capture := none
  templates := #[]
  flags := 0
  sound := by simp [Parts.firstFault, Automaton.failing]

theorem failingBundle_rolesFit (forward : Automaton) : (failingBundle forward).RolesFit where
  backward := by
    rintro _ ⟨⟩
    rfl
  capture := by rintro _ ⟨⟩
  templates := by
    intro t ht
    simp [failingBundle] at ht
  agree := by
    intro t ht
    simp [failingBundle] at ht

/-- Without its backward automaton the bundle is refused, so some search will run it, and what that
run reports is the answer to the question that needed it. -/
theorem failingBundle_provided :
    (∃ (b : Bundle) (input : Input) (origin stop : Int) (r : Result),
        ((b.reporting stop).findForward input origin).answer = .ok r ∧ r.RunsBackward) ∧
      Reported (.contract .noBackward)
        ((failingBundle (.failing (.contract .noBackward))).find sampleInput 0).events ∧
      ∃ r, ((failingBundle (.always 0 (.offset 4))).find sampleInput 0).answer = .ok r ∧
        Reported (.contract .noBackward) ((r.after [.stop]).access .start).events := by
  rcases Bundle.provided with ⟨hcheck, hreported⟩
  refine ⟨?_, ?_, ?_⟩
  · let b := failingBundle (.always 0 (.offset 4))
    rcases hcheck b.toParts (failingBundle_rolesFit _) rfl with ⟨b', -, hiff⟩
    have hrefused : ∃ error,
        Bundle.assemble (some b.forward) none b.capture b.templates b.flags = .error error :=
      (Bundle.assemble_error_iff (failingBundle_rolesFit _)).2 (by decide)
    rcases hiff.1 hrefused with ⟨input, origin, stop, r, -, -, -, hr, hruns⟩
    exact ⟨b', input, origin, stop, r, hr, hruns⟩
  · exact (hreported (failingBundle (.failing (.contract .noBackward))) sampleInput 0 _
      .backward).1 rfl
  · have hfind : ((failingBundle (.always 0 (.offset 4))).find sampleInput 0).answer =
        .ok (.lateStart ((failingBundle (.always 0 (.offset 4))).pending sampleInput 0) 4 none) :=
      by rfl
    exact ⟨_, hfind, (hreported _ sampleInput 0 _ .backward).2 _ (.inl hfind) [.stop] .start rfl⟩

end LazyMatch
