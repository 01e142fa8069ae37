import LazyMatch.Proofs.Find.Provision
import LazyMatch.Proofs.Scan.Dfa
import LazyMatch.Proofs.Scan.Width
import LazyMatch.Tuning.Overrides

/-!
# Where searches scan

The stretches that automata are given are computed in three places: by the search, from where it
began; by the scan for the start, from the end of the match; and by the scan for the groups, from
what the other two have found. If the automata that find positions are laid out from tables, then
all these stretches lie in the input, whatever is asked and in whatever order
(`Bundle.OfTables.runs_fit`). What carries this is that the known part of a match stays placed in
the input (`Bundle.Placed`) while the result learns the rest.
-/

namespace LazyMatch

/-- Which way automata scan in a role. -/
def Role.direction : Role → Direction
  | .forward => .forward
  | .backward => .backward
  | .capture => .forward
  | .eager => .forward

/-- The run was given a stretch of the input, in the direction of its role. -/
def Run.Fits (made : Run) (input : Input) : Prop :=
  made.role.direction.Fits input.size made.start made.limit

def Fitting (input : Input) (events : List Event) : Prop :=
  ∀ made, Event.run made ∈ events → made.Fits input

/-- A backward scan from the end of a match down to its floor stays in the input. -/
theorem fits_scanFloor {length : Nat} {origin stop : Int} (hlow : 0 ≤ origin)
    (hordered : origin ≤ stop) (hhigh : stop ≤ length) (lookbehind : UInt32) :
    Direction.backward.Fits length (stop - 1) (scanFloor origin lookbehind) := by
  unfold scanFloor
  refine ⟨?_, ?_, ?_⟩ <;> omega

namespace Bundle

/-- The automata that find the ends of matches are laid out from tables. The backward automaton
reports positions unless it has templates to tell apart. -/
structure OfTables (b : Bundle) : Prop where
  forward : b.forward.Plain .forward false
  backward : ∀ backward ∈ b.backward, ∃ reporting,
    backward.Plain .backward reporting ∧ (b.templates.size ≤ 1 → reporting = false)

/-! ## Matches in their place -/

/-- A match that ends at `stop`, and of which the start may be known, lies where a search from
`origin` can find it. -/
structure Placing (b : Bundle) (input : Input) (origin : Int) (start? : Option Int) (stop : Int) :
    Prop where
  reached : origin ≤ stop
  inside : stop ≤ input.size
  start : ∀ start ∈ start?, b.floor origin < start ∧ start ≤ stop

/-- What the search knows of the match is placed in the input. -/
inductive Placed (b : Bundle) (input : Input) (origin : Int) : Result → Prop
  | noMatch : Placed b input origin .noMatch
  /-- Templates leave nothing to scan for, once there is a single one or it is known which. -/
  | template {r : Result} (hsome : b.templates ≠ #[]) (hknown : r.pending? = none) :
      Placed b input origin r
  | single {start stop : Int} (h : b.Placing input origin (some start) stop) :
      Placed b input origin (.single start stop)
  | lateStart {start? : Option Int} {stop : Int} (hnone : b.templates = #[])
      (h : b.Placing input origin start? stop) :
      Placed b input origin (.lateStart (b.pending input origin) stop start?)
  | lateGroups {start? : Option Int} {stop : Int} {groups? : Option (Array Int)}
      (hnone : b.templates = #[]) (h : b.Placing input origin start? stop) :
      Placed b input origin (.lateGroups (b.pending input origin) stop start? groups?)
  | lateTemplate {start? : Option Int} {stop : Int} {groups? : Option (Array Int)}
      (hsome : b.templates ≠ #[]) (h : b.Placing input origin none stop) :
      Placed b input origin (.lateTemplate (b.pending input origin) stop start? groups?)

/-- What the search answers, by the route that it takes and what the automaton reports. -/
inductive Routed (b : Bundle) (input : Input) (origin : Int) : Except Fault Result → Prop
  | noStop (hroute : ∀ backward ∈ b.backward, backward.anchored = false)
      (hscan : b.forward.scan input origin origin input.size = .ok .noMatch) :
      Routed b input origin (.ok .noMatch)
  | stop {stop : Int} (hroute : ∀ backward ∈ b.backward, backward.anchored = false)
      (hscan : b.forward.scan input origin origin input.size = .ok (.offset stop))
      (hbetween : Direction.forward.Between origin input.size stop) :
      Routed b input origin (.ok (b.resultFromStop input origin stop))
  | noValue {backward : Automaton} (hb : b.backward = some backward)
      (hroute : backward.anchored = true)
      (hscan : backward.scan input 0 (input.size - 1) (b.floor origin) = .ok .noMatch) :
      Routed b input origin (.ok .noMatch)
  | value {backward : Automaton} {value : Int} (hb : b.backward = some backward)
      (hroute : backward.anchored = true)
      (hscan : backward.scan input 0 (input.size - 1) (b.floor origin) = .ok (.offset value))
      (hbetween : b.templates.size ≤ 1 →
        Direction.backward.Between (input.size - 1) (b.floor origin) value) :
      Routed b input origin (b.resultFromValue input origin value)

variable {b : Bundle} {input : Input} {origin start stop : Int} {start? : Option Int}
  {r r' : Result}

theorem floor_lt_iff : b.floor origin < start ↔
    max 0 (origin - b.forward.lookbehind.toNat) ≤ start := by
  unfold floor scanFloor
  omega

theorem floor_lt_origin (hin : Inside input origin) : b.floor origin < origin := by
  have hlow := hin.1
  unfold floor scanFloor
  omega

theorem floor_of_lookbehind_eq_zero (hzero : b.forward.lookbehind = 0) (hin : Inside input origin) :
    b.floor origin = origin - 1 := by
  have hlow := hin.1
  rw [floor, scanFloor, hzero, UInt32.toNat_zero]
  omega

namespace Placing

theorem of_origin (hin : Inside input origin) (h : b.Placing input origin none stop) :
    b.Placing input origin (some origin) stop := by
  refine ⟨h.reached, h.inside, ?_⟩
  rintro _ ⟨⟩
  exact ⟨floor_lt_origin hin, h.reached⟩

/-- A backward scan from the end of the match stays in the input. -/
theorem fits_backward (h : b.Placing input origin start? stop) (hin : Inside input origin) :
    Direction.backward.Fits input.size (stop - 1) (b.floor origin) :=
  fits_scanFloor hin.1 h.reached h.inside b.forward.lookbehind

/-- A scan between the ends of the match stays in the input. -/
theorem fits_forward (h : b.Placing input origin (some start) stop) :
    Direction.forward.Fits input.size start stop := by
  rcases h.start start rfl with ⟨hlow, hordered⟩
  have hzero := floor_lt_iff.1 hlow
  refine ⟨?_, hordered, h.inside⟩
  omega

/-- A backward scan from the end of the match stops one position before a start. -/
theorem of_between (h : b.Placing input origin none stop) {value : Int}
    (hbetween : Direction.backward.Between (stop - 1) (b.floor origin) value) :
    b.Placing input origin (some (value + 1)) stop := by
  refine ⟨h.reached, h.inside, ?_⟩
  rintro _ ⟨⟩
  rcases hbetween with ⟨hlow, hhigh⟩
  constructor <;> omega

/-- The match may end with the input. -/
theorem of_inside (b : Bundle) (hin : Inside input origin) :
    b.Placing input origin none input.size :=
  ⟨hin.2, Int.le_refl _, nofun⟩

end Placing

namespace OfTables

/-- A backward scan from the end of a match finds nothing, or reports a position on its way, or the
number of a template. -/
theorem scan_backward (hb : b.OfTables) (hin : Inside input origin)
    (h : b.Placing input origin start? stop) {backward : Automaton}
    (hsome : b.backward = some backward) :
    backward.scan input 0 (stop - 1) (b.floor origin) = .ok .noMatch ∨
      ∃ value, backward.scan input 0 (stop - 1) (b.floor origin) = .ok (.offset value) ∧
        (b.templates.size ≤ 1 →
          Direction.backward.Between (stop - 1) (b.floor origin) value) := by
  rcases hb.backward backward hsome with ⟨reporting, hplain, hfew⟩
  rcases hplain.scan_cases (h.fits_backward hin) with hnone | ⟨value, hvalue, hbetween⟩
  · exact .inl hnone
  · exact .inr ⟨value, hvalue, fun hsize => hbetween (hfew hsize)⟩

theorem placing_of_locateStart (hb : b.OfTables) (hin : Inside input origin)
    (h : b.Placing input origin none stop) (hnone : b.templates = #[])
    (hstart : ((b.pending input origin).locateStart stop).answer = .ok start) :
    b.Placing input origin (some start) stop := by
  have hvalue := Pending.backwardValue_of_locateStart hstart
  rcases Pending.exists_scan_of_backwardValue hvalue
    with ⟨backward, outcome, hsome, hscan, hfound, hstop⟩
  rcases hb.scan_backward hin h hsome with hscan' | ⟨value, hscan', hbetween⟩
  · cases hscan.symm.trans hscan'
    cases hfound
  · cases hscan.symm.trans hscan'
    have hplacing := h.of_between (hbetween (by simp [hnone]))
    rwa [show value = start - 1 from hstop, Int.sub_add_cancel] at hplacing

end OfTables

namespace Placed

/-- What a result learns is placed like the rest of it. -/
theorem finds (h : b.Placed input origin r) (hb : b.OfTables) (hin : Inside input origin)
    (hfinds : Result.Finds r r') : b.Placed input origin r' := by
  cases hfinds with
  | start hstart =>
    cases h with
    | template hsome hknown => cases hknown
    | lateStart hnone h => exact .lateStart hnone (hb.placing_of_locateStart hin h hnone hstart)
  | startOfGroups hstart =>
    cases h with
    | template hsome hknown => cases hknown
    | lateGroups hnone h => exact .lateGroups hnone (hb.placing_of_locateStart hin h hnone hstart)
  | groups =>
    cases h with
    | template hsome hknown => cases hknown
    | lateGroups hnone h => exact .lateGroups hnone h
  | template =>
    cases h with
    | template hsome hknown => cases hknown
    | lateTemplate hsome h => exact .lateTemplate hsome h
  | startOfTemplate =>
    cases h with
    | template hsome hknown => cases hknown
    | lateTemplate hsome h => exact .lateTemplate hsome h

/-- From its place in the input, a match is only scanned for inside the input. -/
theorem fits (h : b.Placed input origin r) (hin : Inside input origin) {made : Run}
    (hscans : r.Scans made) : made.Fits input := by
  cases hscans with
  | backward hpending hstop hleft hsome =>
    cases h with
    | noMatch => cases hpending
    | template hsome' hknown => cases hknown.symm.trans hpending
    | single => cases hpending
    | lateStart hnone h =>
      cases hpending
      cases hstop
      exact h.fits_backward hin
    | lateGroups hnone h =>
      cases hpending
      cases hstop
      exact h.fits_backward hin
    | lateTemplate hsome' h =>
      cases hpending
      cases hstop
      exact h.fits_backward hin
  | groups hpending hstart hstop hleft hsome =>
    cases h with
    | noMatch => cases hpending
    | template hsome' hknown => cases hknown.symm.trans hpending
    | single => cases hpending
    -- Where only the start or the template is pending, no groups are left to scan for.
    | @lateStart start? => exact absurd (by cases start? <;> rfl) hleft
    | lateGroups hnone h =>
      cases hpending
      cases hstart
      cases hstop
      exact h.fits_forward
    | @lateTemplate start? stop groups? =>
      exact absurd (by cases start? <;> cases groups? <;> rfl) hleft

end Placed

/-! ## The results of searches -/

theorem placed_resultFromStart {t : Template} (ht : t ∈ b.templates) (start : Int) :
    b.Placed input origin (t.resultFromStart start) :=
  .template (Array.ne_empty_of_mem ht) (t.pending?_resultFromStart start)

theorem placed_resultFromStop (hin : Inside input origin) (h : b.Placing input origin none stop) :
    b.Placed input origin (b.resultFromStop input origin stop) := by
  rcases b.resultFromStop_cases input origin stop with ⟨t, ht, start, hr⟩ | ⟨hsome, hr⟩ | hnone
  · rw [hr]
    exact placed_resultFromStart ht start
  · rw [hr]
    exact .lateTemplate hsome h
  · rw [resultFromStop_of_empty hnone]
    split
    · split
      · next hstop =>
        subst hstop
        exact .single (h.of_origin hin)
      · split
        · exact .single (h.of_origin hin)
        · exact .lateStart hnone h
    · split
      · exact .lateGroups hnone (h.of_origin hin)
      · exact .lateGroups hnone h

theorem placed_of_resultFromValue {value : Int}
    (h : b.templates = #[] → b.Placing input origin (some (value + 1)) input.size)
    (hr : b.resultFromValue input origin value = .ok r) : b.Placed input origin r := by
  rcases resultFromValue_cases hr with ⟨t, ht, start, rfl⟩ | ⟨hnone, rfl⟩
  · exact placed_resultFromStart ht start
  · split
    · exact .lateGroups hnone (h hnone)
    · exact .single (h hnone)

theorem OfTables.find_routed (hb : b.OfTables) (hin : Inside input origin) :
    b.Routed input origin (b.find input origin).answer := by
  rcases b.find_route input origin with ⟨backward, hsome, hroute, hfind⟩ | ⟨hroute, hfind⟩
  · rw [hfind, findBackward_eq]
    rcases hb.scan_backward hin (.of_inside b hin) hsome with hscan | ⟨value, hscan, hbetween⟩
    · rw [show (b.pending input origin).floor = b.floor origin from rfl, hscan]
      exact .noValue hsome hroute hscan
    · rw [show (b.pending input origin).floor = b.floor origin from rfl, hscan]
      exact .value hsome hroute hscan hbetween
  · rw [hfind, findForward_eq]
    rcases hb.forward.scan_cases ⟨hin.1, hin.2, Int.le_refl _⟩
      with hscan | ⟨stop, hscan, hbetween⟩
    · rw [hscan]
      exact .noStop hroute hscan
    · rw [hscan]
      exact .stop hroute hscan (hbetween rfl)

theorem OfTables.placed_of_find (hb : b.OfTables) (hin : Inside input origin)
    (hr : (b.find input origin).answer = .ok r) : b.Placed input origin r := by
  have hrouted := hb.find_routed hin
  generalize (b.find input origin).answer = answer at hrouted hr
  cases hrouted with
  | noStop =>
    cases hr
    exact .noMatch
  | stop _ _ hbetween =>
    cases hr
    exact placed_resultFromStop hin ⟨hbetween.1, hbetween.2, nofun⟩
  | noValue =>
    cases hr
    exact .noMatch
  | value _ _ _ hbetween =>
    exact placed_of_resultFromValue
      (fun hnone => (Placing.of_inside b hin).of_between (hbetween (by simp [hnone]))) hr

/-- The run of a search is given a stretch of the input. -/
theorem fitting_find (b : Bundle) (hin : Inside input origin) :
    Fitting input (b.find input origin).events := by
  rcases b.find_route input origin with ⟨backward, -, -, hfind⟩ | ⟨-, hfind⟩
  · rw [hfind, findBackward_eq]
    intro made hmade
    cases List.mem_singleton.1 hmade
    exact (Placing.of_inside b hin).fits_backward hin
  · rw [hfind, findForward_eq]
    intro made hmade
    cases List.mem_singleton.1 hmade
    exact ⟨hin.1, hin.2, Int.le_refl _⟩

namespace Placed

/-- Without templates all that is known of a match is its place. -/
theorem placing (h : b.Placed input origin r) (hnone : b.templates = #[])
    (hfound : r.found = true) :
    ∃ stop, r.stop? = some stop ∧ b.Placing input origin r.start? stop := by
  cases h with
  | noMatch => cases hfound
  | template hsome => exact absurd hnone hsome
  | single h => exact ⟨_, rfl, h⟩
  | lateStart _ h => exact ⟨_, rfl, h⟩
  | lateGroups _ h => exact ⟨_, rfl, h⟩
  | lateTemplate hsome => exact absurd hnone hsome

/-- Without templates a match answers with its place. -/
theorem answer_placing (h : b.Placed input origin r) (hb : b.OfTables) (hin : Inside input origin)
    (hnone : b.templates = #[]) (hfound : r.found = true) :
    ∃ stop, r.stop.answer = .ok stop ∧ origin ≤ stop ∧ stop ≤ input.size ∧
      ∀ start, r.start.answer = .ok start →
        max 0 (origin - b.forward.lookbehind.toNat) ≤ start ∧ start ≤ stop := by
  rcases h.placing hnone hfound with ⟨stop, hstop, hplacing⟩
  refine ⟨stop, ?_, hplacing.reached, hplacing.inside, ?_⟩
  · rw [Result.stop, hstop]
    rfl
  · intro start hstart
    -- The result that has told its start is placed as well, and ends where it did.
    have hlater : b.Placed input origin r.start.next :=
      Result.finds_preserves (fun hstep h => h.finds hb hin hstep) h r.start_finds
    have hstop' : r.start.next.stop? = some stop :=
      Result.finds_preserves (P := fun r' => r'.stop? = some stop)
        (fun hstep h => hstep.stop?_eq.trans h) hstop r.start_finds
    have hfound' : r.start.next.found = true := by
      rw [Result.found_eq_isSome, hstop', Option.isSome_some]
    rcases hlater.placing hnone hfound' with ⟨stop', hsame, hplacing'⟩
    cases hstop'.symm.trans hsame
    rcases hplacing'.start start (Result.start?_of_answer_start hstart) with ⟨hlow, hordered⟩
    exact ⟨floor_lt_iff.1 hlow, hordered⟩

end Placed

/-! ## Everything that is scanned -/

/-- Where the automata that find positions are laid out from tables, every run that a search makes,
on demand or at once, and every run that questions to its result cause, whatever they are and in
whatever order, is given a stretch of the input: forward from a position to a later one, backward
from a byte down to a position that may lie before the first. Without templates, a match that is
found on demand ends where the search began or later, in the input, and wherever its start is
answered, it lies between the first position that the lookbehind allows and the end. -/
theorem OfTables.runs_fit {b : Bundle} (hb : b.OfTables) (m : Matcher) (hm : m.bundle = b)
    (input : Input) (origin : Int) :
    Fitting input (m.search input origin).events ∧
      ∀ r, (m.search input origin).answer = .ok r → ∀ questions : List Accessor,
        Fitting input (r.eventsOf questions) ∧
          (m.OnDemand → b.templates = #[] → r.found = true →
            ∃ stop, ((r.after questions).access .stop).answer = .ok stop ∧ origin ≤ stop ∧
              stop ≤ input.size ∧
                ∀ start, ((r.after questions).access .start).answer = .ok start →
                  max 0 (origin - b.forward.lookbehind.toNat) ≤ start ∧ start ≤ stop) := by
  subst hm
  have hsearched := m.search_cases input origin
  constructor
  -- Whichever strategy is in use, a search in the input begins its run at `origin`.
  · intro made hmade
    rcases hsearched.run_mem hmade with ⟨hin, hmade | ⟨a, -, hmade⟩⟩
    · exact m.bundle.fitting_find hin made hmade
    · rw [a.events_find] at hmade
      cases List.mem_singleton.1 hmade
      exact ⟨hin.1, hin.2, Int.le_refl _⟩
  · intro r hr questions
    have hin := hsearched.inside_of_ok hr
    refine ⟨?_, ?_⟩
    · intro made hmade
      -- A result made on demand is in its place, and one made at once has left nothing pending.
      rcases hsearched.find_or_pending?_of_ok hr with hfind | hnone
      · rcases Result.exists_scans_of_preserves (fun hstep h => h.finds hb hin hstep)
          (hb.placed_of_find hin hfind) hmade with ⟨later, hplaced, hscans⟩
        exact hplaced.fits hin hscans
      · rcases Result.exists_scans_of_preserves (P := fun r => r.pending? = none)
          (fun hstep h => hstep.pending?_eq.trans h) hnone hmade with ⟨later, hnone, hscans⟩
        cases hscans with
        | backward hpending => cases hnone.symm.trans hpending
        | groups hpending => cases hnone.symm.trans hpending
    · intro hstrategy hnone hfound
      have hplaced := hb.placed_of_find hin (hsearched.find_of_onDemand hstrategy hr)
      have hlater := Result.after_preserves (fun hstep h => h.finds hb hin hstep) hplaced questions
      have hfound' := Result.after_preserves (P := fun r => r.found = true)
        (fun hstep h => hstep.found_eq.trans h) hfound questions
      exact hlater.answer_placing hb hin hnone hfound'

end Bundle

/-! ## One byte at a time -/

/-- Automata that find one byte, its start, and one group around it. -/
def oneByteBundle : Bundle where
  forward := oneByte .forward false
  backward := some (oneByte .backward false)
  capture := some (.always 2 (.groups #[1, 2, 1, 2]))
  templates := #[]
  flags := 0
  sound := by simp [Parts.firstFault, Automaton.always, oneByte, Dfa.toAutomaton]

theorem oneByteBundle_ofTables : oneByteBundle.OfTables where
  forward := oneByte_plain .forward false
  backward := by
    rintro _ ⟨⟩
    exact ⟨false, oneByte_plain .backward false, fun _ => rfl⟩

theorem oneByteBundle_find {input : Input} {origin : Int} (hlow : 0 ≤ origin)
    (hhigh : origin < input.size) :
    (oneByteBundle.find input origin).answer =
      .ok (.lateGroups (oneByteBundle.pending input origin) (origin + 1) none none) := by
  have hscan : oneByteBundle.forward.scan input origin origin input.size =
      .ok (.offset (origin + 1)) :=
    oneByte_scan ⟨hlow, Int.le_of_lt hhigh, Int.le_refl _⟩ (Int.ne_of_lt hhigh)
  rw [show oneByteBundle.find input origin = oneByteBundle.findForward input origin from rfl,
    Bundle.findForward_eq, hscan]
  rfl

/-- The last byte of the sample input is found by a run over it, and its start by a run back. -/
theorem oneByteBundle_runs_fit :
    ∃ (m : Matcher) (r : Result) (made : Run), (m.search sampleInput 3).answer = .ok r ∧
      Fitting sampleInput (m.search sampleInput 3).events ∧
      Event.run made ∈ r.eventsOf [.start] ∧ made.Fits sampleInput ∧
      ((r.after []).access .start).answer = .ok 3 ∧
      ∃ stop, ((r.after []).access .stop).answer = .ok stop ∧ 3 ≤ stop ∧
        stop ≤ sampleInput.size := by
  let m := Matcher.new { text := ".", flags := 0 } oneByteBundle none .default
  let p := oneByteBundle.pending sampleInput 3
  let r : Result := .lateGroups p 4 none none
  have hstrategy : m.OnDemand := nofun
  have hsearch : (m.search sampleInput 3).answer = .ok r := by
    refine Matcher.answer_of_not_escapes ⟨by decide, by decide⟩ hstrategy
      (oneByteBundle_find (by decide) (by decide)) ?_
    rintro fault ⟨-, -, hfault⟩
    cases hfault
  have hscan : (oneByte .backward false).scan sampleInput 0 3 2 = .ok (.offset 2) :=
    oneByte_scan ⟨by decide, by decide, by decide⟩ (by decide)
  have hstart : (p.locateStart 4).answer = .ok 3 := Pending.answer_locateStart rfl hscan
  have hmade : Event.run ⟨.backward, 0, 3, 2, .ok (.offset 2)⟩ ∈ r.eventsOf [.start] := by
    rw [Result.eventsOf, Result.access, Result.start, Work.events_onto, p.locateStart_eq,
      p.backwardValue_eq rfl]
    exact List.mem_append_left _ (List.mem_singleton.2 (congrArg _ (congrArg _ hscan.symm)))
  rcases oneByteBundle_ofTables.runs_fit m rfl sampleInput 3 with ⟨hfits, hresult⟩
  rcases hresult r hsearch [] with ⟨-, hplaced⟩
  rcases hplaced hstrategy rfl rfl with ⟨stop, hstop, hreached, hinside, -⟩
  exact ⟨m, r, _, hsearch, hfits, hmade, (hresult r hsearch [.start]).1 _ hmade,
    (Work.answer_onto _ _ _).trans hstart, stop, hstop, hreached, hinside⟩

/-- Finds groups at once without ever setting a register. -/
def blankTagged : TaggedDfa :=
  .layOut (emptyMatchTable 1) ⟨.forward, false, 0, false⟩

/-- A match that is found at once may lie outside the input: the automaton that the matcher has
taken after its second search passes its checks, and accepts without setting a register. -/
theorem blankTagged_matches_outside :
    ∃ (m : Matcher) (r : Result),
      TaggedDfa.ofTable (emptyMatchTable 1) ⟨.forward, false, 0, false⟩ = .ok blankTagged ∧
      m.bundle.OfTables ∧ m.bundle.templates = #[] ∧ m.strategy = .onDemand ∧
      ((m.search #[120] 0).next.search #[120] 0).next.strategy = .atOnce blankTagged.toAutomaton ∧
      (((m.search #[120] 0).next.search #[120] 0).next.search #[120] 0).answer = .ok r ∧
      r.found = true ∧ (r.access .start).answer = .ok (-1) ∧
      (r.access .stop).answer = .ok (-1) := by
  let compiler : Compiler :=
    { compile := fun _ => .ok (some oneByteBundle)
      compileEager := fun _ => .ok (some blankTagged.toAutomaton) }
  let m := Matcher.new { text := ".", flags := 0 } oneByteBundle (some compiler)
    (Overrides.atOnceEarly .default)
  let p := oneByteBundle.pending #[120] 0
  let u := Usage.none.countSearch true
  have ha : TaggedDfa.ofTable (emptyMatchTable 1) ⟨.forward, false, 0, false⟩ = .ok blankTagged :=
    TaggedDfa.ofTable_of_sound (emptyMatchTable_sound (by decide)) (by decide)
  have hin : Inside #[120] 0 := ⟨by decide, by decide⟩
  have hfind : (oneByteBundle.find #[120] 0).answer = .ok (.lateGroups p 1 none none) :=
    oneByteBundle_find (by decide) (by decide)
  -- The first search only counts, and the second one is due.
  have hfirst : (m.search #[120] 0).next = { m with usage := u } :=
    congrArg Turn.next (m.search_of_not_due hin hfind ⟨rfl, rfl⟩ fun hdue => nomatch hdue.1)
  have hgroups : blankTagged.toAutomaton.groupCount ≠ 0 := by decide
  have hsecond : ((m.search #[120] 0).next.search #[120] 0).next.strategy =
      .atOnce blankTagged.toAutomaton := by
    rw [hfirst, Matcher.search_of_change hin hfind ⟨rfl, rfl⟩ ⟨by decide, by decide⟩ rfl]
    exact Matcher.strategyWith_eq_atOnce_iff.2 ⟨rfl, hgroups⟩
  have hscan : blankTagged.scan #[120] 0 1 = .ok (.groups #[-1, -1]) :=
    (TaggedDfa.scan_eq ha ⟨by decide, by decide, by decide⟩).trans rfl
  have hrun : (blankTagged.toAutomaton.run .eager #[120] 0 0 1).answer =
      .ok (.groups #[-1, -1]) := hscan
  have hthird : (blankTagged.toAutomaton.find #[120] 0).answer = .ok (.groups #[-1, -1]) :=
    congrArg Work.answer (Work.bind_of_ok hrun _)
  refine ⟨m, .groups #[-1, -1], ha, oneByteBundle_ofTables, rfl, rfl, hsecond, ?_, rfl, rfl, rfl⟩
  rw [Matcher.search_atOnce hin hsecond, hthird]

end LazyMatch
