import LazyMatch.Proofs.Find.Range

/-!
# Matches that are to start where the search began

A sticky pattern, or a forward automaton whose matches touch the edge, is to match only where the
search began. Searches forward see to it: they take the position at which they began for the start.
A search that runs the backward automaton from the end of the input does not look at either; it
takes the position that this automaton reports. So there the start is the right one exactly if the
backward run has come all the way (`Bundle.start_eq_origin_iff`).
-/

namespace LazyMatch

namespace Bundle

variable {b : Bundle} {input : Input} {origin stop value : Int} {r : Result}

/-- From the end that the forward automaton found, the start is where the search began. -/
theorem start?_resultFromStop (hnone : b.templates = #[]) (hzero : b.forward.lookbehind = 0)
    (hedge : b.sticky = true ∨ b.forward.anchored = true) :
    (b.resultFromStop input origin stop).start? = some origin := by
  have hedge' : (b.forward.anchored || b.sticky) = true := Bool.or_eq_true _ _ ▸ hedge.symm
  have hstarts : b.startsAtOrigin = true := by
    simpa [Parts.startsAtOrigin, hzero] using hedge'
  rw [resultFromStop_of_empty hnone, if_pos hedge', if_pos hstarts]
  split
  · split
    · next hstop => exact congrArg some hstop
    · rfl
  · rfl

/-- From the value of a backward run, the start is one after it. -/
theorem start?_of_resultFromValue (hnone : b.templates = #[])
    (hr : b.resultFromValue input origin value = .ok r) : r.start? = some (value + 1) := by
  rw [resultFromValue_of_empty hnone] at hr
  cases hr
  split <;> rfl

/-- Without templates and lookbehind, the search of a pattern that is sticky, or whose forward
automaton reports matches at the edge only, succeeds. Every match that it finds answers with its
start at any time, and never with one before `origin`. The start is `origin` exactly if there is no
backward automaton whose matches touch the end of the input, or the run of that automaton back from
there ends at `origin`. -/
theorem start_eq_origin_iff (hb : b.OfTables) (hnone : b.templates = #[])
    (hzero : b.forward.lookbehind = 0) (hedge : b.sticky = true ∨ b.forward.anchored = true)
    (hin : Inside input origin) :
    ∃ r, (b.find input origin).answer = .ok r ∧
      (r.found = true → ∀ questions : List Accessor, ∃ start,
        ((r.after questions).access .start).answer = .ok start ∧ origin ≤ start ∧
          (start = origin ↔ ∀ backward ∈ b.backward, backward.anchored = true →
            backward.scan input 0 (input.size - 1) (origin - 1) = .ok (.offset (origin - 1)))) := by
  have hfloor := floor_of_lookbehind_eq_zero hzero hin
  have hrouted := hb.find_routed hin
  generalize (b.find input origin).answer = answer at hrouted ⊢
  -- Of the two routes that find a match, only the second one leaves the start to a run.
  cases hrouted with
  | noStop => exact ⟨_, rfl, nofun⟩
  | @stop stop hroute hscan hbetween =>
    refine ⟨_, rfl, fun _ questions => ⟨origin, ?_, Int.le_refl _, fun _ => ?_, fun _ => rfl⟩⟩
    · exact Result.answer_start_after (start?_resultFromStop hnone hzero hedge) questions
    · intro backward hsome hanchored
      cases hanchored.symm.trans (hroute backward hsome)
  | noValue => exact ⟨_, rfl, nofun⟩
  | @value backward value hsome hroute hscan hbetween =>
    have hr : b.resultFromValue input origin value = .ok _ := resultFromValue_of_empty hnone value
    refine ⟨_, hr, fun _ questions => ⟨value + 1, ?_, ?_, ?_⟩⟩
    · exact Result.answer_start_after (start?_of_resultFromValue hnone hr) questions
    · have hlow := (hbetween (by simp [hnone])).1
      omega
    · rw [hfloor] at hscan
      constructor
      · intro hstart backward' hsome' _
        cases hsome.symm.trans hsome'
        have hvalue : value = origin - 1 := by omega
        rw [hscan, hvalue]
      · intro hscan'
        cases hscan.symm.trans (hscan' backward hsome hroute)
        omega

end Bundle

/-! ## One byte at the end of the input -/

/-- Automata for a sticky pattern that finds one byte at the end of the input. -/
def stickyBundle : Bundle where
  forward := oneByte .forward false
  backward := some (oneByte .backward true)
  capture := none
  templates := #[]
  flags := stickyFlag
  sound := by simp [Parts.firstFault, oneByte, Dfa.toAutomaton]

theorem stickyBundle_ofTables : stickyBundle.OfTables where
  forward := oneByte_plain .forward false
  backward := by
    rintro _ ⟨⟩
    exact ⟨false, oneByte_plain .backward true, fun _ => rfl⟩

/-- Of two bytes the last one is found, though the search began at the first. -/
theorem stickyBundle_start_ne_origin :
    ∃ r start, (stickyBundle.find #[120, 97] 0).answer = .ok r ∧ r.found = true ∧
      r.start.answer = .ok start ∧ 0 ≤ start ∧ start ≠ 0 := by
  have hscan : (oneByte .backward true).scan #[120, 97] 0 ((#[120, 97] : Input).size - 1)
      (stickyBundle.pending #[120, 97] 0).floor = .ok (.offset 0) :=
    oneByte_scan ⟨by decide, by decide, by decide⟩ (by decide)
  have hfound : (stickyBundle.find #[120, 97] 0).answer = .ok (.single 1 2) := by
    rw [show stickyBundle.find #[120, 97] 0 =
      stickyBundle.findBackward (oneByte .backward true) #[120, 97] 0 from rfl,
      Bundle.findBackward_eq, hscan]
    rfl
  have hin : Inside #[120, 97] 0 := ⟨by decide, by decide⟩
  rcases Bundle.start_eq_origin_iff stickyBundle_ofTables rfl rfl (.inl (by decide)) hin
    with ⟨r, hr, hstart⟩
  cases hfound.symm.trans hr
  rcases hstart rfl [] with ⟨start, hanswer, hlow, hiff⟩
  refine ⟨_, start, hfound, rfl, hanswer, hlow, fun hzero => ?_⟩
  cases hscan.symm.trans (hiff.1 hzero _ rfl rfl)

end LazyMatch
