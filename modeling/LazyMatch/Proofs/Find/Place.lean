import LazyMatch.Proofs.Find.Origin

/-!
# Asking for groups does not move the match

Without an automaton for the groups, a search takes an empty match to start where it ends, and looks
at nothing but the flags of the pattern and its forward automaton for the start of any other. With
one it goes by a rule of its own, and may leave to the backward automaton what the other search
knows at once. Two bundles that differ in this automaton alone nevertheless find matches in the same
places (`Bundle.place_eq_of_capture`).
-/

namespace LazyMatch

namespace Result

variable {r r' : Result} {origin start start' : Int}

/-- Both match or neither does, and both matches are in one place. Only of an empty match the second
result may fail to find the start, if the backward automaton rejects it. -/
structure SamePlace (origin : Int) (r r' : Result) : Prop where
  found : r.found = r'.found
  stop : r.stop.answer = r'.stop.answer
  start : r.start.answer = r'.start.answer ∨
    r.start.answer = .ok origin ∧ r.stop.answer = .ok origin ∧
      r'.start.answer = .error (.contract .backwardRejected)

theorem SamePlace.refl (r : Result) : SamePlace origin r r := ⟨rfl, rfl, .inl rfl⟩

/-- Two matches with one end, of which both starts are known, are in one place if these are. -/
theorem SamePlace.of_start? {stop : Int} (hstop : r.stop? = some stop) (hstop' : r'.stop? = some stop)
    (hstart : r.start? = some start) (hstart' : r'.start? = some start) :
    SamePlace origin r r' where
  found := by simp [found_eq_isSome, hstop, hstop']
  stop := answer_stop_eq_of_stop? (hstop.trans hstop'.symm)
  start := .inl ((answer_start_of_start? hstart).trans (answer_start_of_start? hstart').symm)

theorem SamePlace.start_eq (h : SamePlace origin r r') (hstart : r.start.answer = .ok start)
    (hstart' : r'.start.answer = .ok start') : start = start' := by
  rcases h.start with hsame | ⟨-, -, hrejected⟩
  · have hanswers : Except.ok start = (Except.ok start' : Except Fault Int) := by
      calc
        Except.ok start = r.start.answer := hstart.symm
        _ = r'.start.answer := hsame
        _ = .ok start' := hstart'
    simpa using hanswers
  · simp [hrejected] at hstart'

/-- Questions to either of them do not move the matches. -/
theorem SamePlace.after (h : SamePlace origin r r') (questions questions' : List Accessor) :
    SamePlace origin (r.after questions) (r'.after questions') where
  found := by simp [found_after, h.found]
  stop := by
    have hstop := r.access_stop_after questions
    have hstop' := r'.access_stop_after questions'
    exact hstop.trans (h.stop.trans hstop'.symm)
  start := by
    have hstart : (r.after questions).start.answer = r.start.answer :=
      r.access_start_after questions
    have hstart' : (r'.after questions').start.answer = r'.start.answer :=
      r'.access_start_after questions'
    have hstop : (r.after questions).stop.answer = r.stop.answer := r.access_stop_after questions
    simpa [hstart, hstart', hstop] using h.start

end Result

namespace Bundle

variable {b b' : Bundle} {capture : Automaton} {input : Input} {origin stop value : Int}

/-! ## The start of an empty match -/

/-- A backward automaton that is run back from where the search began, without lookbehind, can only
report that it has not moved. -/
theorem OfTables.answer_locateStart_origin (hb : b.OfTables) (hnone : b.templates = #[])
    (hzero : b.forward.lookbehind = 0) (hneeds : b.needsBackward = true)
    (hin : Inside input origin) :
    ((b.pending input origin).locateStart origin).answer = .ok origin ∨
      ((b.pending input origin).locateStart origin).answer =
        .error (.contract .backwardRejected) := by
  rcases b.exists_backward hneeds with ⟨backward, hsome⟩
  have hplacing : b.Placing input origin none origin := ⟨Int.le_refl _, hin.2, nofun⟩
  rcases hb.scan_backward hin hplacing hsome with hscan | ⟨value, hscan, hbetween⟩
  · exact .inr (Pending.answer_locateStart_of_noMatch hsome hscan)
  · have hvalue : value = origin - 1 := by
      rcases hbetween (by simp [hnone]) with ⟨hlow, hhigh⟩
      rw [floor_of_lookbehind_eq_zero hzero hin] at hlow
      exact Int.le_antisymm hhigh hlow
    subst hvalue
    exact .inl (Pending.answer_locateStart hsome hscan)

/-! ## The results of both searches -/

/-- From the end that the forward automaton found, both searches place the match alike. -/
theorem samePlace_resultFromStop (hb' : b'.OfTables) (hnone : b.templates = #[])
    (hzero : b.forward.lookbehind = 0) (hplain : b.capture = none)
    (hparts : b'.toParts = { b.toParts with capture := some capture }) (hin : Inside input origin) :
    Result.SamePlace origin (b.resultFromStop input origin stop)
      (b'.resultFromStop input origin stop) := by
  have hnone' : b'.templates = #[] := by simp [hparts, hnone]
  have hzero' : b'.forward.lookbehind = 0 := by simp [hparts, hzero]
  have hsticky : b'.sticky = b.sticky := by simp [Parts.sticky, hparts]
  have hanchored : b'.forward.anchored = b.forward.anchored := by simp [hparts]
  have hcapture' : b'.capture.isNone = false := by simp [hparts]
  by_cases hedge : b.sticky = true ∨ b.forward.anchored = true
  · -- Both starts are known to be where the search began.
    have hedge' : b'.sticky = true ∨ b'.forward.anchored = true := by
      simpa [hsticky, hanchored] using hedge
    exact .of_start? (stop?_resultFromStop hnone) (stop?_resultFromStop hnone')
      (start?_resultFromStop hnone hzero hedge) (start?_resultFromStop hnone' hzero' hedge')
  · have hfree : (b.forward.anchored || b.sticky) = false := by
      simpa [and_comm] using hedge
    have hfree' : b'.startsAtOrigin = false := by
      simpa [Parts.startsAtOrigin, hsticky, hanchored, hzero'] using hfree
    have hlate : b'.resultFromStop input origin stop =
        .lateGroups (b'.pending input origin) stop none none := by
      simp [resultFromStop_of_empty hnone', hfree', hcapture']
    rw [hlate, resultFromStop_of_empty hnone, hplain, Option.isNone_none, if_pos rfl]
    by_cases hempty : stop = origin
    · -- One search knows the start of an empty match, and the other one leaves it to be found.
      subst hempty
      have hneeds : b'.needsBackward = true := by
        rw [b'.needsBackward_of_empty hnone', hcapture', hfree']
        rfl
      rw [if_pos rfl]
      refine ⟨rfl, rfl, ?_⟩
      rcases hb'.answer_locateStart_origin hnone' hzero' hneeds hin with hstart | hrejected
      · exact .inl ((Work.answer_onto _ _ _).trans hstart).symm
      · exact .inr ⟨rfl, rfl, (Work.answer_onto _ _ _).trans hrejected⟩
    · -- Both leave the start to be found, by one backward automaton.
      have hlocated : ((b'.pending input origin).locateStart stop).answer =
          ((b.pending input origin).locateStart stop).answer := by
        refine Pending.answer_locateStart_congr ?_ ?_ ?_ stop
        · rfl
        · simp [pending, hparts]
        · simp [Pending.floor, pending, hparts]
      rw [if_neg hempty, hfree, if_neg Bool.false_ne_true]
      refine ⟨rfl, rfl, .inl ?_⟩
      calc
        (Result.lateStart (b.pending input origin) stop none).start.answer
            = ((b.pending input origin).locateStart stop).answer := Work.answer_onto _ _ _
        _ = ((b'.pending input origin).locateStart stop).answer := hlocated.symm
        _ = _ := (Work.answer_onto _ _ _).symm

/-- From the value of a backward run, both searches know where the match is. -/
theorem samePlace_resultFromValue (hnone : b.templates = #[]) (hnone' : b'.templates = #[]) :
    ∃ r r', b.resultFromValue input origin value = .ok r ∧
      b'.resultFromValue input origin value = .ok r' ∧ Result.SamePlace origin r r' := by
  have hr : b.resultFromValue input origin value = .ok _ := resultFromValue_of_empty hnone value
  have hr' : b'.resultFromValue input origin value = .ok _ := resultFromValue_of_empty hnone' value
  exact ⟨_, _, hr, hr', .of_start? (stop?_of_resultFromValue hnone hr)
    (stop?_of_resultFromValue hnone' hr') (start?_of_resultFromValue hnone hr)
    (start?_of_resultFromValue hnone' hr')⟩

/-- Both searches take the same route, and their runs report the same. -/
theorem samePlace_find (hb : b.OfTables) (hb' : b'.OfTables) (hnone : b.templates = #[])
    (hzero : b.forward.lookbehind = 0) (hplain : b.capture = none)
    (hparts : b'.toParts = { b.toParts with capture := some capture }) (hin : Inside input origin) :
    ∃ r r', (b.find input origin).answer = .ok r ∧ (b'.find input origin).answer = .ok r' ∧
      Result.SamePlace origin r r' := by
  have hnone' : b'.templates = #[] := by simp [hparts, hnone]
  have hbackward : b'.backward = b.backward := by simp [hparts]
  have hforward : b'.forward = b.forward := by simp [hparts]
  have hfloor : (b'.pending input origin).floor = b.floor origin := by
    simp [Pending.floor, pending, floor, hparts]
  have hrouted := hb.find_routed hin
  generalize (b.find input origin).answer = answer at hrouted ⊢
  -- Neither the route nor its run depends on the automaton for the groups.
  cases hrouted with
  | noStop hroute hscan =>
    rw [← hforward] at hscan
    exact ⟨_, _, rfl, answer_find_of_forward_noMatch (hbackward ▸ hroute) hscan, .refl _⟩
  | stop hroute hscan =>
    rw [← hforward] at hscan
    exact ⟨_, _, rfl, answer_find_of_forward (hbackward ▸ hroute) hscan rfl,
      samePlace_resultFromStop hb' hnone hzero hplain hparts hin⟩
  | noValue hsome hroute hscan =>
    rw [← hfloor] at hscan
    exact ⟨_, _, rfl, answer_find_of_backward_noMatch (hbackward.trans hsome) hroute hscan, .refl _⟩
  | @value backward value hsome hroute hscan =>
    rw [← hfloor] at hscan
    rw [answer_find_of_backward (hbackward.trans hsome) hroute hscan rfl]
    exact samePlace_resultFromValue hnone hnone'

/-! ## The place of the match -/

/-- Of two bundles without templates let the second one have an automaton for the groups, the first
one none, and let them be alike otherwise; their automata for positions are laid out from tables, and
the forward one looks at no byte before the match. Then from wherever in the input both searches
succeed, and one matches if the other does. Whatever either result is asked, in whatever order, the
matches end at the same position, and start at the same position where both starts are answered. The
start is answered alike, too, unless the match is empty, the first result places it where the search
began, and the backward automaton, which the second result runs there, rejects it. -/
theorem place_eq_of_capture (hb : b.OfTables) (hnone : b.templates = #[])
    (hzero : b.forward.lookbehind = 0) (hplain : b.capture = none)
    (hparts : b'.toParts = { b.toParts with capture := some capture }) (hin : Inside input origin) :
    ∃ r r', (b.find input origin).answer = .ok r ∧ (b'.find input origin).answer = .ok r' ∧
      r.found = r'.found ∧ ∀ questions questions' : List Accessor,
        ((r.after questions).access .stop).answer = ((r'.after questions').access .stop).answer ∧
        (∀ start start', ((r.after questions).access .start).answer = .ok start →
          ((r'.after questions').access .start).answer = .ok start' → start = start') ∧
        (((r.after questions).access .start).answer = ((r'.after questions').access .start).answer ∨
          ((r.after questions).access .start).answer = .ok origin ∧
            ((r.after questions).access .stop).answer = .ok origin ∧
            ((r'.after questions').access .start).answer =
              .error (.contract .backwardRejected)) := by
  have hb' : b'.OfTables := by
    constructor
    · simpa [hparts] using hb.forward
    · simpa [hparts] using hb.backward
  rcases samePlace_find hb hb' hnone hzero hplain hparts hin with ⟨r, r', hr, hr', hsame⟩
  refine ⟨r, r', hr, hr', hsame.found, fun questions questions' => ?_⟩
  have hlater := hsame.after questions questions'
  exact ⟨hlater.stop, fun start start' => hlater.start_eq, hlater.start⟩

end Bundle

/-! ## One byte with and without groups -/

/-- Automata that find one byte and its start. -/
def ungroupedBundle : Bundle where
  toParts := { oneByteBundle.toParts with capture := none }
  sound := by simp [Parts.firstFault, oneByteBundle, oneByte, Dfa.toAutomaton]

/-- The last byte of the sample input is found in one place, whether or not groups are asked for. -/
theorem ungroupedBundle_place_eq :
    ∃ r r', (ungroupedBundle.find sampleInput 3).answer = .ok r ∧
      (oneByteBundle.find sampleInput 3).answer = .ok r' ∧ r.found = true ∧ r'.found = true ∧
      (r.access .stop).answer = .ok 4 ∧ (r'.access .stop).answer = .ok 4 ∧
      (r.access .start).answer = .ok 3 ∧ (r'.access .start).answer = .ok 3 := by
  have hb : ungroupedBundle.OfTables :=
    ⟨oneByteBundle_ofTables.forward, oneByteBundle_ofTables.backward⟩
  have hparts : oneByteBundle.toParts = { ungroupedBundle.toParts with
      capture := some (.always 2 (.groups #[1, 2, 1, 2])) } := rfl
  have hin : Inside sampleInput 3 := ⟨by decide, by decide⟩
  rcases Bundle.place_eq_of_capture hb rfl rfl rfl hparts hin with ⟨r, r', hr, hr', hfound, hplace⟩
  cases (oneByteBundle_find (by decide) (by decide)).symm.trans hr'
  have hscan : (oneByte .backward false).scan sampleInput 0 3 2 = .ok (.offset 2) :=
    oneByte_scan ⟨by decide, by decide, by decide⟩ (by decide)
  have hlocated : ((oneByteBundle.pending sampleInput 3).locateStart 4).answer = .ok 3 :=
    Pending.answer_locateStart rfl hscan
  have hstart' : ((Result.lateGroups (oneByteBundle.pending sampleInput 3) 4 none none).access
      .start).answer = .ok 3 := (Work.answer_onto _ _ _).trans hlocated
  rcases hplace [] [] with ⟨hstop, -, hsame | ⟨-, -, hrejected⟩⟩
  · exact ⟨r, _, hr, hr', hfound, rfl, hstop, rfl, hsame.trans hstart', hstart'⟩
  · cases hstart'.symm.trans hrejected

end LazyMatch
