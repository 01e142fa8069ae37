import LazyMatch.Proofs.Find.Events
import LazyMatch.Proofs.Matcher.Change

/-!
# One search of a matcher

A search comes to one of a few things, and `Matcher.Searched` lists them with what each answers,
leaves behind and costs. What is true of every search is read off this list
(`Matcher.search_cases`), so the way a search is computed matters here and nowhere else.
-/

namespace LazyMatch

namespace Matcher

variable {m : Matcher} {input : Input} {origin : Int} {turn : Turn Matcher Result}

/-! ## Everything a search can come to -/

/-- What a search from `origin` answers, leaves and costs. -/
inductive Searched (m : Matcher) (input : Input) (origin : Int) : Turn Matcher Result → Prop
  /-- The search must not begin there. -/
  | outside (hout : ¬ Inside input origin) :
      Searched m input origin (.failed (.range (.searchIndex origin input.size)) m)
  /-- The automaton that finds everything at once answers. -/
  | atOnce {a : Automaton} (hin : Inside input origin) (hstrategy : m.strategy = .atOnce a) :
      Searched m input origin ⟨(a.find input origin).answer, m, (a.find input origin).events⟩
  /-- The search on demand fails. -/
  | failed {fault : Fault} (hin : Inside input origin) (hstrategy : m.OnDemand)
      (hfind : (m.bundle.find input origin).answer = .error fault) :
      Searched m input origin ⟨.error fault, m, (m.bundle.find input origin).events⟩
  /-- The search on demand succeeds and does not count. -/
  | unprofiled {r : Result} (hin : Inside input origin) (hstrategy : m.OnDemand)
      (hprofiles : ¬ m.Profiles) (hfind : (m.bundle.find input origin).answer = .ok r) :
      Searched m input origin ⟨.ok r, m, (m.bundle.find input origin).events⟩
  /-- The search on demand succeeds and counts. -/
  | counted {r : Result} (hin : Inside input origin) (hprofiles : m.Profiles) (hdue : ¬ m.Due)
      (hfind : (m.bundle.find input origin).answer = .ok r) :
      Searched m input origin
        ⟨.ok r, { m with usage := m.usage.countSearch r.found }, (m.bundle.find input origin).events⟩
  /-- The search on demand succeeds and counts, and the strategy changes. -/
  | changed {r : Result} {s : Strategy} (hin : Inside input origin) (hprofiles : m.Profiles)
      (hdue : m.Due) (hfind : (m.bundle.find input origin).answer = .ok r)
      (hoffer : strategyAfter m.offer = .ok s) :
      Searched m input origin
        ⟨.ok r, { m with strategy := s, usage := m.usage.countSearch r.found },
          (m.bundle.find input origin).events ++ m.offerEvents⟩
  /-- The search on demand succeeds, but changing the strategy fails, and the result is lost. -/
  | escaped {r : Result} {fault : Fault} (hin : Inside input origin)
      (hfind : (m.bundle.find input origin).answer = .ok r) (hescapes : m.Escapes fault) :
      Searched m input origin
        ⟨.error fault, m, (m.bundle.find input origin).events ++ m.offerEvents⟩

theorem searched_searchOnDemand (hin : Inside input origin) (hstrategy : m.OnDemand) :
    m.Searched input origin (m.searchOnDemand input origin) := by
  rw [searchOnDemand, Work.onto_self]
  cases hfind : (m.bundle.find input origin).answer with
  | error fault =>
    rw [Turn.andThen_of_error rfl]
    exact .failed hin hstrategy hfind
  | ok r =>
    rw [Turn.andThen_of_ok rfl]
    have htest : (m.tuning.profiling && m.strategy.isOpen) = true ↔ m.Profiles := by
      rw [Bool.and_eq_true, Strategy.isOpen_iff, Profiles]
    by_cases hprofiles : m.Profiles
    · rw [if_pos (htest.2 hprofiles), profile, reconsider]
      -- The strategy is reconsidered before the search is counted.
      by_cases hdue : m.Due
      · rw [if_pos (Bool.and_eq_true_iff.2 hdue)]
        rcases m.changeStrategy_spec with ⟨hevents, hchange⟩
        cases hoffer : strategyAfter m.offer with
        | ok s =>
          rw [hoffer] at hchange
          rcases hchange with ⟨hanswer, hnext⟩
          rw [Turn.andThen_of_ok hanswer, hevents, hnext]
          simpa using Searched.changed hin hprofiles hdue hfind hoffer
        | error fault =>
          -- The failure ends the search, though its result is already there.
          rw [hoffer] at hchange
          rcases hchange with ⟨hanswer, hnext⟩
          rw [Turn.andThen_of_error hanswer, hevents, hnext]
          exact .escaped hin hfind ⟨hprofiles, hdue, hoffer⟩
      · rw [if_neg fun htest => hdue (Bool.and_eq_true_iff.1 htest),
          Turn.andThen_of_ok (Turn.answer_done _ _)]
        simpa using Searched.counted hin hprofiles hdue hfind
    · rw [if_neg fun h => hprofiles (htest.1 h)]
      simpa using Searched.unprofiled hin hstrategy hprofiles hfind

/-- Every search comes to one of these things. -/
theorem search_cases (m : Matcher) (input : Input) (origin : Int) :
    m.Searched input origin (m.search input origin) := by
  unfold search
  by_cases hin : Inside input origin
  · rw [if_neg (inside_iff.1 hin)]
    -- Of the three strategies two search on demand.
    split
    · next a hstrategy =>
      rw [Work.onto_self]
      exact .atOnce hin hstrategy
    · next hstrategy =>
      exact searched_searchOnDemand hin fun a ha => by cases hstrategy.symm.trans ha
    · next hstrategy =>
      exact searched_searchOnDemand hin fun a ha => by cases hstrategy.symm.trans ha
  · have hout : origin < 0 ∨ (input.size : Int) < origin :=
      Decidable.not_not.1 fun h => hin (inside_iff.2 h)
    rw [if_pos hout]
    exact .outside hin

namespace Searched

/-- A result is that of a search on demand, or leaves nothing pending. -/
theorem find_or_pending?_of_ok (h : m.Searched input origin turn) {r : Result}
    (hr : turn.answer = .ok r) :
    (m.bundle.find input origin).answer = .ok r ∨ r.pending? = none := by
  cases h with
  | outside => cases hr
  | atOnce => exact .inr (Automaton.pending?_of_find hr)
  | failed => cases hr
  | unprofiled _ _ _ hfind => exact .inl (hfind.trans hr)
  | counted _ _ _ hfind => exact .inl (hfind.trans hr)
  | changed _ _ _ hfind => exact .inl (hfind.trans hr)
  | escaped => cases hr

theorem inside_of_ok (h : m.Searched input origin turn) {r : Result} (hr : turn.answer = .ok r) :
    Inside input origin := by
  cases h with
  | outside => cases hr
  | atOnce hin => exact hin
  | failed => cases hr
  | unprofiled hin => exact hin
  | counted hin => exact hin
  | changed hin => exact hin
  | escaped => cases hr

/-- While the strategy is on demand, a result is that of a search on demand. -/
theorem find_of_onDemand (h : m.Searched input origin turn) (hstrategy : m.OnDemand) {r : Result}
    (hr : turn.answer = .ok r) : (m.bundle.find input origin).answer = .ok r := by
  cases h with
  | outside => cases hr
  | atOnce _ ha => exact absurd ha (hstrategy _)
  | failed => cases hr
  | unprofiled _ _ _ hfind => exact hfind.trans hr
  | counted _ _ _ hfind => exact hfind.trans hr
  | changed _ _ _ hfind => exact hfind.trans hr
  | escaped => cases hr

/-- What a search runs is what the search of its strategy runs. -/
theorem run_mem (h : m.Searched input origin turn) {made : Run}
    (hmade : Event.run made ∈ turn.events) :
    Inside input origin ∧ (Event.run made ∈ (m.bundle.find input origin).events ∨
      ∃ a, m.strategy = .atOnce a ∧ Event.run made ∈ (a.find input origin).events) := by
  have hoffer : Event.run made ∉ m.offerEvents := by
    unfold offerEvents
    split <;> simp
  cases h with
  | outside => cases hmade
  | atOnce hin ha => exact ⟨hin, .inr ⟨_, ha, hmade⟩⟩
  | failed hin => exact ⟨hin, .inl hmade⟩
  | unprofiled hin => exact ⟨hin, .inl hmade⟩
  | counted hin => exact ⟨hin, .inl hmade⟩
  | changed hin => exact ⟨hin, .inl ((List.mem_append.1 hmade).resolve_right hoffer)⟩
  | escaped hin => exact ⟨hin, .inl ((List.mem_append.1 hmade).resolve_right hoffer)⟩

/-- Whatever strategy answers, what is left pending belongs to the bundle. -/
theorem pending_of_ok (h : m.Searched input origin turn) {r : Result} (hr : turn.answer = .ok r) :
    ∀ p ∈ r.pending?, p = m.bundle.pending input origin := by
  rcases h.find_or_pending?_of_ok hr with hfind | hnone
  · exact (Bundle.fresh_of_find hfind).eq_pending
  · simp [hnone]

theorem counted_of_ok (h : m.Searched input origin turn) {r : Result} (hr : turn.answer = .ok r) :
    r.Counted := by
  intro p hp
  rw [h.pending_of_ok hr p hp]
  rfl

/-- A search that is answered counts exactly if searches count. -/
theorem usage_of_ok (h : m.Searched input origin turn) {r : Result} (hr : turn.answer = .ok r) :
    m.Profiles ∧ turn.next.usage = m.usage.countSearch r.found ∨
      ¬ m.Profiles ∧ turn.next.usage = m.usage := by
  cases h with
  | outside => cases hr
  | atOnce _ hstrategy => exact .inr ⟨fun hprofiles => hprofiles.onDemand _ hstrategy, rfl⟩
  | failed => cases hr
  | unprofiled _ _ hprofiles => exact .inr ⟨hprofiles, rfl⟩
  | counted _ hprofiles =>
    cases hr
    exact .inl ⟨hprofiles, rfl⟩
  | changed _ hprofiles =>
    cases hr
    exact .inl ⟨hprofiles, rfl⟩
  | escaped => cases hr

theorem next_of_error (h : m.Searched input origin turn) {fault : Fault}
    (hfault : turn.answer = .error fault) : turn.next = m := by
  cases h with
  | outside => rfl
  | atOnce => rfl
  | failed => rfl
  | unprofiled => cases hfault
  | counted => cases hfault
  | changed => cases hfault
  | escaped => rfl

/-- A search makes runs, and may ask for an automaton that finds everything at once; what is neither
does not occur. -/
theorem countP_eq_zero (h : m.Searched input origin turn) {kind : Event → Bool}
    (hkind : ∀ run : Run, run.role ≠ .capture → kind (.run run) = false)
    (heager : kind .compileEager = false) : turn.events.countP kind = 0 := by
  have hquiet := (m.bundle.quiet_find input origin).countP_eq_zero hkind
  have hoffer : m.offerEvents.countP kind = 0 := by
    unfold offerEvents
    split <;> simp [heager]
  cases h with
  | outside => rfl
  | atOnce => exact (Automaton.quiet_find _ input origin).countP_eq_zero hkind
  | failed => exact hquiet
  | unprofiled => exact hquiet
  | counted => exact hquiet
  | changed => rw [List.countP_append, hquiet, hoffer]
  | escaped => rw [List.countP_append, hquiet, hoffer]

theorem countP_isGroupScan (h : m.Searched input origin turn) :
    turn.events.countP Event.isGroupScan = 0 :=
  h.countP_eq_zero (fun _ hrole => by simpa [Event.isGroupScan] using hrole) rfl

/-- A matcher has its automata already. -/
theorem countP_isCompilation (h : m.Searched input origin turn) :
    turn.events.countP Event.isCompilation = 0 :=
  h.countP_eq_zero (fun _ _ => rfl) rfl

/-- The strategy changes, and the compiler is called, only by a search that counts where a change is
due. It does change unless the compiler fails. -/
theorem strategy_cases (h : m.Searched input origin turn) :
    turn.next.strategy = m.strategy ∧ turn.events.countP Event.isEagerCompilation = 0 ∧
        (turn.answer.isOk = true → ¬ (m.Profiles ∧ m.Due)) ∨
      m.Profiles ∧ m.Due ∧
        turn.events.countP Event.isEagerCompilation = (if m.offer.isSome then 1 else 0) ∧
          (turn.answer.isOk = true ∧ strategyAfter m.offer = .ok turn.next.strategy ∨
            ∃ fault, m.Escapes fault ∧ turn.answer = .error fault ∧ turn.next = m) := by
  have hquiet := (m.bundle.quiet_find input origin).countP_isEagerCompilation
  have hoffer : m.offerEvents.countP Event.isEagerCompilation = if m.offer.isSome then 1 else 0 := by
    unfold offerEvents
    split <;> rfl
  cases h with
  | outside => exact .inl ⟨rfl, rfl, fun hok => by cases hok⟩
  | @atOnce a _ hstrategy =>
    refine .inl ⟨rfl, (a.quiet_find input origin).countP_isEagerCompilation, ?_⟩
    exact fun _ hboth => hboth.1.onDemand a hstrategy
  | failed => exact .inl ⟨rfl, hquiet, fun hok => by cases hok⟩
  | unprofiled _ _ hprofiles => exact .inl ⟨rfl, hquiet, fun _ hboth => hprofiles hboth.1⟩
  | counted _ _ hdue => exact .inl ⟨rfl, hquiet, fun _ hboth => hdue hboth.2⟩
  | changed _ hprofiles hdue _ hafter =>
    refine .inr ⟨hprofiles, hdue, ?_, .inl ⟨rfl, hafter⟩⟩
    rw [List.countP_append, hquiet, hoffer, Nat.zero_add]
  | escaped _ _ hescapes =>
    refine .inr ⟨hescapes.1, hescapes.2.1, ?_, .inr ⟨_, hescapes, rfl, rfl⟩⟩
    rw [List.countP_append, hquiet, hoffer, Nat.zero_add]

end Searched

/-! ## Where a search on demand succeeds -/

/-- Unless a change of strategy fails, the result of the search on demand is the answer. -/
theorem answer_of_not_escapes {r : Result} (hin : Inside input origin) (hstrategy : m.OnDemand)
    (hfind : (m.bundle.find input origin).answer = .ok r) (hnone : ∀ fault, ¬ m.Escapes fault) :
    (m.search input origin).answer = .ok r := by
  have hsearched := m.search_cases input origin
  generalize m.search input origin = turn at hsearched ⊢
  cases hsearched with
  | outside hout => exact absurd hin hout
  | atOnce _ ha => exact absurd ha (hstrategy _)
  | failed _ _ hr => cases hfind.symm.trans hr
  | unprofiled _ _ _ hr => exact hr.symm.trans hfind
  | counted _ _ _ hr => exact hr.symm.trans hfind
  | changed _ _ _ hr => exact hr.symm.trans hfind
  | escaped _ _ hescapes => exact absurd hescapes (hnone _)

/-- A search that is not due for a change of strategy counts and leaves the rest as it is. -/
theorem search_of_not_due {r : Result} (hin : Inside input origin)
    (hfind : (m.bundle.find input origin).answer = .ok r) (hprofiles : m.Profiles)
    (hdue : ¬ m.Due) :
    m.search input origin =
      ⟨.ok r, { m with usage := m.usage.countSearch r.found },
        (m.bundle.find input origin).events⟩ := by
  have hsearched := m.search_cases input origin
  generalize m.search input origin = turn at hsearched ⊢
  cases hsearched with
  | outside hout => exact absurd hin hout
  | atOnce _ ha => exact absurd ha (hprofiles.onDemand _)
  | failed _ _ hr => cases hfind.symm.trans hr
  | unprofiled _ _ hnot => exact absurd hprofiles hnot
  | counted _ _ _ hr =>
    cases hfind.symm.trans hr
    rfl
  | changed _ _ hdue' => exact absurd hdue' hdue
  | escaped _ _ hescapes => exact absurd hescapes.2.1 hdue

theorem search_of_escapes {r : Result} {fault : Fault} (hin : Inside input origin)
    (hfind : (m.bundle.find input origin).answer = .ok r) (hescapes : m.Escapes fault) :
    m.search input origin =
      ⟨.error fault, m, (m.bundle.find input origin).events ++ m.offerEvents⟩ := by
  have hsearched := m.search_cases input origin
  generalize m.search input origin = turn at hsearched ⊢
  rcases hescapes with ⟨hprofiles, hdue, herror⟩
  cases hsearched with
  | outside hout => exact absurd hin hout
  | atOnce _ ha => exact absurd ha (hprofiles.onDemand _)
  | failed _ _ hr => cases hfind.symm.trans hr
  | unprofiled _ _ hnot => exact absurd hprofiles hnot
  | counted _ _ hnot => exact absurd hdue hnot
  | changed _ _ _ _ hafter => cases herror.symm.trans hafter
  | escaped _ _ hother =>
    cases herror.symm.trans hother.2.2
    rfl

/-- A change of strategy that succeeds goes with an answered search, which counts. -/
theorem search_of_change {r : Result} {s : Strategy} (hin : Inside input origin)
    (hfind : (m.bundle.find input origin).answer = .ok r) (hprofiles : m.Profiles) (hdue : m.Due)
    (hoffer : strategyAfter m.offer = .ok s) :
    m.search input origin =
      ⟨.ok r, { m with strategy := s, usage := m.usage.countSearch r.found },
        (m.bundle.find input origin).events ++ m.offerEvents⟩ := by
  have hsearched := m.search_cases input origin
  generalize m.search input origin = turn at hsearched ⊢
  cases hsearched with
  | outside hout => exact absurd hin hout
  | atOnce _ ha => exact absurd ha (hprofiles.onDemand _)
  | failed _ _ hr => cases hfind.symm.trans hr
  | unprofiled _ _ hnot => exact absurd hprofiles hnot
  | counted _ _ hnot => exact absurd hdue hnot
  | changed _ _ _ hr hafter =>
    cases hfind.symm.trans hr
    cases hoffer.symm.trans hafter
    rfl
  | escaped _ _ hescapes => cases hoffer.symm.trans hescapes.2.2

theorem search_atOnce {a : Automaton} (hin : Inside input origin)
    (hstrategy : m.strategy = .atOnce a) :
    m.search input origin = ⟨(a.find input origin).answer, m, (a.find input origin).events⟩ := by
  have hsearched := m.search_cases input origin
  generalize m.search input origin = turn at hsearched ⊢
  have honDemand : ¬ m.OnDemand := fun h => h a hstrategy
  cases hsearched with
  | outside hout => exact absurd hin hout
  | atOnce _ ha =>
    rw [hstrategy] at ha
    cases ha
    rfl
  | failed _ h => exact absurd h honDemand
  | unprofiled _ h => exact absurd h honDemand
  | counted _ hprofiles => exact absurd hprofiles.onDemand honDemand
  | changed _ hprofiles => exact absurd hprofiles.onDemand honDemand
  | escaped _ _ hescapes => exact absurd hescapes.1.onDemand honDemand

/-! ## What becomes of a matcher -/

/-- What a matcher can become: the strategy changes at most once, to what the compiler makes of
it. -/
structure Becomes (m m' : Matcher) : Prop where
  pattern : m'.pattern = m.pattern
  bundle : m'.bundle = m.bundle
  compiler : m'.compiler = m.compiler
  tuning : m'.tuning = m.tuning
  strategy : m'.strategy = m.strategy ∨
    m.strategy = .onDemand ∧ strategyAfter m.offer = .ok m'.strategy

namespace Becomes

variable {m' : Matcher}

theorem refl (m : Matcher) : m.Becomes m := ⟨rfl, rfl, rfl, rfl, .inl rfl⟩

theorem offer_eq (h : m.Becomes m') : m'.offer = m.offer := by
  rw [offer, offer, h.pattern, h.compiler, h.tuning]

theorem credit (h : m.Becomes m') (events : List Event) : m.Becomes (m'.credit events) :=
  ⟨h.pattern, h.bundle, h.compiler, h.tuning, h.strategy⟩

theorem search (h : m.Becomes m') (hsearched : m'.Searched input origin turn) :
    m.Becomes turn.next := by
  cases hsearched with
  | outside => exact h
  | atOnce => exact h
  | failed => exact h
  | unprofiled => exact h
  | counted => exact ⟨h.pattern, h.bundle, h.compiler, h.tuning, h.strategy⟩
  | changed _ hprofiles _ _ hoffer =>
    -- The strategy was still the first one, and the compiler has offered what it always offers.
    refine ⟨h.pattern, h.bundle, h.compiler, h.tuning, .inr ⟨?_, ?_⟩⟩
    · rcases h.strategy with hsame | ⟨hopen, _⟩
      · rw [← hsame]
        exact hprofiles.2
      · exact hopen
    · rwa [h.offer_eq] at hoffer
  | escaped => exact h

theorem strategy_eq (h : m.Becomes m') (hclosed : m.strategy ≠ .onDemand) :
    m'.strategy = m.strategy := by
  rcases h.strategy with hsame | ⟨hopen, _⟩
  · exact hsame
  · exact absurd hopen hclosed

/-- A matcher that began on demand finds everything at once only by an automaton that its compiler
had for it. -/
theorem offer_of_atOnce {a : Automaton} (h : m.Becomes m') (hopen : m.strategy = .onDemand)
    (ha : m'.strategy = .atOnce a) : m.offer = some (.ok (some a)) ∧ a.groupCount ≠ 0 := by
  rcases h.strategy with hsame | ⟨_, hoffer⟩
  · rw [ha, hopen] at hsame
    cases hsame
  · rw [ha] at hoffer
    exact strategyAfter_eq_atOnce_iff.1 hoffer

end Becomes

end Matcher

end LazyMatch
