import LazyMatch.Proofs.Session.History
import Mathlib.Data.List.Induction

/-!
# Strategy and commands

A command changes the strategy of a matcher, and calls its compiler, only if it is a search that is
answered, counts, and finds a change due (`Session.serve_strategy`). Where searches do not count, no
history does either (`Session.run_of_not_profiles`).
-/

namespace LazyMatch

namespace Session

variable {s : Session} {m : Matcher}

/-- What one command does to the strategy, and how often it calls the compiler, where no change of
strategy fails. -/
theorem serve_strategy (h : s.engine = .matcher m) (hrefuses : ∀ fault, ¬ m.Escapes fault)
    (c : Command) :
    let changes := (m.Profiles ∧ m.Due) ∧ (s.found? c).isSome = true
    ∃ m', (s.serve c).engine = .matcher m' ∧
      (changes ∧ Matcher.strategyAfter m.offer = .ok m'.strategy ∧
          (s.serve c).tally.compileEager =
            s.tally.compileEager + (if m.offer.isSome then 1 else 0) ∨
        ¬ changes ∧ m'.strategy = m.strategy ∧
          (s.serve c).tally.compileEager = s.tally.compileEager) := by
  intro changes
  have hserved := serve_cases h c
  generalize s.serve c = next at hserved ⊢
  -- Only a search that is answered can change the strategy.
  have hunchanged : s.found? c = none → ¬ changes := by
    intro hfound hchanges
    have hsome := hchanges.2
    rw [hfound] at hsome
    cases hsome
  cases hserved with
  | @answered _ _ _ turn r hsearched hanswer hfound =>
    refine ⟨turn.next, rfl, ?_⟩
    have hok : turn.answer.isOk = true := by
      rw [hanswer]
      rfl
    have hsome : (s.found? (.search _ _ _)).isSome = true := Option.isSome_of_eq_some hfound
    simp only [(s.tally.addAll_counts turn.events).2]
    rcases hsearched.strategy_cases with ⟨hsame, hcount, hdue⟩ | ⟨hprofiles, hdue, hcount, hnext⟩
    · exact .inr ⟨fun hchanges => hdue hok hchanges.1, hsame, by rw [hcount, Nat.add_zero]⟩
    · rcases hnext with ⟨_, hafter⟩ | ⟨fault, hescapes, _⟩
      · exact .inl ⟨⟨⟨hprofiles, hdue⟩, hsome⟩, hafter, by rw [hcount]⟩
      · exact absurd hescapes (hrefuses fault)
  | @refused _ _ _ turn fault hsearched hanswer hfound =>
    refine ⟨turn.next, rfl, .inr ⟨hunchanged hfound, ?_, ?_⟩⟩
    · rw [hsearched.next_of_error hanswer]
    · simp only [(s.tally.addAll_counts turn.events).2]
      rcases hsearched.strategy_cases with ⟨_, hcount, _⟩ | ⟨_, _, _, hnext⟩
      · rw [hcount, Nat.add_zero]
      · rcases hnext with ⟨hok, _⟩ | ⟨fault', hescapes, _⟩
        · rw [hanswer] at hok
          cases hok
        · exact absurd hescapes (hrefuses fault')
  | @asked name accessor kept hkept =>
    -- Asking a result calls no compiler and can at most count accesses.
    have huncompiled := (kept.result.access_keeps accessor).1.uncompiled
    have hcompile : (s.observe kept.owner (kept.result.access accessor).events).tally.compileEager
        = s.tally.compileEager := by
      rw [tally_observe, (s.tally.addAll_counts _).2, huncompiled, Nat.add_zero]
    rcases observe_engine h kept.owner (kept.result.access accessor).events with hsame | hcredited
    · exact ⟨m, hsame, .inr ⟨hunchanged rfl, rfl, hcompile⟩⟩
    · exact ⟨_, hcredited, .inr ⟨hunchanged rfl, rfl, hcompile⟩⟩
  | copied => exact ⟨m, h, .inr ⟨hunchanged rfl, rfl, rfl⟩⟩
  | ignored hfound => exact ⟨m, h, .inr ⟨hunchanged hfound, rfl, rfl⟩⟩

/-! ## While the strategy is open -/

theorem open_of_concat (h : s.engine = .matcher m) {history : List Command} {c : Command}
    (hopen : (s.run (history ++ [c])).strategy? = some .onDemand) :
    (s.run history).strategy? = some .onDemand := by
  rcases run_becomes h history with ⟨m₁, hm₁, _⟩
  rcases serve_becomes hm₁ c with ⟨m₂, hm₂, hbecomes⟩
  rw [run_concat, strategy?_eq hm₂, Option.some.injEq] at hopen
  rw [strategy?_eq hm₁, Option.some.injEq]
  -- A strategy that is no longer open is never left, so it would not be open now.
  by_cases hclosed : m₁.strategy = .onDemand
  · exact hclosed
  · exact absurd ((hbecomes.strategy_eq hclosed).symm.trans hopen) hclosed

theorem profiles_of_open (h : s.engine = .matcher m) (hprofiling : m.tuning.profiling = true)
    {history : List Command} (hopen : (s.run history).strategy? = some .onDemand) :
    ∃ m', (s.run history).engine = .matcher m' ∧ m.Becomes m' ∧ m'.Profiles := by
  rcases run_becomes h history with ⟨m', hm', hbecomes⟩
  rw [strategy?_eq hm', Option.some.injEq] at hopen
  refine ⟨m', hm', hbecomes, ?_, hopen⟩
  rw [hbecomes.tuning]
  exact hprofiling

/-- As long as the strategy is open, every search that is answered counts. -/
theorem profiled_eq_results (h : s.engine = .matcher m) (hprofiling : m.tuning.profiling = true)
    (history : List Command) (hopen : (s.run history).strategy? = some .onDemand) :
    s.profiled history = s.results history := by
  induction history using List.reverseRecOn with
  | nil => rfl
  | append_singleton history c ih =>
    have hbefore := open_of_concat h hopen
    rcases profiles_of_open h hprofiling hbefore with ⟨m', hm', _, hprofiles⟩
    rw [profiled, results, gather_concat, gather_concat, profiled?_of_profiles hm' hprofiles]
    exact congrArg (· ++ _) (ih hbefore)

/-- Where searches do not count, no history changes the strategy or calls the compiler. -/
theorem run_of_not_profiles (h : s.engine = .matcher m) (hclosed : ¬ m.Profiles)
    (history : List Command) :
    (s.run history).strategy? = some m.strategy ∧
      (s.run history).tally.compileEager = s.tally.compileEager := by
  induction history generalizing s m with
  | nil => exact ⟨strategy?_eq h, rfl⟩
  | cons c history ih =>
    have hrefuses : ∀ fault, ¬ m.Escapes fault := fun _ hescapes => hclosed hescapes.1
    rcases serve_becomes h c with ⟨m', hm', hbecomes⟩
    rcases serve_strategy h hrefuses c with ⟨m'', hm'', hcases⟩
    rcases matcher_unique hm' hm'' with rfl
    rcases hcases with ⟨⟨⟨hprofiles, _⟩, _⟩, _⟩ | ⟨_, hsame, hcalls⟩
    · exact absurd hprofiles hclosed
    · -- The same strategy under the same knobs: searches still do not count.
      have hstill : ¬ m'.Profiles := by
        rw [Matcher.Profiles, hbecomes.tuning, hsame]
        exact hclosed
      rcases ih hm' hstill with ⟨hstrategy, htally⟩
      exact ⟨hsame ▸ hstrategy, htally.trans hcalls⟩

end Session

end LazyMatch
