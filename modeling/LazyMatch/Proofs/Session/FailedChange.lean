import LazyMatch.Proofs.Session.Strategy
import LazyMatch.Proofs.Session.Transparency

/-!
# When a change of strategy fails

A change of strategy that leads to no automaton of use should go unnoticed: the search is answered
all the same, and the matter is settled. This is so if the compiler has nothing to offer or refuses
the pattern. But any other failure of the compiler becomes the failure of the search: its result is
lost, it is not counted, and the next search calls the compiler again
(`Session.search_eq_find_iff_not_escapes`).
-/

namespace LazyMatch

namespace Session

/-- Whatever state a matcher is in, where a search on demand succeeds: unless everything is found at
once, its result is the answer exactly if no change of strategy is due that fails in another way
than by refusing the pattern. Such a failure is the answer; it leaves the matcher as it was, though
the compiler was called. A change that leads to nothing of use settles the matter: the search is
answered and counted, and the compiler is never called again. -/
theorem search_eq_find_iff_not_escapes (s : Session) (m : Matcher) (h : s.engine = .matcher m)
    (name : String) (input : Input) (origin : Int) (r : Result) (hin : Inside input origin)
    (hfind : (m.bundle.find input origin).answer = .ok r) :
    let searched := s.search name input origin
    (m.OnDemand → (searched.answer = .ok r ↔ ∀ fault, ¬ m.Escapes fault)) ∧
      (∀ fault, m.Escapes fault →
        searched.answer = .error fault ∧ searched.next.engine = s.engine ∧
          searched.next.tally.compileEager = s.tally.compileEager + 1) ∧
      (m.Profiles → m.Due → (∀ a, m.offer = some (.ok (some a)) → a.groupCount = 0) →
        (∀ fault, m.offer = some (.error fault) → ∃ e, fault = .compile e) →
        searched.answer = .ok r ∧
          searched.next.engine = .matcher
            { m with strategy := .settled, usage := m.usage.countSearch r.found } ∧
          ∀ history, (searched.next.run history).strategy? = some .settled ∧
            (searched.next.run history).tally.compileEager =
              searched.next.tally.compileEager) ∧
      (∀ a, m.strategy = .atOnce a → a.Follows m.bundle input origin →
        (r.found = true → r.Answers) →
        ∃ found, searched.answer = .ok found ∧ found.Alike r ∧ searched.next.engine = s.engine) := by
  intro searched
  rcases search_spec h name input origin with ⟨hanswer, hengine, htally⟩
  refine ⟨?_, ?_, ?_, ?_⟩
  · intro hstrategy
    constructor
    · intro hok fault hescapes
      rw [hanswer, Matcher.search_of_escapes hin hfind hescapes] at hok
      cases hok
    · intro hnone
      exact hanswer.trans (Matcher.answer_of_not_escapes hin hstrategy hfind hnone)
  · intro fault hescapes
    rw [Matcher.search_of_escapes hin hfind hescapes] at hanswer hengine htally
    rcases Matcher.strategyAfter_eq_error_iff.1 hescapes.2.2 with ⟨hoffer, _⟩
    -- The compiler was called, once, by the change and not by the search.
    have hquiet := (m.bundle.quiet_find input origin).countP_isEagerCompilation
    have hcalled : m.offerEvents = [.compileEager] := by
      rw [Matcher.offerEvents, hoffer]
      rfl
    refine ⟨hanswer, hengine.trans h.symm, ?_⟩
    rw [htally, (s.tally.addAll_counts _).2, List.countP_append, hquiet, hcalled]
    rfl
  · intro hprofiles hdue huseless hrefuses
    have hsettled := Matcher.strategyAfter_eq_settled huseless hrefuses
    rw [Matcher.search_of_change hin hfind hprofiles hdue hsettled] at hanswer hengine
    refine ⟨hanswer, hengine, ?_⟩
    exact run_of_not_profiles hengine fun hprofiles => by cases hprofiles.2
  · intro a hstrategy hfollows ha
    rcases Automaton.find_alike hfollows hfind ha with ⟨found, hok, halike, _⟩
    rw [Matcher.search_atOnce hin hstrategy] at hanswer hengine
    exact ⟨found, hanswer.trans hok, halike, hengine.trans h.symm⟩

end Session

/-! ## A compiler that breaks -/

/-- A compiler that breaks when it is asked for an automaton that finds everything at once. -/
def brokenCompiler : Compiler where
  compile _ := .ok (some emptyGroupBundle)
  compileEager _ := .error (.failed "compiler failed")

def brokenSession : Session :=
  (Session.fresh emptyGroupPattern emptyGroupBundle (some brokenCompiler) .soon).run
    [.search "first" #[97] 0]

/-- The matcher of the session, whose change of strategy is due. -/
def brokenMatcher : Matcher :=
  { Matcher.new emptyGroupPattern emptyGroupBundle (some brokenCompiler) .soon with
    usage := { calls := 1, matched := 1 } }

/-- The second search fails where a search on demand succeeds, and so will every further one. -/
theorem brokenSession_search_fails :
    (∃ r, (emptyGroupBundle.find #[97] 0).answer = .ok r) ∧
      (brokenSession.search "second" #[97] 0).answer = .error (.failed "compiler failed") ∧
      (brokenSession.search "second" #[97] 0).next.engine = brokenSession.engine := by
  have hin : Inside #[97] 0 := ⟨by decide, by decide⟩
  rcases emptyGroupBundle_find hin with ⟨r, hr, _⟩
  have hescapes : brokenMatcher.Escapes (.failed "compiler failed") :=
    ⟨⟨rfl, rfl⟩, ⟨by decide, by decide⟩, rfl⟩
  rcases Session.search_eq_find_iff_not_escapes brokenSession brokenMatcher rfl "second" #[97] 0 r
    hin hr with ⟨_, hfails, _, _⟩
  rcases hfails _ hescapes with ⟨hanswer, hengine, _⟩
  exact ⟨⟨r, hr⟩, hanswer, hengine⟩

end LazyMatch
