import LazyMatch.Proofs.Find.AtOnce
import LazyMatch.Proofs.Session.History

/-!
# The strategy cannot be seen

A matcher may find matches on demand or at once, and it may change from one to the other whenever
its usage calls for it. If its compiler only fails by refusing patterns, and what the compiler
offers follows the bundle, then no client can tell: whatever was searched and asked before, a search
answers, and its result gives the answers of a search on demand in the same input
(`Session.search_alike_find`).
-/

namespace LazyMatch

namespace Matcher

variable {m m' : Matcher} {input : Input} {origin : Int} {r : Result}

theorem search_alike (hin : Inside input origin)
    (hfind : (m.bundle.find input origin).answer = .ok r) (ha : r.found = true → r.Answers)
    (hrefuses : ∀ fault, ¬ m.Escapes fault)
    (hatOnce : ∀ a, m.strategy = .atOnce a → a.Follows m.bundle input origin) :
    ∃ found, (m.search input origin).answer = .ok found ∧ found.Alike r ∧
      (r.Steady → found.Steady) := by
  rcases m.onDemand_or_atOnce with hstrategy | ⟨a, hstrategy⟩
  · exact ⟨r, answer_of_not_escapes hin hstrategy hfind hrefuses, .refl r, id⟩
  · rcases Automaton.find_alike (hatOnce a hstrategy) hfind ha with ⟨found, hok, halike, hsteady⟩
    refine ⟨found, ?_, halike, fun _ => hsteady⟩
    rw [search_atOnce hin hstrategy]
    exact hok

end Matcher

namespace Session

/-- After any history of searches and questions, a search is answered, and its result matches and
answers every question as the result of a search on demand does. Both go on giving these answers,
whatever is asked, if scans for the groups report all of them. -/
theorem search_alike_find (pattern : Pattern) (bundle : Bundle) (compiler : Option Compiler)
    (tuning : Tuning)
    (hcompiler : ∀ k ∈ compiler, k.OnlyRefuses pattern)
    (hfind : ∀ input origin, Inside input origin →
      ∃ r, (bundle.find input origin).answer = .ok r ∧ (r.found = true → r.Answers))
    (hfollows : ∀ k ∈ compiler, ∀ a, k.compileEager pattern = .ok (some a) → a.groupCount ≠ 0 →
      ∀ input origin, Inside input origin → a.Follows bundle input origin)
    (history : List Command) (name : String) (input : Input) (origin : Int)
    (hin : Inside input origin) :
    ∃ found r : Result,
      (((fresh pattern bundle compiler tuning).run history).search name input origin).answer
        = .ok found ∧
      (bundle.find input origin).answer = .ok r ∧ found.Alike r ∧
      (bundle.ReportsAllGroups → found.Steady ∧ r.Steady) := by
  rcases run_becomes (fresh_engine pattern bundle compiler tuning) history with ⟨m, hm, hbecomes⟩
  rcases hfind input origin hin with ⟨r, hr, ha⟩
  have hbundle : m.bundle = bundle := hbecomes.bundle
  -- The matcher asks the compiler that it was given at first, about the same pattern.
  have hrefuses : ∀ fault, ¬ m.Escapes fault := by
    intro fault hescapes
    have herror := hescapes.2.2
    rw [hbecomes.offer_eq] at herror
    exact Matcher.strategyAfter_ne_error hcompiler fault herror
  have hatOnce : ∀ a, m.strategy = .atOnce a → a.Follows m.bundle input origin := by
    intro a hstrategy
    -- An automaton in use is one that the compiler has offered.
    rcases hbecomes.offer_of_atOnce rfl hstrategy with ⟨hoffer, hcount⟩
    rcases Matcher.offer_eq_some_iff.1 hoffer with ⟨_, k, hk, hoffered⟩
    rw [hbundle]
    exact hfollows k hk a hoffered hcount input origin hin
  have hmfind : (m.bundle.find input origin).answer = .ok r := by
    rw [hbundle]
    exact hr
  rcases Matcher.search_alike hin hmfind ha hrefuses hatOnce with ⟨found, hok, halike, hsteady⟩
  refine ⟨found, r, (search_spec hm name input origin).1.trans hok, hr, halike, ?_⟩
  intro hreports
  have hfresh := (Bundle.fresh_of_find hr).steady ha hreports
  exact ⟨hsteady hfresh, hfresh⟩

end Session

/-! ## A session that changes its strategy -/

def emptyGroupPattern : Pattern := ⟨"()", 0⟩

/-- A compiler that has both kinds of automata for the pattern. -/
def emptyGroupCompiler : Compiler where
  compile _ := .ok (some emptyGroupBundle)
  compileEager _ := .ok (some .emptyGroup)

/-- Change the strategy at the second search, however the pattern is used. -/
def Tuning.soon : Tuning where
  tripPoint := 1
  minCalls := 1
  minMatchPercent := 0
  minGroupAccessPercent := 0

theorem emptyGroupCompiler_onlyRefuses : emptyGroupCompiler.OnlyRefuses emptyGroupPattern := by
  intro fault h
  cases h

def emptyGroupSession : Session :=
  .fresh emptyGroupPattern emptyGroupBundle (some emptyGroupCompiler) .soon

/-- Two searches and questions between them. -/
def emptyGroupHistory : List Command :=
  [.search "first" #[97] 0, .copy "first" "copy", .ask "copy" (.startOfGroup 1), .ask "first" .stop,
    .search "second" #[97, 98] 1]

theorem emptyGroup_search_alike_find :
    (emptyGroupSession.run emptyGroupHistory).engine.hasChanged = true ∧
      ∃ found r : Result,
        ((emptyGroupSession.run emptyGroupHistory).search "third" #[97, 98] 2).answer = .ok found ∧
        (emptyGroupBundle.find #[97, 98] 2).answer = .ok r ∧ found.Alike r ∧
        found.Steady ∧ r.Steady := by
  refine ⟨by rfl, ?_⟩
  rcases Session.search_alike_find emptyGroupPattern emptyGroupBundle (some emptyGroupCompiler)
    .soon (by rintro _ ⟨⟩; exact emptyGroupCompiler_onlyRefuses)
    (fun input origin hin => emptyGroupBundle_find hin)
    (by rintro _ ⟨⟩ _ ⟨⟩ _ input origin hin; exact emptyGroup_follows hin)
    emptyGroupHistory "third" #[97, 98] 2 ⟨by decide, by decide⟩ with
    ⟨found, r, hanswer, hfind, halike, hsteady⟩
  exact ⟨found, r, hanswer, hfind, halike, hsteady emptyGroupBundle_reportsAllGroups⟩

end LazyMatch
