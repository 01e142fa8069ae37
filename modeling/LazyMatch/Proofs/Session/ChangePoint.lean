import LazyMatch.Proofs.Session.Accounting
import LazyMatch.Proofs.Session.Strategy
import LazyMatch.Proofs.Session.Transparency
import Mathlib.Order.Bounds.Basic

/-!
# When the strategy changes

A matcher that profiles its searches changes its strategy during the search that follows the first
number of searches for which the numbers call for it, and never again
(`Session.change_at_least_due`). The proof goes along the history: before that search the strategy
is open and nothing is due, with it the strategy changes, and after it nothing does
(`Session.Course`).
-/

namespace LazyMatch

namespace Session

variable {s : Session}

/-! ## When a change is due -/

/-- The numbers call for another strategy before this command, which is a search that is
answered. -/
structure DueBefore (s : Session) (tuning : Tuning) (history : List Command) (c : Command) :
    Prop where
  answered : ((s.run history).found? c).isSome = true
  due : tuning.Due (s.results history).length ((s.results history).countP Result.found)
    (s.run history).tally.capture

/-- The numbers call for another strategy after `n` searches that were answered, and there is
another one. -/
def DueAfter (s : Session) (tuning : Tuning) (history : List Command) (n : Nat) : Prop :=
  ∃ before c rest, history = before ++ c :: rest ∧ s.DueBefore tuning before c ∧
    (s.results before).length = n

/-! ## The course of a history -/

/-- Either nothing has been due and the strategy is open, or it changed with the first search before
which it was due, and has remained so. -/
inductive Course (s : Session) (tuning : Tuning) (chosen : Strategy) (calls : Nat)
    (history : List Command) : Prop
  | unchanged (hstrategy : (s.run history).strategy? = some .onDemand)
      (hcalls : (s.run history).tally.compileEager = 0)
      (hnever : ∀ before c rest, history = before ++ c :: rest → ¬ s.DueBefore tuning before c)
  | changed {before rest : List Command} {c : Command} (hsplit : history = before ++ c :: rest)
      (hdue : s.DueBefore tuning before c)
      (hnever : ∀ earlier d between, before = earlier ++ d :: between →
        ¬ s.DueBefore tuning earlier d)
      (hopen : (s.run before).strategy? = some .onDemand)
      (hchange : (s.run (before ++ [c])).strategy? = some chosen)
      (hstrategy : (s.run history).strategy? = some chosen)
      (hcalls : (s.run history).tally.compileEager = calls)

theorem split_concat {history before rest : List Command} {c d : Command}
    (h : history ++ [c] = before ++ d :: rest) :
    before = history ∧ d = c ∨ ∃ rest', history = before ++ d :: rest' := by
  rcases rest.eq_nil_or_concat with rfl | ⟨rest', last, rfl⟩
  · rcases List.append_inj' h rfl with ⟨hbefore, hlast⟩
    cases hlast
    exact .inl ⟨hbefore.symm, rfl⟩
  · rw [List.concat_eq_append, ← List.cons_append, ← List.append_assoc] at h
    exact .inr ⟨rest', (List.append_inj' h rfl).1⟩

section

variable {pattern : Pattern} {bundle : Bundle} {compiler : Option Compiler} {tuning : Tuning}

/-- While the strategy is open and the counters are small, the words and the numbers call for a
change alike. -/
theorem due_iff_of_open (hs : s = fresh pattern bundle compiler tuning)
    (hprofiling : tuning.profiling = true) {history : List Command}
    (hsmall : s.StaysSmall history) (hopen : (s.run history).strategy? = some .onDemand) :
    ∃ m, (s.run history).engine = .matcher m ∧
      (Matcher.new pattern bundle compiler tuning).Becomes m ∧ m.Profiles ∧
      (m.Due ↔ tuning.Due (s.results history).length ((s.results history).countP Result.found)
        (s.run history).tally.capture) := by
  subst hs
  have hengine := fresh_engine pattern bundle compiler tuning
  rcases profiles_of_open hengine hprofiling hopen with ⟨m, hm, hbecomes, hprofiles⟩
  refine ⟨m, hm, hbecomes, hprofiles, ?_⟩
  -- As long as the strategy is open, the searches that count are those that are answered.
  have hresults := profiled_eq_results hengine hprofiling history hopen
  rcases hsmall history (List.prefix_refl _) m hm with ⟨hcalls, haccesses⟩
  rcases toNat_usage pattern bundle compiler tuning history hsmall with
    ⟨m', hm', hcallsNat, hmatchedNat, haccessesNat⟩
  rcases matcher_unique hm hm' with rfl
  have hmatched : m.usage.matched.toNat ≤ 2 ^ 32 := by
    rw [hmatchedNat]
    rw [hcallsNat] at hcalls
    exact List.countP_le_length.trans hcalls
  rw [Matcher.Due, Usage.due_iff hcalls hmatched haccesses, hbecomes.tuning, hcallsNat, hmatchedNat,
    haccessesNat, hresults]
  rfl

theorem course (hs : s = fresh pattern bundle compiler tuning)
    (hprofiling : tuning.profiling = true) {chosen : Strategy}
    (hchosen : Matcher.strategyAfter (Matcher.new pattern bundle compiler tuning).offer = .ok chosen)
    (history : List Command) (hsmall : s.StaysSmall history) :
    s.Course tuning chosen
      (if (Matcher.new pattern bundle compiler tuning).offer.isSome then 1 else 0) history := by
  -- The next command either is the first one before which a change is due, or changes nothing.
  induction history using List.reverseRecOn with
  | nil =>
    refine .unchanged (by rw [hs]; rfl) (by rw [hs]; rfl) ?_
    intro before c rest hsplit
    cases before <;> cases hsplit
  | append_singleton history c ih =>
    have hbefore := hsmall.earlier (List.prefix_append history [c])
    cases ih hbefore with
    | unchanged hstrategy hcalls hnever =>
      rcases due_iff_of_open hs hprofiling hbefore hstrategy with ⟨m, hm, hbecomes, hprofiles, hdue⟩
      have hrefuses : ∀ fault, ¬ m.Escapes fault := by
        intro fault hescapes
        have herror := hescapes.2.2
        rw [hbecomes.offer_eq, hchosen] at herror
        cases herror
      rcases serve_strategy hm hrefuses c with ⟨m', hm', hcases⟩
      rw [← run_concat] at hm' hcases
      rcases hcases with ⟨hchanges, hafter, hcalled⟩ | ⟨hunchanged, hsame, hcalled⟩
      · -- The words call for a change before this command, and so do the numbers.
        rw [hbecomes.offer_eq, hchosen, Except.ok.injEq] at hafter
        rw [hbecomes.offer_eq, hcalls, Nat.zero_add] at hcalled
        have hnow : (s.run (history ++ [c])).strategy? = some chosen := by
          rw [strategy?_eq hm', hafter]
        exact .changed rfl ⟨hchanges.2, hdue.1 hchanges.1.2⟩ hnever hstrategy hnow hnow hcalled
      · refine .unchanged ?_ (hcalled.trans hcalls) ?_
        · rw [strategy?_eq hm', hsame, hprofiles.2]
        · intro before d rest hsplit hdueBefore
          rcases split_concat hsplit with ⟨rfl, rfl⟩ | ⟨rest', hearlier⟩
          · exact hunchanged ⟨⟨hprofiles, hdue.2 hdueBefore.due⟩, hdueBefore.answered⟩
          · exact hnever before d rest' hearlier hdueBefore
    | @changed before rest d hsplit hdue hnever hopen hchange hstrategy hcalls =>
      -- The strategy is no longer open, so nothing can change it.
      have hengine : s.engine = .matcher (.new pattern bundle compiler tuning) :=
        hs ▸ fresh_engine pattern bundle compiler tuning
      rcases run_becomes hengine history with ⟨m, hm, _⟩
      rw [strategy?_eq hm, Option.some.injEq] at hstrategy
      have hclosed : ¬ m.Profiles := by
        intro hprofiles
        rw [← hstrategy, hprofiles.2] at hchosen
        exact Matcher.strategyAfter_ne_onDemand _ hchosen
      rcases run_of_not_profiles hm hclosed [c] with ⟨hlater, hcalled⟩
      rw [← run_append] at hlater hcalled
      rw [hstrategy] at hlater
      have hlonger : history ++ [c] = before ++ d :: (rest ++ [c]) := by
        rw [hsplit, List.append_assoc]
        rfl
      exact .changed hlonger hdue hnever hopen hchange hlater (hcalled.trans hcalls)

/-- A compiler that only refuses patterns makes one strategy possible. -/
theorem exists_chosen (bundle : Bundle) (tuning : Tuning)
    (hcompiler : ∀ k ∈ compiler, k.OnlyRefuses pattern) :
    ∃ chosen,
      Matcher.strategyAfter (Matcher.new pattern bundle compiler tuning).offer = .ok chosen ∧
      (∀ a, chosen = .atOnce a ↔ tuning.allowEager = true ∧
        ∃ k ∈ compiler, k.compileEager pattern = .ok (some a) ∧ a.groupCount ≠ 0) ∧
      ((∀ a, chosen ≠ .atOnce a) → chosen = .settled) := by
  cases hafter : Matcher.strategyAfter (Matcher.new pattern bundle compiler tuning).offer with
  | error fault => exact absurd hafter (Matcher.strategyAfter_ne_error hcompiler fault)
  | ok chosen =>
    refine ⟨chosen, rfl, ?_, Matcher.eq_settled_of_strategyAfter hafter⟩
    intro a
    rw [← Except.ok.injEq (ε := Fault), ← hafter, Matcher.strategyAfter_eq_atOnce_iff,
      Matcher.offer_eq_some_iff]
    constructor
    · rintro ⟨⟨hallow, k, hk, hoffered⟩, hcount⟩
      exact ⟨hallow, k, hk, hoffered, hcount⟩
    · rintro ⟨hallow, k, hk, hoffered, hcount⟩
      exact ⟨⟨hallow, k, hk, hoffered⟩, hcount⟩

/-- If nothing was due earlier, the least number of searches after which a change is due is the
number of those before it. -/
theorem length_eq_of_isLeast {history before rest : List Command} {c : Command} {n : Nat}
    (hsplit : history = before ++ c :: rest) (hdue : s.DueBefore tuning before c)
    (hnever : ∀ earlier d between, before = earlier ++ d :: between →
      ¬ s.DueBefore tuning earlier d)
    (hleast : IsLeast {n | s.DueAfter tuning history n} n) : (s.results before).length = n := by
  have hle : n ≤ (s.results before).length := hleast.2 ⟨before, c, rest, hsplit, hdue, rfl⟩
  rcases hleast.1 with ⟨before', c', rest', hsplit', hdue', hlength⟩
  rw [hsplit] at hsplit'
  rcases List.append_eq_append_iff.1 hsplit' with ⟨between, hbetween, _⟩ | ⟨between, hbetween, hrest⟩
  · -- The least number belongs to a point that is not earlier, so it is not smaller either.
    have hge : (s.results before).length ≤ n := by
      calc
        (s.results before).length ≤ (s.results before').length := by
          rw [hbetween, results, results, gather_append, List.length_append]
          exact Nat.le_add_right _ _
        _ = n := hlength
    exact Nat.le_antisymm hge hle
  · cases between with
    | nil =>
      rw [hbetween, List.append_nil]
      exact hlength
    | cons d between =>
      cases hrest
      exact absurd hdue' (hnever _ _ _ hbetween)

end

/-- A matcher leaves its first strategy during the search after the least number of answered
searches for which the numbers call for it: it finds everything at once from then on if it may and
its compiler has an automaton that follows groups, and has otherwise settled that it never does. It
calls its compiler then, if it has one and may, and at no other time. As long as there is no such
number, or if it does not profile its searches at all, nothing of this happens. -/
theorem change_at_least_due (pattern : Pattern) (bundle : Bundle) (compiler : Option Compiler)
    (tuning : Tuning) (hcompiler : ∀ k ∈ compiler, k.OnlyRefuses pattern) (history : List Command)
    (hsmall : (fresh pattern bundle compiler tuning).StaysSmall history) :
    let s := fresh pattern bundle compiler tuning
    ∃ chosen : Strategy,
      (∀ a, chosen = .atOnce a ↔ tuning.allowEager = true ∧
        ∃ k ∈ compiler, k.compileEager pattern = .ok (some a) ∧ a.groupCount ≠ 0) ∧
      ((∀ a, chosen ≠ .atOnce a) → chosen = .settled) ∧
      (tuning.profiling = true → ∀ n, IsLeast {n | s.DueAfter tuning history n} n →
        ∃ before c rest, history = before ++ c :: rest ∧ (s.results before).length = n ∧
          ((s.run before).found? c).isSome = true ∧
          (s.run before).strategy? = some .onDemand ∧
          (s.run (before ++ [c])).strategy? = some chosen ∧
          (s.run history).strategy? = some chosen ∧
          (s.run history).tally.compileEager =
            if tuning.allowEager && compiler.isSome then 1 else 0) ∧
      ((tuning.profiling = true → ∀ n, ¬ s.DueAfter tuning history n) →
        (s.run history).strategy? = some .onDemand ∧
          (s.run history).tally.compileEager = 0) := by
  intro s
  rcases exists_chosen bundle tuning hcompiler with ⟨chosen, hchosen, hatOnce, hsettled⟩
  have hcourse : tuning.profiling = true → _ := fun hprofiling =>
    course rfl hprofiling hchosen history hsmall
  have hoffer : (Matcher.new pattern bundle compiler tuning).offer.isSome =
      (tuning.allowEager && compiler.isSome) :=
    Matcher.offer_isSome _
  refine ⟨chosen, hatOnce, hsettled, ?_, ?_⟩
  · intro hprofiling n hleast
    rw [← hoffer]
    cases hcourse hprofiling with
    | unchanged _ _ hnever =>
      rcases hleast.1 with ⟨before, c, rest, hsplit, hdue, _⟩
      exact absurd hdue (hnever before c rest hsplit)
    | @changed before rest c hsplit hdue hnever hopen hchange hstrategy hcalls =>
      have hlength := length_eq_of_isLeast hsplit hdue hnever hleast
      exact ⟨before, c, rest, hsplit, hlength, hdue.answered, hopen, hchange, hstrategy, hcalls⟩
  · intro hnone
    by_cases hprofiling : tuning.profiling = true
    · cases hcourse hprofiling with
      | unchanged hstrategy hcalls => exact ⟨hstrategy, hcalls⟩
      | @changed before rest c hsplit hdue =>
        exact absurd ⟨before, c, rest, hsplit, hdue, rfl⟩ (hnone hprofiling _)
    · -- Without profiling no search counts, and the matcher stays as it is.
      have hclosed : ¬ (Matcher.new pattern bundle compiler tuning).Profiles :=
        fun hprofiles => hprofiling hprofiles.1
      exact run_of_not_profiles rfl hclosed history

end Session

theorem emptyGroupHistory_changes :
    (∃ before c rest, emptyGroupHistory = before ++ c :: rest ∧
        (emptyGroupSession.results before).length = 1 ∧
        (emptyGroupSession.run before).strategy? = some .onDemand ∧
        (emptyGroupSession.run (before ++ [c])).strategy? = some (.atOnce .emptyGroup)) ∧
      (emptyGroupSession.run emptyGroupHistory).tally.compileEager = 1 := by
  have hcompiler : ∀ k ∈ some emptyGroupCompiler, k.OnlyRefuses emptyGroupPattern := by
    rintro _ ⟨⟩
    exact emptyGroupCompiler_onlyRefuses
  have hlength : emptyGroupHistory.length ≤ 2 ^ 32 := by decide
  -- With these knobs the strategy is reconsidered at every search but the first.
  have hdue : emptyGroupSession.DueBefore .soon (emptyGroupHistory.take 4)
      (.search "second" #[97, 98] 1) := by
    refine ⟨by decide, ?_⟩
    change Tuning.soon.Due 1 1 1
    refine ⟨?_, ?_, ?_, ?_, ?_⟩ <;> decide
  have hleast : IsLeast {n | emptyGroupSession.DueAfter .soon emptyGroupHistory n} 1 := by
    refine ⟨⟨_, _, [], rfl, hdue, rfl⟩, ?_⟩
    rintro n ⟨before, c, rest, _, hdue, rfl⟩
    exact hdue.due.1
  rcases Session.change_at_least_due emptyGroupPattern emptyGroupBundle (some emptyGroupCompiler)
    .soon hcompiler emptyGroupHistory (Session.staysSmall_of_length _ _ _ _ hlength) with
    ⟨chosen, hatOnce, _, hchange, _⟩
  have hchosen : chosen = .atOnce .emptyGroup :=
    (hatOnce .emptyGroup).2 ⟨rfl, emptyGroupCompiler, rfl, rfl, by decide⟩
  rcases hchange rfl 1 hleast with ⟨before, c, rest, hsplit, hresults, _, hopen, hat, _, hcalls⟩
  rw [hchosen] at hat
  exact ⟨⟨before, c, rest, hsplit, hresults, hopen, hat⟩, hcalls⟩

end LazyMatch
