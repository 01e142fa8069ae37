import LazyMatch.Proofs.Session.Accounting
import LazyMatch.Proofs.Session.Transparency

/-!
# Counters after a history

Calls count the searches that were answered and began while the strategy was open, matches those of
them that matched, and accesses the runs of the automaton for the groups, whether they succeeded or
not. A search that fails changes none of them, and once the strategy is no longer open calls and
matches stand still for good (`Session.usage_eq_counts`).
-/

namespace LazyMatch

namespace Matcher

variable {m : Matcher} {input : Input} {origin : Int} {turn : Turn Matcher Result}

/-- Where searches do not count, a search leaves the matcher as it is. -/
theorem Searched.next_of_not_profiles (h : m.Searched input origin turn) (hclosed : ¬ m.Profiles) :
    turn.next = m := by
  cases h with
  | outside => rfl
  | atOnce => rfl
  | failed => rfl
  | unprofiled => rfl
  | counted _ hprofiles => exact absurd hprofiles hclosed
  | changed _ hprofiles => exact absurd hprofiles hclosed
  | escaped => rfl

end Matcher

namespace Session

variable {s : Session} {m : Matcher}

/-! ## Searches that begin while the strategy is open -/

/-- The result that a command gives, if it is a search that is answered and the strategy was open
when it began. -/
def foundWhileOpen? (s : Session) (c : Command) : Option Result :=
  if s.strategy?.any Strategy.isOpen then s.found? c else none

def foundWhileOpen (s : Session) (history : List Command) : List Result :=
  s.gather foundWhileOpen? history

/-- Where searches are profiled, those that count are those that begin while the strategy is
open. -/
theorem profiled_eq_foundWhileOpen (history : List Command) :
    ∀ {s : Session} {m : Matcher}, s.engine = .matcher m → m.tuning.profiling = true →
      s.profiled history = s.foundWhileOpen history := by
  induction history with
  | nil =>
    intro s m _ _
    rfl
  | cons c history ih =>
    intro s m h hprofiling
    have hfirst : s.profiled? c = s.foundWhileOpen? c := by
      simp [profiled?, foundWhileOpen?, strategy?, h, hprofiling]
    rcases serve_becomes h c with ⟨m', hm', hbecomes⟩
    -- The knobs are never turned, so the rest of the history is profiled as well.
    have hstill : m'.tuning.profiling = true := by
      simpa [hbecomes.tuning] using hprofiling
    have hrest :
        (s.serve c).gather profiled? history = (s.serve c).gather foundWhileOpen? history :=
      ih hm' hstill
    simp [profiled, foundWhileOpen, gather, hfirst, hrest]

/-! ## Counters that stand still -/

/-- Where searches do not count, calls and matches stay as they are in every history. -/
theorem counts_of_not_profiles (h : s.engine = .matcher m) (hclosed : ¬ m.Profiles)
    (history : List Command) :
    ∃ m', (s.run history).engine = .matcher m' ∧
      m'.usage.calls = m.usage.calls ∧ m'.usage.matched = m.usage.matched := by
  let Stands (m' : Matcher) : Prop :=
    ¬ m'.Profiles ∧ m'.usage.calls = m.usage.calls ∧ m'.usage.matched = m.usage.matched
  have hsearch : ∀ {m' : Matcher} {input : Input} {origin : Int} {turn : Turn Matcher Result},
      Matcher.Searched m' input origin turn → Stands m' → Stands turn.next := by
    intro m' input origin turn hsearched hstands
    have hsame : turn.next = m' := hsearched.next_of_not_profiles hstands.1
    simpa [hsame] using hstands
  -- Accesses to groups are counted in a counter of their own.
  have hcredit : ∀ {m' : Matcher} (events : List Event), Stands m' → Stands (m'.credit events) := by
    intro m' events hstands
    exact hstands
  rcases run_preserves (P := Stands) hsearch hcredit h ⟨hclosed, rfl, rfl⟩ history with
    ⟨m', hm', _, hcalls, hmatched⟩
  exact ⟨m', hm', hcalls, hmatched⟩

/-- A search that fails leaves the matcher as it was. -/
theorem search_error_engine (h : s.engine = .matcher m) {name : String} {input : Input}
    {origin : Int} {fault : Fault} (hfault : (s.search name input origin).answer = .error fault) :
    (s.search name input origin).next.engine = .matcher m := by
  rcases search_spec h name input origin with ⟨hanswer, hengine, _⟩
  have hsearched := m.search_cases input origin
  have hnext : (m.search input origin).next = m :=
    hsearched.next_of_error (hanswer.symm.trans hfault)
  simpa [hnext] using hengine

/-- After every history the counters equal what happened in it, as words, and as numbers too if the
history is shorter than a word can count. With profiling on, calls count the searches that were
answered and began while the strategy was open, and matches those among them that matched; with
profiling off both stay 0. Accesses count the runs of the automaton for the groups, whatever these
answered. A search that fails leaves the matcher as it is, and once the strategy is not open, calls
and matches no longer change. -/
theorem usage_eq_counts (pattern : Pattern) (bundle : Bundle) (compiler : Option Compiler)
    (tuning : Tuning) (history : List Command) :
    let s := fresh pattern bundle compiler tuning
    let counted := s.foundWhileOpen history
    let scans := (s.run history).tally.capture
    ∃ m, (s.run history).engine = .matcher m ∧
      (tuning.profiling = true →
        m.usage.calls = .ofNat counted.length ∧
          m.usage.matched = .ofNat (counted.countP Result.found)) ∧
      (tuning.profiling = false → m.usage.calls = 0 ∧ m.usage.matched = 0) ∧
      m.usage.groupAccesses = .ofNat scans ∧
      (history.length < 2 ^ 64 →
        (tuning.profiling = true →
          m.usage.calls.toNat = counted.length ∧
            m.usage.matched.toNat = counted.countP Result.found) ∧
          m.usage.matched ≤ m.usage.calls ∧ m.usage.groupAccesses.toNat = scans) ∧
      (∀ name input origin fault,
        ((s.run history).search name input origin).answer = .error fault →
          ((s.run history).search name input origin).next.engine = .matcher m) ∧
      (m.strategy ≠ .onDemand → ∀ later, ∃ m', (s.run (history ++ later)).engine = .matcher m' ∧
        m'.usage.calls = m.usage.calls ∧ m'.usage.matched = m.usage.matched) := by
  intro s counted scans
  have hrun : ∃ m, (s.run history).Accounts m (s.profiled history) :=
    accounts pattern bundle compiler tuning history
  rcases hrun with ⟨m, haccounts⟩
  have hengine : (s.run history).engine = .matcher m := haccounts.engine
  have hprofiled : tuning.profiling = true → s.profiled history = counted := by
    intro hprofiling
    have hengine := fresh_engine pattern bundle compiler tuning
    exact profiled_eq_foundWhileOpen history hengine hprofiling
  have hwords : tuning.profiling = true →
      m.usage.calls = .ofNat counted.length ∧
        m.usage.matched = .ofNat (counted.countP Result.found) := by
    intro hprofiling
    rw [← hprofiled hprofiling]
    exact ⟨haccounts.usage.calls, haccounts.usage.matched⟩
  refine ⟨m, hengine, hwords, ?_, haccounts.usage.groupAccesses, ?_, ?_, ?_⟩
  · intro hoff
    -- The knob is off from the beginning, so the counters stand at what they were then.
    have hclosed : ¬ (Matcher.new pattern bundle compiler tuning).Profiles := by
      intro hprofiles
      exact Bool.false_ne_true (hoff.symm.trans hprofiles.1)
    rcases counts_of_not_profiles (fresh_engine pattern bundle compiler tuning) hclosed history with
      ⟨m', hm', hcalls, hmatched⟩
    rcases matcher_unique hengine hm' with rfl
    exact ⟨hcalls, hmatched⟩
  · intro hlength
    have hnumbers : (s.profiled history).length ≤ history.length ∧ scans ≤ history.length :=
      numbers_le_length pattern bundle compiler tuning history
    have hmatches : (s.profiled history).countP Result.found ≤ (s.profiled history).length :=
      List.countP_le_length
    have hcalls : m.usage.calls.toNat = (s.profiled history).length := by
      rw [haccounts.usage.calls]
      exact UInt64.toNat_ofNat_of_lt' (hnumbers.1.trans_lt hlength)
    have hmatched : m.usage.matched.toNat = (s.profiled history).countP Result.found := by
      rw [haccounts.usage.matched]
      exact UInt64.toNat_ofNat_of_lt' ((hmatches.trans hnumbers.1).trans_lt hlength)
    refine ⟨?_, ?_, ?_⟩
    · intro hprofiling
      rw [← hprofiled hprofiling]
      exact ⟨hcalls, hmatched⟩
    · apply UInt64.le_iff_toNat_le.2
      simpa [hcalls, hmatched] using hmatches
    · rw [haccounts.usage.groupAccesses]
      exact UInt64.toNat_ofNat_of_lt' (hnumbers.2.trans_lt hlength)
  · intro name input origin fault hfault
    exact search_error_engine hengine hfault
  · intro hclosed later
    have hprofiles : ¬ m.Profiles := by
      intro hprofiles
      exact hclosed hprofiles.2
    simpa [run_append] using counts_of_not_profiles hengine hprofiles later

end Session

/-- In the history of the pattern `()` both searches match and count, and one group is asked for;
the second search changes the strategy. A further search beyond its input fails and counts nothing,
and neither does any search after it. Where the searches are not profiled, none of them counts. -/
theorem emptyGroupHistory_usage :
    (∃ m, (emptyGroupSession.run emptyGroupHistory).engine = .matcher m ∧
      m.usage.calls.toNat = 2 ∧ m.usage.matched.toNat = 2 ∧ m.usage.groupAccesses.toNat = 1 ∧
      ((emptyGroupSession.run emptyGroupHistory).search "third" #[97] 2).next.engine = .matcher m ∧
      ∀ later, ∃ m', (emptyGroupSession.run (emptyGroupHistory ++ later)).engine = .matcher m' ∧
        m'.usage.calls = m.usage.calls ∧ m'.usage.matched = m.usage.matched) ∧
      ∃ m, ((Session.fresh emptyGroupPattern emptyGroupBundle (some emptyGroupCompiler)
          { Tuning.soon with profiling := false }).run emptyGroupHistory).engine = .matcher m ∧
        m.usage.calls = 0 ∧ m.usage.matched = 0 := by
  have hlength : emptyGroupHistory.length < 2 ^ 64 := by decide
  have hcounted : (emptyGroupSession.foundWhileOpen emptyGroupHistory).length = 2 := by rfl
  have hmatched : (emptyGroupSession.foundWhileOpen emptyGroupHistory).countP Result.found = 2 := by
    rfl
  have hscans : (emptyGroupSession.run emptyGroupHistory).tally.capture = 1 := by rfl
  have hthird : ((emptyGroupSession.run emptyGroupHistory).search "third" #[97] 2).answer =
      .error (.range (.searchIndex 2 1)) := by rfl
  have hchanged : (emptyGroupSession.run emptyGroupHistory).strategy? =
      some (.atOnce .emptyGroup) := by rfl
  constructor
  · rcases Session.usage_eq_counts emptyGroupPattern emptyGroupBundle (some emptyGroupCompiler)
      .soon emptyGroupHistory with ⟨m, hengine, _, _, _, hnumbers, hfails, hclosed⟩
    rcases hnumbers hlength with ⟨hsearches, _, haccesses⟩
    rcases hsearches rfl with ⟨hcalls, hmatches⟩
    have hstrategy : m.strategy ≠ .onDemand := by
      intro hopen
      have hopened := (Session.strategy?_eq hengine).symm.trans hchanged
      rw [hopen] at hopened
      cases hopened
    exact ⟨m, hengine, hcalls.trans hcounted, hmatches.trans hmatched, haccesses.trans hscans,
      hfails "third" #[97] 2 _ hthird, hclosed hstrategy⟩
  · rcases Session.usage_eq_counts emptyGroupPattern emptyGroupBundle (some emptyGroupCompiler)
      { Tuning.soon with profiling := false } emptyGroupHistory with ⟨m, hengine, _, hoff, _⟩
    exact ⟨m, hengine, hoff rfl⟩

end LazyMatch
