import LazyMatch.Proofs.Session.History
import LazyMatch.Proofs.Usage

/-!
# What the counters count

In every history of a matcher, its counters stand for what happened in it: calls for the searches
that counted, matches for those among them that matched, and accesses for the scans for groups
(`Session.accounts`). Counters are words, so they stand for these numbers up to multiples of `2 ^
64`; as long as they are seen to stay small, they are these numbers (`Session.le_of_small`).
-/

namespace LazyMatch

/-- The counters stand for these numbers, up to the size of a word. -/
structure Usage.Counts (u : Usage) (n m g : Nat) : Prop where
  calls : u.calls = UInt64.ofNat n
  matched : u.matched = UInt64.ofNat m
  groupAccesses : u.groupAccesses = UInt64.ofNat g

namespace Usage.Counts

variable {u : Usage} {n m g : Nat}

theorem none : Usage.none.Counts 0 0 0 := ⟨rfl, rfl, rfl⟩

theorem countSearch (h : u.Counts n m g) (found : Bool) :
    (u.countSearch found).Counts (n + 1) (m + if found then 1 else 0) g := by
  refine ⟨?_, ?_, h.groupAccesses⟩
  · rw [Usage.countSearch, h.calls, UInt64.ofNat_add]
    rfl
  · rw [Usage.countSearch, h.matched]
    cases found with
    | false => rfl
    | true =>
      rw [if_pos rfl, if_pos rfl, UInt64.ofNat_add]
      rfl

theorem countAccesses (h : u.Counts n m g) (k : Nat) :
    (u.countAccesses k).Counts n m (g + k) := by
  refine ⟨h.calls, h.matched, ?_⟩
  rw [Usage.countAccesses, h.groupAccesses, UInt64.ofNat_add]

end Usage.Counts

namespace Session

variable {s : Session} {m : Matcher}

/-- All that is kept are results of the matcher in place, and asking them counts. -/
def KeepsOwn (s : Session) : Prop :=
  ∀ name kept, s.kept.get? name = some kept →
    kept.owner = .matcher s.generation ∧ kept.result.Counted

/-- The counters of the matcher stand for the results counted so far and the scans for groups. -/
structure Accounts (s : Session) (m : Matcher) (counted : List Result) : Prop where
  engine : s.engine = .matcher m
  keepsOwn : s.KeepsOwn
  usage : m.usage.Counts counted.length (counted.countP Result.found) s.tally.capture

theorem KeepsOwn.put {next : Session} (h : s.KeepsOwn) (name : String) {kept : Kept}
    (howner : kept.owner = .matcher s.generation) (hcounted : kept.result.Counted)
    (hgeneration : next.generation = s.generation) (hkept : next.kept = s.kept.put name kept) :
    next.KeepsOwn := by
  intro other kept' hother
  rw [hkept] at hother
  rw [hgeneration]
  by_cases hname : other = name
  · subst hname
    rw [Shelf.get?_put_self] at hother
    cases hother
    exact ⟨howner, hcounted⟩
  · rw [Shelf.get?_put_of_ne _ _ hname] at hother
    exact h other kept' hother

theorem observe_own (h : s.engine = .matcher m) (events : List Event) :
    s.observe (.matcher s.generation) events =
      { s with engine := .matcher (m.credit events), tally := s.tally.addAll events } := by
  simp [observe, h, Engine.credit]

theorem Accounts.searched {counted : List Result} {input : Input} {origin : Int}
    {turn : Turn Matcher Result} (h : s.Accounts m counted) (hsearched : m.Searched input origin turn)
    {r : Result} (hr : turn.answer = .ok r) {c : Command} (hfound : s.found? c = some r) :
    let all := counted ++ (s.profiled? c).toList
    turn.next.usage.Counts all.length (all.countP Result.found)
      (s.tally.addAll turn.events).capture := by
  intro all
  rw [(s.tally.addAll_counts turn.events).1, hsearched.countP_isGroupScan, Nat.add_zero]
  rcases hsearched.usage_of_ok hr with ⟨hprofiles, husage⟩ | ⟨hprofiles, husage⟩
  · have hall : all = counted ++ [r] := by
      simp only [all, profiled?_of_profiles h.engine hprofiles, hfound, Option.toList_some]
    rw [husage, hall, List.length_append, List.countP_append, List.countP_singleton]
    exact h.usage.countSearch r.found
  · have hall : all = counted := by
      simp only [all, profiled?_of_not_profiles h.engine hprofiles, Option.toList_none,
        List.append_nil]
    rw [husage, hall]
    exact h.usage

theorem Accounts.serve {counted : List Result} (h : s.Accounts m counted) (c : Command) :
    ∃ m', (s.serve c).Accounts m' (counted ++ (s.profiled? c).toList) := by
  have hserved := serve_cases h.engine c
  -- A command that gives no result adds none to those that are counted.
  have hunprofiled : s.found? c = none → counted ++ (s.profiled? c).toList = counted := by
    intro hfound
    have hnone : s.profiled? c = none := by
      by_cases hprofiles : m.Profiles
      · rw [profiled?_of_profiles h.engine hprofiles, hfound]
      · exact profiled?_of_not_profiles h.engine hprofiles c
    rw [hnone, Option.toList_none, List.append_nil]
  generalize s.serve c = next at hserved ⊢
  cases hserved with
  | answered hsearched hanswer hfound =>
    refine ⟨_, rfl, ?_, h.searched hsearched hanswer hfound⟩
    exact h.keepsOwn.put _ rfl (hsearched.counted_of_ok hanswer) rfl rfl
  | refused hsearched hanswer hfound =>
    -- A search that fails leaves the usage alone, whatever it has run.
    rw [hunprofiled hfound, hsearched.next_of_error hanswer]
    refine ⟨m, rfl, h.keepsOwn, ?_⟩
    rw [(s.tally.addAll_counts _).1, hsearched.countP_isGroupScan, Nat.add_zero]
    exact h.usage
  | @asked name accessor kept hkept =>
    rw [hunprofiled rfl]
    rcases h.keepsOwn name kept hkept with ⟨howner, hcounted⟩
    -- The result belongs to the matcher in place: what it notes is counted there, scan by scan.
    have hbalanced := (kept.result.access_keeps accessor).1
    let asked : Kept := ⟨(kept.result.access accessor).next, .matcher s.generation⟩
    have hasked : asked.result.Counted := hcounted.access accessor
    rw [howner, observe_own h.engine]
    refine ⟨_, rfl, ?_, ?_⟩
    · exact h.keepsOwn.put name rfl hasked rfl rfl
    · rw [(s.tally.addAll_counts _).1, ← hbalanced.noted hcounted]
      exact h.usage.countAccesses _
  | @copied name target kept hkept =>
    rw [hunprofiled rfl]
    rcases h.keepsOwn name kept hkept with ⟨howner, hcounted⟩
    exact ⟨m, h.engine, h.keepsOwn.put target howner hcounted rfl rfl, h.usage⟩
  | ignored hfound =>
    rw [hunprofiled hfound]
    exact ⟨m, h⟩

/-- In every history the counters stand for what happened in it. -/
theorem accounts (pattern : Pattern) (bundle : Bundle) (compiler : Option Compiler)
    (tuning : Tuning) (history : List Command) :
    let s := fresh pattern bundle compiler tuning
    ∃ m, (s.run history).Accounts m (s.profiled history) := by
  intro s
  -- The history grows at its end, where the next command is served.
  induction history using List.reverseRecOn with
  | nil =>
    refine ⟨.new pattern bundle compiler tuning, rfl, ?_, .none⟩
    intro name kept hkept
    cases hkept
  | append_singleton history c ih =>
    rcases ih with ⟨m, hm⟩
    rw [run_concat, profiled, gather_concat]
    exact hm.serve c

/-! ## Counters that stay small -/

theorem capture_serve_le (h : s.engine = .matcher m) (c : Command) :
    (s.serve c).tally.capture ≤ s.tally.capture + 1 := by
  have hserved := serve_cases h c
  generalize s.serve c = next at hserved ⊢
  cases hserved with
  | answered hsearched =>
    rw [(s.tally.addAll_counts _).1, hsearched.countP_isGroupScan]
    exact Nat.le_succ _
  | refused hsearched =>
    rw [(s.tally.addAll_counts _).1, hsearched.countP_isGroupScan]
    exact Nat.le_succ _
  | @asked name accessor kept hkept =>
    have honce := (kept.result.access_keeps accessor).1.once
    simp only [tally_observe, s.tally.addAll_counts]
    omega
  | copied => exact Nat.le_succ _
  | ignored => exact Nat.le_succ _

theorem length_profiled_concat_le (s : Session) (history : List Command) (c : Command) :
    (s.profiled (history ++ [c])).length ≤ (s.profiled history).length + 1 := by
  rw [profiled, gather_concat, List.length_append]
  cases (s.run history).profiled? c <;> simp [profiled]

theorem capture_concat_le (h : s.engine = .matcher m) (history : List Command) (c : Command) :
    (s.run (history ++ [c])).tally.capture ≤ (s.run history).tally.capture + 1 := by
  rcases run_becomes h history with ⟨m', hm', _⟩
  rw [run_concat]
  exact capture_serve_le hm' c

/-- A number that grows by one at most with each command is at most their number. -/
theorem le_length (f : List Command → Nat) (hnil : f [] = 0)
    (hstep : ∀ history c, f (history ++ [c]) ≤ f history + 1) (history : List Command) :
    f history ≤ history.length := by
  induction history using List.reverseRecOn with
  | nil => exact Nat.le_of_eq hnil
  | append_singleton history c ih =>
    rw [List.length_append]
    exact (hstep history c).trans (Nat.add_le_add_right ih 1)

/-- If moreover its word stays below some bound in the whole history, so does the number itself. -/
theorem le_of_small (f : List Command → Nat) (bound : Nat) (hbound : bound + 1 < 2 ^ 64)
    (hnil : f [] = 0) (hstep : ∀ history c, f (history ++ [c]) ≤ f history + 1)
    (history : List Command)
    (hsmall : ∀ before, before <+: history → (UInt64.ofNat (f before)).toNat ≤ bound) :
    f history ≤ bound := by
  induction history using List.reverseRecOn with
  | nil =>
    rw [hnil]
    exact Nat.zero_le bound
  | append_singleton history c ih =>
    have hbefore : f history ≤ bound :=
      ih fun before hinitial => hsmall before (hinitial.trans (List.prefix_append _ _))
    -- One step beyond the bound does not reach the size of a word, so the word is the number.
    have hnext := hstep history c
    have hword := hsmall (history ++ [c]) (List.prefix_refl _)
    rwa [UInt64.toNat_ofNat', Nat.mod_eq_of_lt (by omega)] at hword

/-- Throughout a history the counters stay so small that nothing computed from them wraps. -/
def StaysSmall (s : Session) (history : List Command) : Prop :=
  ∀ before, before <+: history → ∀ m, (s.run before).engine = .matcher m →
    m.usage.calls.toNat ≤ 2 ^ 32 ∧ 100 * m.usage.groupAccesses.toNat < 2 ^ 64

theorem StaysSmall.earlier {history before : List Command} (h : s.StaysSmall history)
    (hinitial : before <+: history) : s.StaysSmall before :=
  fun earlier hearlier => h earlier (hearlier.trans hinitial)

section

variable (pattern : Pattern) (bundle : Bundle) (compiler : Option Compiler) (tuning : Tuning)

/-- No history counts more searches, or scans for groups more often, than it has commands. -/
theorem numbers_le_length (history : List Command) :
    let s := fresh pattern bundle compiler tuning
    (s.profiled history).length ≤ history.length ∧
      (s.run history).tally.capture ≤ history.length := by
  intro s
  have hcalls : (s.profiled history).length ≤ history.length :=
    le_length (fun history => (s.profiled history).length) rfl s.length_profiled_concat_le history
  have haccesses : (s.run history).tally.capture ≤ history.length :=
    le_length (fun history => (s.run history).tally.capture) rfl (capture_concat_le rfl) history
  exact ⟨hcalls, haccesses⟩

/-- The counters stay small in every history that is not too long. -/
theorem staysSmall_of_length {history : List Command} (hlength : history.length ≤ 2 ^ 32) :
    (fresh pattern bundle compiler tuning).StaysSmall history := by
  intro before hinitial m hm
  let s := fresh pattern bundle compiler tuning
  have hrun : ∃ m, (s.run before).Accounts m (s.profiled before) :=
    accounts pattern bundle compiler tuning before
  rcases hrun with ⟨m', haccounts⟩
  rcases matcher_unique hm haccounts.engine with rfl
  have hbefore : before.length ≤ 2 ^ 32 := hinitial.length_le.trans hlength
  have hnumbers : (s.profiled before).length ≤ before.length ∧
      (s.run before).tally.capture ≤ before.length :=
    numbers_le_length pattern bundle compiler tuning before
  rw [haccounts.usage.calls, haccounts.usage.groupAccesses, UInt64.toNat_ofNat',
    UInt64.toNat_ofNat', Nat.mod_eq_of_lt (by omega), Nat.mod_eq_of_lt (by omega)]
  omega

/-- Counters that stay small are the numbers that they stand for. -/
theorem toNat_usage (history : List Command)
    (hsmall : (fresh pattern bundle compiler tuning).StaysSmall history) :
    let s := fresh pattern bundle compiler tuning
    ∃ m, (s.run history).engine = .matcher m ∧
      m.usage.calls.toNat = (s.profiled history).length ∧
      m.usage.matched.toNat = (s.profiled history).countP Result.found ∧
      m.usage.groupAccesses.toNat = (s.run history).tally.capture := by
  intro s
  have haccounts : ∀ history, ∃ m, (s.run history).Accounts m (s.profiled history) :=
    accounts pattern bundle compiler tuning
  -- Words can be small after wrapping, but each number grows by single steps from 0.
  have hcalls : (s.profiled history).length ≤ 2 ^ 32 := by
    refine le_of_small (fun history => (s.profiled history).length) _ (by decide) rfl
      s.length_profiled_concat_le history ?_
    intro before hinitial
    rcases haccounts before with ⟨m, hm⟩
    rw [← hm.usage.calls]
    exact (hsmall before hinitial m hm.engine).1
  have haccesses : (s.run history).tally.capture ≤ (2 ^ 64 - 1) / 100 := by
    refine le_of_small (fun history => (s.run history).tally.capture) _ (by decide) rfl
      (capture_concat_le rfl) history ?_
    intro before hinitial
    rcases haccounts before with ⟨m, hm⟩
    have hword := (hsmall before hinitial m hm.engine).2
    rw [← hm.usage.groupAccesses]
    omega
  rcases haccounts history with ⟨m, hm⟩
  have hmatched : (s.profiled history).countP Result.found ≤ (s.profiled history).length :=
    List.countP_le_length
  refine ⟨m, hm.engine, ?_, ?_, ?_⟩
  · rw [hm.usage.calls, UInt64.toNat_ofNat', Nat.mod_eq_of_lt (by omega)]
  · rw [hm.usage.matched, UInt64.toNat_ofNat', Nat.mod_eq_of_lt (by omega)]
  · rw [hm.usage.groupAccesses, UInt64.toNat_ofNat', Nat.mod_eq_of_lt (by omega)]

end

end Session

end LazyMatch
