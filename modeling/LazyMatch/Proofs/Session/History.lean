import LazyMatch.Proofs.Matcher.Search
import LazyMatch.Session

/-!
# Histories of a matcher

A client of a matcher searches, asks the results it keeps, and copies them. A history is a list of
such commands, and `Session.run` is what a session becomes by it. Whatever the history, each command
does to the matcher what one search does to it, or counts accesses to groups, or nothing
(`Session.serve_cases`); so what these steps preserve holds after every history
(`Session.run_preserves`).
-/

namespace LazyMatch

/-- What a client does next. -/
inductive Command
  | search (name : String) (input : Input) (origin : Int)
  | ask (name : String) (accessor : Accessor)
  /-- Keeps a copy of the result under one name under another. -/
  | copy (name target : String)

/-! ## Counting events -/

namespace Tally

/-- How many runs of the automaton for the groups and how many calls of the compiler for an
automaton that finds everything at once are counted. -/
theorem addAll_counts (t : Tally) (events : List Event) :
    (t.addAll events).capture = t.capture + events.countP Event.isGroupScan ∧
      (t.addAll events).compileEager = t.compileEager + events.countP Event.isEagerCompilation := by
  induction events generalizing t with
  | nil => exact ⟨rfl, rfl⟩
  | cons e events ih =>
    -- One event adds to at most one of the two numbers.
    have hone : (t.add e).capture = t.capture + (if e.isGroupScan then 1 else 0) ∧
        (t.add e).compileEager = t.compileEager + (if e.isEagerCompilation then 1 else 0) := by
      cases e with
      | run made =>
        rcases made with ⟨role, origin, start, limit, answer⟩
        cases role <;> exact ⟨rfl, rfl⟩
      | groupAccess => exact ⟨rfl, rfl⟩
      | compile => exact ⟨rfl, rfl⟩
      | compileEager => exact ⟨rfl, rfl⟩
    rcases ih (t.add e) with ⟨hcapture, hcompile⟩
    rw [hone.1] at hcapture
    rw [hone.2] at hcompile
    rw [List.countP_cons, List.countP_cons]
    refine ⟨hcapture.trans ?_, hcompile.trans ?_⟩ <;> omega

end Tally

namespace Session

variable {s : Session} {m : Matcher}

def fresh (pattern : Pattern) (bundle : Bundle) (compiler : Option Compiler) (tuning : Tuning) :
    Session :=
  .new (.matcher (.new pattern bundle compiler tuning))

/-- The session after a command. A question to a name that keeps nothing is passed over. -/
def serve (s : Session) : Command → Session
  | .search name input origin => (s.search name input origin).next
  | .ask name accessor => ((s.ask name fun r => r.access accessor).map Turn.next).getD s
  | .copy name target => (s.copy name target).getD s

def run (s : Session) (history : List Command) : Session := history.foldl serve s

/-- The result that a command gives: only searches give one, if they are answered. -/
def found? (s : Session) : Command → Option Result
  | .search _ input origin => (s.engine.search input origin).answer.toOption
  | .ask _ _ => none
  | .copy _ _ => none

def strategy? (s : Session) : Option Strategy :=
  match s.engine with
  | .matcher m => some m.strategy
  | _ => none

/-- The result that a command gives, if it is a search that counts: it is answered, searches are
counted, and the strategy was open when it began. -/
def profiled? (s : Session) (c : Command) : Option Result :=
  match s.engine with
  | .matcher m => if m.tuning.profiling && m.strategy.isOpen then s.found? c else none
  | _ => none

/-- The results that commands give, as far as they are picked, in order. -/
def gather (pick : Session → Command → Option Result) (s : Session) : List Command → List Result
  | [] => []
  | c :: history => (pick s c).toList ++ (s.serve c).gather pick history

def results (s : Session) (history : List Command) : List Result := s.gather found? history

/-- The results of the searches that counted. -/
def profiled (s : Session) (history : List Command) : List Result := s.gather profiled? history

theorem run_append (s : Session) (history later : List Command) :
    s.run (history ++ later) = (s.run history).run later :=
  List.foldl_append

theorem run_concat (s : Session) (history : List Command) (c : Command) :
    s.run (history ++ [c]) = (s.run history).serve c := by
  rw [run_append]
  rfl

theorem gather_append (pick : Session → Command → Option Result) (s : Session)
    (history later : List Command) :
    s.gather pick (history ++ later) =
      s.gather pick history ++ (s.run history).gather pick later := by
  induction history generalizing s with
  | nil => rfl
  | cons c history ih =>
    change (pick s c).toList ++ (s.serve c).gather pick (history ++ later) = _
    rw [ih, ← List.append_assoc]
    rfl

theorem gather_concat (pick : Session → Command → Option Result) (s : Session)
    (history : List Command) (c : Command) :
    s.gather pick (history ++ [c]) = s.gather pick history ++ (pick (s.run history) c).toList := by
  rw [gather_append]
  exact congrArg _ (List.append_nil _)

theorem fresh_engine (pattern : Pattern) (bundle : Bundle) (compiler : Option Compiler)
    (tuning : Tuning) :
    (fresh pattern bundle compiler tuning).engine = .matcher (.new pattern bundle compiler tuning) :=
  rfl

theorem matcher_unique {m' : Matcher} (h : s.engine = .matcher m) (h' : s.engine = .matcher m') :
    m = m' := by
  rw [h] at h'
  cases h'
  rfl

theorem strategy?_eq (h : s.engine = .matcher m) : s.strategy? = some m.strategy := by
  rw [strategy?, h]

theorem profiled?_of_profiles (h : s.engine = .matcher m) (hprofiles : m.Profiles) (c : Command) :
    s.profiled? c = s.found? c := by
  have htest : (m.tuning.profiling && m.strategy.isOpen) = true :=
    Bool.and_eq_true_iff.2 ⟨hprofiles.1, Strategy.isOpen_iff.2 hprofiles.2⟩
  simp only [profiled?, h, if_pos htest]

theorem profiled?_of_not_profiles (h : s.engine = .matcher m) (hprofiles : ¬ m.Profiles)
    (c : Command) : s.profiled? c = none := by
  have htest : ¬ (m.tuning.profiling && m.strategy.isOpen) = true := by
    intro htrue
    rcases Bool.and_eq_true_iff.1 htrue with ⟨hprofiling, hopen⟩
    exact hprofiles ⟨hprofiling, Strategy.isOpen_iff.1 hopen⟩
  simp only [profiled?, h, if_neg htest]

/-! ## One command -/

/-- What one command does to a session whose engine is a matcher. -/
inductive Served (s : Session) (m : Matcher) : Command → Session → Prop
  | answered {name : String} {input : Input} {origin : Int} {turn : Turn Matcher Result}
      {r : Result} (hsearched : m.Searched input origin turn) (hanswer : turn.answer = .ok r)
      (hfound : s.found? (.search name input origin) = some r) :
      Served s m (.search name input origin)
        { s with
          engine := .matcher turn.next
          kept := s.kept.put name ⟨r, .matcher s.generation⟩
          tally := s.tally.addAll turn.events }
  | refused {name : String} {input : Input} {origin : Int} {turn : Turn Matcher Result}
      {fault : Fault} (hsearched : m.Searched input origin turn)
      (hanswer : turn.answer = .error fault)
      (hfound : s.found? (.search name input origin) = none) :
      Served s m (.search name input origin)
        { s with engine := .matcher turn.next, tally := s.tally.addAll turn.events }
  | asked {name : String} {accessor : Accessor} {kept : Kept}
      (hkept : s.kept.get? name = some kept) :
      Served s m (.ask name accessor)
        { s.observe kept.owner (kept.result.access accessor).events with
          kept := s.kept.put name { kept with result := (kept.result.access accessor).next } }
  | copied {name target : String} {kept : Kept} (hkept : s.kept.get? name = some kept) :
      Served s m (.copy name target) { s with kept := s.kept.put target kept }
  | ignored {c : Command} (hfound : s.found? c = none) : Served s m c s

theorem find_eq (h : s.engine = .matcher m) (input : Input) (origin : Int) :
    s.find input origin =
      ⟨(m.search input origin).answer,
        { s with
          engine := .matcher (m.search input origin).next
          tally := s.tally.addAll (m.search input origin).events },
        (m.search input origin).events⟩ := by
  rw [find, h]
  rfl

theorem found?_search (h : s.engine = .matcher m) (name : String) (input : Input) (origin : Int) :
    s.found? (.search name input origin) = (m.search input origin).answer.toOption := by
  rw [found?, h]
  rfl

theorem search_of_ok (h : s.engine = .matcher m) (name : String) {input : Input} {origin : Int}
    {r : Result} (hanswer : (m.search input origin).answer = .ok r) :
    (s.search name input origin).answer = .ok r ∧
      (s.search name input origin).next =
        { s with
          engine := .matcher (m.search input origin).next
          kept := s.kept.put name ⟨r, .matcher s.generation⟩
          tally := s.tally.addAll (m.search input origin).events } := by
  have hfind : (s.find input origin).answer = .ok r := by
    rw [find_eq h]
    exact hanswer
  rw [search, Turn.andThen_of_ok hfind, find_eq h]
  exact ⟨rfl, rfl⟩

theorem search_of_error (h : s.engine = .matcher m) (name : String) {input : Input} {origin : Int}
    {fault : Fault} (hanswer : (m.search input origin).answer = .error fault) :
    (s.search name input origin).answer = .error fault ∧
      (s.search name input origin).next =
        { s with
          engine := .matcher (m.search input origin).next
          tally := s.tally.addAll (m.search input origin).events } := by
  have hfind : (s.find input origin).answer = .error fault := by
    rw [find_eq h]
    exact hanswer
  rw [search, Turn.andThen_of_error hfind, find_eq h]
  exact ⟨rfl, rfl⟩

/-- A search of the session is one of the matcher; keeping its result changes nothing else. -/
theorem search_spec (h : s.engine = .matcher m) (name : String) (input : Input) (origin : Int) :
    let searched := s.search name input origin
    searched.answer = (m.search input origin).answer ∧
      searched.next.engine = .matcher (m.search input origin).next ∧
      searched.next.tally = s.tally.addAll (m.search input origin).events := by
  intro searched
  cases hanswer : (m.search input origin).answer with
  | ok r =>
    rcases search_of_ok h name hanswer with ⟨hok, hnext⟩
    exact ⟨hok, congrArg Session.engine hnext, congrArg Session.tally hnext⟩
  | error fault =>
    rcases search_of_error h name hanswer with ⟨herror, hnext⟩
    exact ⟨herror, congrArg Session.engine hnext, congrArg Session.tally hnext⟩

theorem serve_cases (h : s.engine = .matcher m) (c : Command) : s.Served m c (s.serve c) := by
  cases c with
  | search name input origin =>
    have hsearched := m.search_cases input origin
    have hfound := found?_search h name input origin
    cases hanswer : (m.search input origin).answer with
    | ok r =>
      rw [hanswer] at hfound
      rw [serve, (search_of_ok h name hanswer).2]
      exact .answered hsearched hanswer hfound
    | error fault =>
      rw [hanswer] at hfound
      rw [serve, (search_of_error h name hanswer).2]
      exact .refused hsearched hanswer hfound
  | ask name accessor =>
    cases hkept : s.kept.get? name with
    | some kept =>
      have hserved : s.Served m (.ask name accessor) _ := .asked hkept
      simpa [serve, ask, hkept] using hserved
    | none =>
      have hserved : s.Served m (.ask name accessor) s := .ignored rfl
      simpa [serve, ask, hkept] using hserved
  | copy name target =>
    cases hkept : s.kept.get? name with
    | some kept =>
      have hserved : s.Served m (.copy name target) _ := .copied hkept
      simpa [serve, copy, hkept] using hserved
    | none =>
      have hserved : s.Served m (.copy name target) s := .ignored rfl
      simpa [serve, copy, hkept] using hserved

/-! ## What every history preserves -/

theorem observe_engine (h : s.engine = .matcher m) (owner : Owner) (events : List Event) :
    (s.observe owner events).engine = .matcher m ∨
      (s.observe owner events).engine = .matcher (m.credit events) := by
  cases owner with
  | session => exact .inl h
  | matcher generation =>
    by_cases hpresent : generation = s.generation
    · refine .inr ?_
      simp [observe, hpresent, h, Engine.credit]
    · refine .inl ?_
      simp [observe, hpresent, h]

theorem tally_observe (s : Session) (owner : Owner) (events : List Event) :
    (s.observe owner events).tally = s.tally.addAll events := by
  cases owner with
  | session => rfl
  | matcher generation =>
    by_cases hpresent : generation = s.generation <;> simp [observe, hpresent]

/-- A property of matchers that searches and the counting of accesses preserve holds after every
command. -/
theorem Served.preserves {P : Matcher → Prop} {c : Command} {next : Session}
    (hsearch : ∀ {m input origin turn}, Matcher.Searched m input origin turn → P m → P turn.next)
    (hcredit : ∀ {m} events, P m → P (m.credit events)) (h : s.engine = .matcher m) (hm : P m)
    (hserved : s.Served m c next) : ∃ m', next.engine = .matcher m' ∧ P m' := by
  cases hserved with
  | answered hsearched => exact ⟨_, rfl, hsearch hsearched hm⟩
  | refused hsearched => exact ⟨_, rfl, hsearch hsearched hm⟩
  | asked =>
    rcases observe_engine h _ _ with hkept | hcredited
    · exact ⟨m, hkept, hm⟩
    · exact ⟨_, hcredited, hcredit _ hm⟩
  | copied => exact ⟨m, h, hm⟩
  | ignored => exact ⟨m, h, hm⟩

/-- Such a property holds after every history. -/
theorem run_preserves {P : Matcher → Prop}
    (hsearch : ∀ {m input origin turn}, Matcher.Searched m input origin turn → P m → P turn.next)
    (hcredit : ∀ {m} events, P m → P (m.credit events)) (h : s.engine = .matcher m) (hm : P m)
    (history : List Command) : ∃ m', (s.run history).engine = .matcher m' ∧ P m' := by
  -- The history is read from its beginning: the session changes, and the property stays.
  induction history generalizing s m with
  | nil => exact ⟨m, h, hm⟩
  | cons c history ih =>
    rcases (serve_cases h c).preserves hsearch hcredit h hm with ⟨m', hengine, hm'⟩
    exact ih hengine hm'

theorem run_becomes (h : s.engine = .matcher m) (history : List Command) :
    ∃ m', (s.run history).engine = .matcher m' ∧ m.Becomes m' :=
  run_preserves (fun hsearched hm => hm.search hsearched) (fun events hm => hm.credit events) h
    (.refl m) history

theorem serve_becomes (h : s.engine = .matcher m) (c : Command) :
    ∃ m', (s.serve c).engine = .matcher m' ∧ m.Becomes m' :=
  run_becomes h [c]

end Session

end LazyMatch
