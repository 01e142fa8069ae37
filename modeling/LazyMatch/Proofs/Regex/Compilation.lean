import LazyMatch.Proofs.Find.AtOnce
import LazyMatch.Proofs.Matcher.Search
import LazyMatch.Regex

/-!
# When a pattern is compiled

A `Call` takes the matcher of a pattern, searches with it, or counts accesses to groups, and the
compiler may behave differently during each call. Between calls a matcher can be installed or taken
away. Whatever is called and installed, and however the compiler behaves, a pattern without a matcher
is compiled by each call that needs one and by nothing else, and what a failed compilation leaves is
a pattern without a matcher. A pattern with a matcher does as the matcher itself would do, until
another one is installed (`Regex.compiles_iff_holds_none`).
-/

namespace LazyMatch

/-- What a client wants of a matcher. -/
inductive Use
  /-- To have it. -/
  | take
  | search (input : Input) (origin : Int)
  /-- To count the accesses to groups among events that its results caused. -/
  | credit (events : List Event)

/-- Whether a pattern must have a matcher for this. -/
def Use.needsMatcher : Use → Bool
  | take => true
  | search _ _ => true
  | credit _ => false

inductive Gain
  | matcher (m : Matcher)
  | result (r : Result)
  | nothing

/-- A use, and the compiler as it behaves in the meantime. -/
structure Call where
  compiler : Compiler
  use : Use

inductive Request
  | call (c : Call)
  | install (matcher? : Option Matcher)

/-- What a history of calls answers, one after the other, what it leaves, and what happens. -/
structure Transcript (σ : Type) where
  answers : List (Except Fault Gain)
  next : σ
  events : List Event

/-- The transcript of a history, each entry of which is served in turn. -/
def transcript {σ κ : Type} (serve : σ → κ → Turn σ Gain) (value : σ) : List κ → Transcript σ
  | [] => ⟨[], value, []⟩
  | entry :: history =>
    let turn := serve value entry
    let rest := transcript serve turn.next history
    ⟨turn.answer :: rest.answers, rest.next, turn.events ++ rest.events⟩

namespace Matcher

def perform (m : Matcher) : Use → Turn Matcher Gain
  | .take => .done (.matcher m) m
  | .search input origin => (m.search input origin).map .result
  | .credit events => .done .nothing (m.credit events)

def serve (m : Matcher) (c : Call) : Turn Matcher Gain :=
  (m.withCompiler c.compiler).perform c.use

/-- Matchers have been compiled. -/
theorem countP_isCompilation_perform (m : Matcher) (u : Use) :
    (m.perform u).events.countP Event.isCompilation = 0 := by
  cases u with
  | take => rfl
  | search input origin => exact (m.search_cases input origin).countP_isCompilation
  | credit events => rfl

theorem countP_isCompilation_transcript (m : Matcher) (calls : List Call) :
    (transcript serve m calls).events.countP Event.isCompilation = 0 := by
  induction calls generalizing m with
  | nil => rfl
  | cons c calls ih =>
    have hfirst : (m.serve c).events.countP Event.isCompilation = 0 :=
      countP_isCompilation_perform _ _
    have hrest := ih (m.serve c).next
    simp [transcript, hfirst, hrest]

end Matcher

/-- What comes of asking for the automata of a pattern. To have none to offer is a failure, too, and
so is to have nobody to ask. -/
def Pattern.compiledBy (pattern : Pattern) : Option Compiler → Except Fault Bundle
  | none => .error (.compile (.noCompiler pattern.text))
  | some compiler =>
    match compiler.compile pattern with
    | .ok (some bundle) => .ok bundle
    | .ok none => .error (.compile (.noAutomata pattern.text))
    | .error fault => .error fault

namespace Regex

variable {r : Regex} {m : Matcher} {bundle : Bundle} {fault : Fault}

def perform (r : Regex) : Use → Turn Regex Gain
  | .take => r.matcher.map .matcher
  | .search input origin => (r.search input origin).map .result
  | .credit events => .done .nothing (r.credit events)

def serve (r : Regex) : Request → Turn Regex Gain
  | .call c => (r.withCompiler c.compiler).perform c.use
  | .install matcher? => .done .nothing (r.install matcher?)

/-- The request needs a matcher, there is none, and there is a compiler to ask for one. -/
def lacks (r : Regex) : Request → Bool
  | .call c => c.use.needsMatcher && r.matcher?.isNone && r.compiler.isSome
  | .install _ => false

/-- How many requests of a history find the pattern without the matcher that they need. -/
def lacking (r : Regex) : List Request → Nat
  | [] => 0
  | q :: history => (if r.lacks q then 1 else 0) + (r.serve q).next.lacking history

/-! ## With a matcher -/

theorem install_self (r : Regex) : r.install r.matcher? = r := rfl

theorem perform_of_some (h : r.matcher? = some m) (u : Use) :
    r.perform u =
      ⟨(m.perform u).answer, r.install (some (m.perform u).next), (m.perform u).events⟩ := by
  have hmatcher : r.matcher = .done m r := by simp only [matcher, h]
  cases u with
  | take =>
    have hsame : r.install (some m) = r := h ▸ r.install_self
    simp [perform, Matcher.perform, hmatcher, hsame, Turn.map, Turn.done, Except.map]
  | search input origin =>
    simp [perform, Matcher.perform, search, hmatcher, Turn.andThen, Turn.map, Turn.done]
  | credit events =>
    have hcredit : r.credit events = r.install (some (m.credit events)) := by
      simp [credit, install, h]
    simp [perform, Matcher.perform, hcredit, Turn.done]

/-- A pattern with a matcher does what the matcher does, and keeps it as it is afterwards. -/
theorem serve_of_some (h : r.matcher? = some m) (c : Call) :
    (r.serve (.call c)).answer = (m.serve c).answer ∧
      (r.serve (.call c)).next.matcher? = some (m.serve c).next ∧
      (r.serve (.call c)).events = (m.serve c).events := by
  have hmatcher : (r.withCompiler c.compiler).matcher? = some (m.withCompiler c.compiler) := by
    simp [withCompiler, h]
  rw [serve, perform_of_some hmatcher]
  exact ⟨rfl, rfl, rfl⟩

/-- It goes on like this until another matcher is installed. -/
theorem transcript_of_some (h : r.matcher? = some m) (calls : List Call) :
    let told := transcript serve r (calls.map .call)
    let own := transcript Matcher.serve m calls
    told.answers = own.answers ∧ told.next.matcher? = some own.next ∧ told.events = own.events := by
  -- What carries the induction is that the pattern holds what the matcher has become.
  induction calls generalizing r m with
  | nil => exact ⟨rfl, h, rfl⟩
  | cons c calls ih =>
    rcases serve_of_some h c with ⟨hanswer, hnext, hevents⟩
    rcases ih hnext with ⟨hanswers, hlast, hrest⟩
    refine ⟨?_, hlast, ?_⟩
    · simp [transcript, hanswer, hanswers]
    · simp [transcript, hevents, hrest]

/-! ## Without a matcher -/

/-- The call of the compiler, if there is one to call. -/
def compileEvents (r : Regex) : List Event :=
  if r.compiler.isSome then [.compile] else []

theorem countP_isCompilation_compileEvents (r : Regex) :
    r.compileEvents.countP Event.isCompilation = if r.compiler.isSome then 1 else 0 := by
  unfold compileEvents
  split <;> rfl

theorem compile_eq (r : Regex) :
    r.compile = match r.pattern.compiledBy r.compiler with
      | .ok bundle =>
        ⟨.ok (.new r.pattern bundle r.compiler r.tuning),
          r.install (some (.new r.pattern bundle r.compiler r.tuning)), r.compileEvents⟩
      | .error fault => ⟨.error fault, r, r.compileEvents⟩ := by
  unfold compile Pattern.compiledBy compileEvents
  cases hcompiler : r.compiler with
  | none => rfl
  | some compiler =>
    dsimp only
    rcases compiler.compile r.pattern with fault | _ | bundle
    · rfl
    · rfl
    · simp [install, hcompiler]

/-- A failed compilation is the answer, and leaves the pattern as it was. -/
theorem perform_of_error (hnone : r.matcher? = none) {u : Use} (hneeds : u.needsMatcher = true)
    (h : r.pattern.compiledBy r.compiler = .error fault) :
    r.perform u = ⟨.error fault, r, r.compileEvents⟩ := by
  have hmatcher : r.matcher = ⟨.error fault, r, r.compileEvents⟩ := by
    simp only [matcher, hnone, compile_eq, h]
  cases u with
  | take => simp [perform, hmatcher, Turn.map, Except.map]
  | search input origin => simp [perform, search, hmatcher, Turn.andThen, Turn.map, Except.map]
  | credit events => cases hneeds

/-- The matcher that was compiled is kept, whatever comes of the use that it was needed for. -/
theorem perform_of_ok (hnone : r.matcher? = none) {u : Use} (hneeds : u.needsMatcher = true)
    (h : r.pattern.compiledBy r.compiler = .ok bundle) :
    let m := Matcher.new r.pattern bundle r.compiler r.tuning
    r.perform u = ⟨(m.perform u).answer, r.install (some (m.perform u).next),
      r.compileEvents ++ (m.perform u).events⟩ := by
  intro m
  have hmatcher : r.matcher = ⟨.ok m, r.install (some m), r.compileEvents⟩ := by
    simp only [matcher, hnone, compile_eq, h]
    rfl
  cases u with
  | take => simp [perform, Matcher.perform, hmatcher, Turn.map, Turn.done, Except.map]
  | search input origin =>
    simp [perform, Matcher.perform, search, hmatcher, Turn.andThen, Turn.map, install]
  | credit events => cases hneeds

/-! ## Every request -/

theorem exists_next_perform (r : Regex) (u : Use) :
    ∃ matcher?, (r.perform u).next = r.install matcher? := by
  cases hmatcher : r.matcher? with
  | some m => exact ⟨_, congrArg Turn.next (perform_of_some hmatcher u)⟩
  | none =>
    have hself : r.install none = r := hmatcher ▸ r.install_self
    cases hneeds : u.needsMatcher with
    | true =>
      cases hcompiled : r.pattern.compiledBy r.compiler with
      | error fault =>
        have hperform := perform_of_error hmatcher hneeds hcompiled
        exact ⟨none, (congrArg Turn.next hperform).trans hself.symm⟩
      | ok bundle => exact ⟨_, congrArg Turn.next (perform_of_ok hmatcher hneeds hcompiled)⟩
    | false =>
      cases u with
      | take => cases hneeds
      | search => cases hneeds
      | credit events => exact ⟨_, rfl⟩

/-- Requests change the matcher, and the behaviour of the compiler, but nothing else. -/
theorem serve_keeps (r : Regex) (q : Request) :
    (r.serve q).next.pattern = r.pattern ∧ (r.serve q).next.tuning = r.tuning ∧
      (r.serve q).next.compiler.isSome = r.compiler.isSome := by
  cases q with
  | install matcher? => exact ⟨rfl, rfl, rfl⟩
  | call c =>
    rcases (r.withCompiler c.compiler).exists_next_perform c.use with ⟨matcher?, hnext⟩
    rw [serve, hnext]
    exact ⟨rfl, rfl, Option.isSome_map⟩

theorem transcript_keeps (r : Regex) (history : List Request) :
    (transcript serve r history).next.pattern = r.pattern ∧
      (transcript serve r history).next.tuning = r.tuning ∧
      (transcript serve r history).next.compiler.isSome = r.compiler.isSome := by
  induction history generalizing r with
  | nil => exact ⟨rfl, rfl, rfl⟩
  | cons q history ih =>
    rcases r.serve_keeps q with ⟨hpattern, htuning, hcompiler⟩
    rcases ih (r.serve q).next with ⟨hpattern', htuning', hcompiler'⟩
    exact ⟨hpattern'.trans hpattern, htuning'.trans htuning, hcompiler'.trans hcompiler⟩

/-- The compiler is asked for automata once if the request lacks a matcher, and not otherwise. -/
theorem countP_isCompilation_serve (r : Regex) (q : Request) :
    (r.serve q).events.countP Event.isCompilation = if r.lacks q then 1 else 0 := by
  cases q with
  | install matcher? => rfl
  | call c =>
    cases hmatcher : r.matcher? with
    | some m =>
      have hlacks : r.lacks (.call c) = false := by simp [lacks, hmatcher]
      rw [(serve_of_some hmatcher c).2.2, hlacks]
      exact Matcher.countP_isCompilation_perform _ _
    | none =>
      -- The compiler of the call takes the place of the one there was, so there still is one or not.
      have hnone : (r.withCompiler c.compiler).matcher? = none := by simp [withCompiler, hmatcher]
      have hsome : (r.withCompiler c.compiler).compiler.isSome = r.compiler.isSome :=
        Option.isSome_map
      cases hneeds : c.use.needsMatcher with
      | false =>
        rcases c with ⟨compiler, u⟩
        cases u with
        | take => cases hneeds
        | search => cases hneeds
        | credit events => rfl
      | true =>
        have hlacks : r.lacks (.call c) = r.compiler.isSome := by simp [lacks, hneeds, hmatcher]
        rw [serve, hlacks, ← hsome, ← countP_isCompilation_compileEvents]
        cases hcompiled : (r.withCompiler c.compiler).pattern.compiledBy
            (r.withCompiler c.compiler).compiler with
        | error fault => rw [perform_of_error hnone hneeds hcompiled]
        | ok bundle =>
          rw [perform_of_ok hnone hneeds hcompiled, List.countP_append,
            Matcher.countP_isCompilation_perform, Nat.add_zero]

theorem countP_isCompilation_transcript (r : Regex) (history : List Request) :
    (transcript serve r history).events.countP Event.isCompilation = r.lacking history := by
  induction history generalizing r with
  | nil => rfl
  | cons q history ih =>
    rw [lacking, ← countP_isCompilation_serve, ← ih]
    exact List.countP_append

/-! ## Whole histories -/

theorem map_const_eq_of_isSome_eq {α β : Type} {a b : Option α} (h : a.isSome = b.isSome) (c : β) :
    a.map (fun _ => c) = b.map fun _ => c := by
  cases a <;> cases b <;> simp_all

/-- Let a pattern be given, with a compiler or without, and let whatever requests be served to it,
with the compiler behaving differently during each of them.

The compiler is asked for automata as often as a request needed a matcher where there was none,
though there was a compiler. The next call asks once if it is such a request, and not at all
otherwise; installing a matcher asks nothing and puts it in place, or takes the matcher away.
If there is no matcher but the next call needs one, then either compiling fails, which the call
answers, and there is no matcher afterwards, or the call answers as the matcher would that is made
of the automata, and leaves that matcher as this would leave it. If there is a matcher, then however
many calls are made next, they answer what the matcher would answer, they leave what it would have
become, and nothing happens beyond what the matcher does, which never compiles the pattern. -/
theorem compiles_iff_holds_none (pattern : Pattern) (compiler? : Option Compiler) (tuning : Tuning)
    (before : List Request) :
    let told := transcript serve (.new pattern compiler? tuning) before
    let r := told.next
    told.events.countP Event.isCompilation = (Regex.new pattern compiler? tuning).lacking before ∧
    (∀ c, (r.serve (.call c)).events.countP Event.isCompilation =
      if c.use.needsMatcher && r.matcher?.isNone && compiler?.isSome then 1 else 0) ∧
    (∀ matcher?, (r.serve (.install matcher?)).events = [] ∧
      (r.serve (.install matcher?)).next.matcher? = matcher?) ∧
    (r.matcher? = none → ∀ c : Call, c.use.needsMatcher = true →
      let turn := r.serve (.call c)
      let compiler := compiler?.map fun _ => c.compiler
      (∀ fault, pattern.compiledBy compiler = .error fault →
        turn.answer = .error fault ∧ turn.next.matcher? = none) ∧
      ∀ bundle, pattern.compiledBy compiler = .ok bundle →
        let made := (Matcher.new pattern bundle compiler tuning).perform c.use
        turn.answer = made.answer ∧ turn.next.matcher? = some made.next) ∧
    ∀ m, r.matcher? = some m → ∀ calls : List Call,
      let later := transcript serve r (calls.map .call)
      let own := transcript Matcher.serve m calls
      later.answers = own.answers ∧ later.next.matcher? = some own.next ∧
        later.events = own.events ∧ later.events.countP Event.isCompilation = 0 := by
  intro told r
  rcases transcript_keeps (.new pattern compiler? tuning) before with ⟨hpattern, htuning, hcompiler⟩
  refine ⟨countP_isCompilation_transcript _ _, ?_, fun matcher? => ⟨rfl, rfl⟩, ?_, ?_⟩
  · intro c
    rw [countP_isCompilation_serve, lacks, hcompiler]
    rfl
  · intro hnone c hneeds turn compiler
    have hnone' : (r.withCompiler c.compiler).matcher? = none := by simp [withCompiler, hnone]
    have hpattern' : (r.withCompiler c.compiler).pattern = pattern := hpattern
    have htuning' : (r.withCompiler c.compiler).tuning = tuning := htuning
    have hcompiler' : (r.withCompiler c.compiler).compiler = compiler :=
      map_const_eq_of_isSome_eq hcompiler c.compiler
    rw [← hpattern', ← htuning', ← hcompiler']
    constructor
    · intro fault hfault
      have hperform := perform_of_error hnone' hneeds hfault
      exact ⟨congrArg Turn.answer hperform, hnone' ▸ congrArg (fun t => t.next.matcher?) hperform⟩
    · intro bundle hbundle
      have hperform := perform_of_ok hnone' hneeds hbundle
      exact ⟨congrArg Turn.answer hperform, congrArg (fun t => t.next.matcher?) hperform⟩
  · intro m hm calls later own
    rcases transcript_of_some hm calls with ⟨hanswers, hnext, hevents⟩
    refine ⟨hanswers, hnext, hevents, ?_⟩
    rw [hevents]
    exact Matcher.countP_isCompilation_transcript m calls

/-- A compiler that runs out of memory during the first call is asked again during the second one,
and no more after that. -/
theorem compiles_after_failure :
    let exhausted : Compiler := ⟨fun _ => .error .outOfMemory, fun _ => .ok none⟩
    let willing : Compiler := ⟨fun _ => .ok (some emptyGroupBundle), fun _ => .ok none⟩
    let told := transcript serve (.new ⟨"()", 0⟩ (some exhausted) .default)
      [.call ⟨exhausted, .take⟩, .call ⟨willing, .take⟩]
    told.events.countP Event.isCompilation = 2 ∧ ∃ m, told.next.matcher? = some m ∧
      (transcript serve told.next [.call ⟨exhausted, .take⟩]).answers =
        [.ok (.matcher (m.withCompiler exhausted))] ∧
      (transcript serve told.next [.call ⟨exhausted, .take⟩]).events.countP
        Event.isCompilation = 0 := by
  intro exhausted willing told
  rcases compiles_iff_holds_none ⟨"()", 0⟩ (some exhausted) .default
    [.call ⟨exhausted, .take⟩, .call ⟨willing, .take⟩] with ⟨hcount, -, -, -, hheld⟩
  rcases hheld _ rfl [⟨exhausted, .take⟩] with ⟨hanswers, -, -, hnone⟩
  exact ⟨hcount, _, rfl, hanswers, hnone⟩

end Regex

end LazyMatch
