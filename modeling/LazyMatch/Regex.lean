import LazyMatch.Matcher

/-!
# Regular expressions

A `Regex` is a pattern that is compiled when it is first needed. It keeps the matcher it got, so
that usage and strategy carry over from search to search; a failed compilation leaves it without
one, and the next search tries again. A matcher can also be installed from outside, or taken away.
-/

namespace LazyMatch

/-- A pattern with its matcher, if it has one yet. -/
structure Regex where
  pattern : Pattern
  compiler : Option Compiler
  tuning : Tuning
  matcher? : Option Matcher

namespace Regex

def new (pattern : Pattern) (compiler : Option Compiler) (tuning : Tuning) : Regex where
  pattern
  compiler
  tuning
  matcher? := none

/-- Compiles the pattern and keeps the matcher. -/
def compile (r : Regex) : Turn Regex Matcher :=
  match r.compiler with
  | none => .failed (.compile (.noCompiler r.pattern.text)) r
  | some compiler =>
    match compiler.compile r.pattern with
    | .ok (some bundle) =>
      let matcher := Matcher.new r.pattern bundle r.compiler r.tuning
      ⟨.ok matcher, { r with matcher? := some matcher }, [.compile]⟩
    | .ok none => ⟨.error (.compile (.noAutomata r.pattern.text)), r, [.compile]⟩
    | .error fault => ⟨.error fault, r, [.compile]⟩

/-- The matcher of the pattern, which is compiled if there is none yet. -/
def matcher (r : Regex) : Turn Regex Matcher :=
  match r.matcher? with
  | some matcher => .done matcher r
  | none => r.compile

/-- Replaces the matcher, or takes it away. -/
def install (r : Regex) (matcher? : Option Matcher) : Regex :=
  { r with matcher? }

def search (r : Regex) (input : Input) (origin : Int) : Turn Regex Result :=
  r.matcher.andThen fun matcher r =>
    let searched := matcher.search input origin
    ⟨searched.answer, r.install (some searched.next), searched.events⟩

/-- Counts the accesses to groups among events that results of the present matcher caused. -/
def credit (r : Regex) (events : List Event) : Regex :=
  { r with matcher? := r.matcher?.map fun matcher => matcher.credit events }

/-- Asks another compiler from now on, if it asks any; so does its matcher. -/
def withCompiler (r : Regex) (compiler : Compiler) : Regex :=
  { r with
    compiler := r.compiler.map fun _ => compiler
    matcher? := r.matcher?.map fun matcher => matcher.withCompiler compiler }

end Regex

end LazyMatch
