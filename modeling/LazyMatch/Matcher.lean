import LazyMatch.Find
import LazyMatch.Pattern
import LazyMatch.Usage

/-!
# Matchers

A `Matcher` searches for one compiled pattern. It begins by finding groups on demand and counts how
it is used. Where the usage makes finding groups at once the cheaper strategy, it asks its compiler
for an automaton that does so, once: from then on it either uses that automaton or has settled that
there is none. The search during which this happens is still answered on demand.
-/

namespace LazyMatch

/-- How a matcher searches. -/
inductive Strategy
  | onDemand
  /-- All groups at once, by one automaton. -/
  | atOnce (automaton : Automaton)
  /-- On demand for good: there is no automaton that finds all groups at once. -/
  | settled

/-- Whether the strategy may still change. -/
def Strategy.isOpen : Strategy → Bool
  | onDemand => true
  | atOnce _ => false
  | settled => false

/-- A compiled pattern, its usage, and the strategy for it. -/
structure Matcher where
  pattern : Pattern
  bundle : Bundle
  compiler : Option Compiler
  tuning : Tuning
  usage : Usage
  strategy : Strategy

namespace Matcher

def new (pattern : Pattern) (bundle : Bundle) (compiler : Option Compiler) (tuning : Tuning) :
    Matcher where
  pattern
  bundle
  compiler
  tuning
  usage := .none
  strategy := .onDemand

/-- The strategy to take with what the compiler offers: an automaton that follows no groups is of
no use. -/
def strategyWith : Option Automaton → Strategy
  | some automaton => if automaton.groupCount = 0 then .settled else .atOnce automaton
  | none => .settled

/-- Takes the strategy that the compiler makes possible. A pattern that cannot be compiled for it
settles the matter; any other failure leaves it open. -/
def changeStrategy (m : Matcher) : Turn Matcher Unit :=
  match m.compiler with
  | some compiler =>
    if m.tuning.allowEager then
      match compiler.compileEager m.pattern with
      | .ok automaton =>
        ⟨.ok (), { m with strategy := strategyWith automaton }, [.compileEager]⟩
      -- To refuse the pattern is an answer like any other.
      | .error (.compile _) => ⟨.ok (), { m with strategy := .settled }, [.compileEager]⟩
      | .error fault => ⟨.error fault, m, [.compileEager]⟩
    else .done () { m with strategy := .settled }
  | none => .done () { m with strategy := .settled }

def reconsider (m : Matcher) : Turn Matcher Unit :=
  if m.usage.atTripPoint m.tuning && m.usage.favoursEager m.tuning then m.changeStrategy
  else .done () m

/-- Counts a search that was answered by `result`; the strategy is reconsidered before. -/
def profile (m : Matcher) (result : Result) : Turn Matcher Result :=
  m.reconsider.andThen fun _ m =>
    -- This search counts for the next decision, and not for the one just made.
    .done result { m with usage := m.usage.countSearch result.found }

/-- Searches on demand, and counts the search while the strategy is open. -/
def searchOnDemand (m : Matcher) (input : Input) (origin : Int) : Turn Matcher Result :=
  ((m.bundle.find input origin).onto m fun _ => m).andThen fun result m =>
    if m.tuning.profiling && m.strategy.isOpen then m.profile result
    else .done result m

/-- The first match at or after `origin`, which must lie in the input or at its end. -/
def search (m : Matcher) (input : Input) (origin : Int) : Turn Matcher Result :=
  if origin < 0 ∨ (input.size : Int) < origin then
    .failed (.range (.searchIndex origin input.size)) m
  else
    match m.strategy with
    | .atOnce automaton => (automaton.find input origin).onto m fun _ => m
    | .onDemand => m.searchOnDemand input origin
    | .settled => m.searchOnDemand input origin

/-- Counts the accesses to groups among events that its results caused. -/
def credit (m : Matcher) (events : List Event) : Matcher :=
  { m with usage := m.usage.countAccesses (events.countP Event.isGroupAccess) }

/-- Asks another compiler from now on, if it asks any. -/
def withCompiler (m : Matcher) (compiler : Compiler) : Matcher :=
  { m with compiler := m.compiler.map fun _ => compiler }

end Matcher

end LazyMatch
