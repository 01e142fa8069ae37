/-!
# Tuning

The knobs that decide when a pattern is worth an automaton that finds matches and groups in one
scan. None of them changes what a search answers.
-/

namespace LazyMatch

/-- When to give up finding groups on demand. -/
structure Tuning where
  /-- Count searches and reconsider the strategy now and then. -/
  profiling : Bool := true
  /-- Ask the compiler for an automaton that finds everything at once. -/
  allowEager : Bool := true
  /-- Reconsider after every so many searches. -/
  tripPoint : UInt32 := 800
  /-- The least number of searches before a change of strategy. -/
  minCalls : UInt32 := 800
  /-- The least share of searches that match. -/
  minMatchPercent : UInt32 := 50
  /-- The least share of matches whose groups are asked for. -/
  minGroupAccessPercent : UInt32 := 50
deriving DecidableEq, Repr

/-- The knobs as they stand if nobody turns them. -/
def Tuning.default : Tuning := {}

end LazyMatch
