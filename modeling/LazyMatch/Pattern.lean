import LazyMatch.Bundle

/-!
# Patterns and compilers

A `Pattern` is the text of a regular expression with its flags. What turns it into automata is a
`Compiler`, supplied from outside: it may fail in any way, and it may have nothing to offer.
-/

namespace LazyMatch

/-- A regular expression as it is written. -/
structure Pattern where
  text : String
  flags : UInt32
deriving DecidableEq, Repr

/-- What turns patterns into automata. -/
structure Compiler where
  /-- The automata that find groups on demand. -/
  compile : Pattern → Except Fault (Option Bundle)
  /-- An automaton that finds a match and its groups in one scan, where the pattern admits one. -/
  compileEager : Pattern → Except Fault (Option Automaton)

end LazyMatch
