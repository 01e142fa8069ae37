import LazyMatch.Fault

/-!
# Automata and what they report

An `Automaton` is anything that can scan a stretch of bytes: it says whether it only matches at the
edge of the input, how far before the requested position a match may begin, how many capture groups
it follows, and what a scan finds. A scan finds nothing, or a position or number (`Outcome.offset`),
or the boundaries of every group (`Outcome.groups`).
-/

namespace LazyMatch

abbrev Input := Array UInt8

/-- The boundary of a group that took no part in the match. -/
def unset : Int := -1

/-- What one scan finds. -/
inductive Outcome
  | noMatch
  | offset (value : Int)
  /-- Two boundaries for each group. -/
  | groups (boundaries : Array Int)
deriving DecidableEq, Repr

namespace Outcome

def found : Outcome → Bool
  | noMatch => false
  | offset _ => true
  | groups _ => true

/-- The number that an offset carries; the other outcomes carry none, and count as 0. -/
def value : Outcome → Int
  | noMatch => 0
  | offset value => value
  | groups _ => 0

/-- The boundaries of the groups, where the scan reports groups. -/
def boundaries? : Outcome → Option (Array Int)
  | noMatch => none
  | offset _ => none
  | groups boundaries => some boundaries

end Outcome

/-- Something that scans bytes. A scan is told where the search began (`origin`), where to begin
itself and where to stop. -/
structure Automaton where
  /-- Matches touch the edge of the input at which a scan begins. -/
  anchored : Bool
  /-- How many bytes before the origin a match may begin. -/
  lookbehind : UInt32
  /-- How many capture groups it follows; 0 if it reports offsets. -/
  groupCount : UInt32
  scan : (input : Input) → (origin start limit : Int) → Except Fault Outcome

end LazyMatch
