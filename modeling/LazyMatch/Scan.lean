import LazyMatch.Automaton

/-!
# Scanning

A scan stands at a position, consumes the byte at that position and moves by one, forward or
backward, until it has covered the stretch it was given. Going forward a position is the index of
the next byte, so it ranges up to the length of the input; going backward it is the index of the
byte before, so it ranges down to -1.
-/

namespace LazyMatch

/-- Which way a scan goes. -/
inductive Direction
  | forward
  | backward
deriving DecidableEq, Repr

namespace Direction

def advance : Direction → Int → Int
  | forward, i => i + 1
  | backward, i => i - 1

/-- How many bytes lie between `start` and `limit`. -/
def distance : Direction → Int → Int → Nat
  | forward, start, limit => (limit - start).toNat
  | backward, start, limit => (start - limit).toNat

/-- The position at which a scan of the whole input begins. -/
def edge : Direction → Nat → Int
  | forward, _ => 0
  | backward, length => (length : Int) - 1

end Direction

/-- How a table is to be scanned. -/
structure ScanProps where
  direction : Direction
  anchored : Bool
  lookbehind : UInt32
  /-- Give the number of the last accepting state in place of the position. -/
  reporting : Bool
deriving DecidableEq, Repr

def byteAt (input : Input) : Int → Except Fault UInt8
  | .ofNat i => lookup input i
  | .negSucc _ => .error .lookup

end LazyMatch
