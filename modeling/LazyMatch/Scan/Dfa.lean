import LazyMatch.Scan
import LazyMatch.Table.Check

/-!
# Plain scans

A `Dfa` is a checked table in the form in which it runs: the rows lie one after the other in a
single array. Its scan remembers the last accepting state that it visits, the first state included,
and ends early in the dead state, from which no accepting state can be reached.
-/

namespace LazyMatch

/-- A plain automaton, ready to run. -/
structure Dfa where
  props : ScanProps
  alphabetSize : UInt16
  symbolOf : Vector Symbol 256
  /-- The successor of state `s` on symbol `a` is entry `s * alphabetSize + a`. -/
  successors : Array StateId
  accepting : Array Bool
  reports : Array UInt32
  startAtEdge : StateId
  startInside : StateId

namespace Dfa

/-- Lays out a table that passes the checks. -/
def ofTable (t : Table) (props : ScanProps) : Except CompileError Dfa := do
  t.check
  return {
    props
    alphabetSize := t.alphabetSize
    symbolOf := t.symbolOf
    successors := t.states.flatMap State.next
    accepting := t.states.map State.accepting
    reports := t.states.map State.report
    startAtEdge := t.startAtEdge
    startInside := t.startInside }

def startState (d : Dfa) (length : Nat) (start : Int) : StateId :=
  if start = d.props.direction.edge length then d.startAtEdge else d.startInside

def next (d : Dfa) (s : StateId) (byte : UInt8) : Except Fault StateId :=
  have inBounds : byte.toNat < 256 := byte.toNat_lt
  lookup d.successors (s.toNat * d.alphabetSize.toNat + d.symbolOf[byte.toNat].toNat)

/-- What the scan would answer if it ended in state `s` at position `i`. -/
def acceptance (d : Dfa) (s : StateId) (i : Int) : Except Fault (Option Int) := do
  if ← lookup d.accepting s.toNat then
    if d.props.reporting then
      return some (← lookup d.reports s.toNat).toNat
    else
      return some i
  else
    return none

/-- Consumes `count` bytes, and gives the answer of the last accepting state, or `last` if there is
none. -/
def walk (d : Dfa) (input : Input) : (count : Nat) → StateId → Int → Option Int →
    Except Fault (Option Int)
  | 0, _, _, last => .ok last
  | count + 1, s, i, last => do
    let s ← d.next s (← byteAt input i)
    -- The dead state has no way to a match, so the rest need not be read.
    if s = deadState then
      return last
    else
      let i := d.props.direction.advance i
      d.walk input count s i ((← d.acceptance s i).or last)

def scan (d : Dfa) (input : Input) (start limit : Int) : Except Fault Outcome := do
  let s := d.startState input.size start
  if s = deadState then
    return .noMatch
  else
    let last ← d.acceptance s start
    match ← d.walk input (d.props.direction.distance start limit) s start last with
    | some value => return .offset value
    | none => return .noMatch

/-- A plain scan does not depend on where the search began. -/
def toAutomaton (d : Dfa) : Automaton where
  anchored := d.props.anchored
  lookbehind := d.props.lookbehind
  groupCount := 0
  scan input _ start limit := d.scan input start limit

end Dfa

end LazyMatch
