import LazyMatch.Scan
import LazyMatch.Table.Check

/-!
# Scans that follow groups

A `TaggedDfa` carries two registers for each group. The operations of a transition act on the
registers before its byte is consumed; the operations of acceptance act on a copy, which is what the
scan answers if no later state accepts. Scans go forward and answer with positions. The operations
of all states lie one after the other in a single array (`OpLayout`).
-/

namespace LazyMatch

/-- Performs one operation at position `i`. -/
def TagOp.perform (op : TagOp) (i : Int) (registers : Array Int) : Except Fault (Array Int) :=
  if h : op.register.toNat < registers.size then
    .ok (registers.set op.register.toNat (if op.clear then unset else i))
  else
    .error .lookup

/-- A stretch of a shared array, from entry `start` up to entry `stop`, which is no part of it. Both
are 32-bit words. -/
structure OpRange where
  start : UInt32
  stop : UInt32
deriving DecidableEq, Repr

/-- Operations that lie one after the other, and where those of each transition and of each
acceptance lie among them. -/
structure OpLayout where
  ops : Array TagOp
  /-- The operations of each transition, in the order of the transitions. -/
  transitionOps : Array OpRange
  /-- The operations of acceptance in each state. -/
  acceptOps : Array OpRange

namespace OpLayout

def empty : OpLayout where
  ops := #[]
  transitionOps := #[]
  acceptOps := #[]

/-- Where the operations of a list will lie if they are put last. Numbers beyond 32 bits wrap. -/
def nextRange (l : OpLayout) (list : List TagOp) : OpRange where
  start := .ofNat l.ops.size
  stop := .ofNat (l.ops.size + list.length)

def addTransition (l : OpLayout) (list : List TagOp) : OpLayout where
  transitionOps := l.transitionOps.push (l.nextRange list)
  acceptOps := l.acceptOps
  ops := l.ops ++ list

def addAcceptance (l : OpLayout) (list : List TagOp) : OpLayout where
  transitionOps := l.transitionOps
  acceptOps := l.acceptOps.push (l.nextRange list)
  ops := l.ops ++ list

/-- Puts the operations of a state last, first those of its transitions. -/
def addState (l : OpLayout) (tags : StateTags) : OpLayout :=
  (tags.onSymbol.foldl addTransition l).addAcceptance tags.onAccept

def ofTags (tags : Array StateTags) : OpLayout :=
  tags.foldl addState empty

/-- Performs `count` operations at position `i`, beginning with the one numbered `first`. -/
def performFrom (l : OpLayout) (i : Int) : (count first : Nat) → (registers : Array Int) →
    Except Fault (Array Int)
  | 0, _, registers => .ok registers
  | count + 1, first, registers => do
    let op ← lookup l.ops first
    l.performFrom i count (first + 1) (← op.perform i registers)

/-- Performs the operations of a stretch at position `i`, in their order. -/
def perform (l : OpLayout) (range : OpRange) (i : Int) (registers : Array Int) :
    Except Fault (Array Int) :=
  l.performFrom i (range.stop.toNat - range.start.toNat) range.start.toNat registers

end OpLayout

/-- An automaton with registers, ready to run. -/
structure TaggedDfa extends OpLayout where
  props : ScanProps
  groupCount : UInt32
  alphabetSize : UInt16
  symbolOf : Vector Symbol 256
  /-- The successor of state `s` on symbol `a` is entry `s * alphabetSize + a`. -/
  successors : Array StateId
  accepting : Array Bool
  startAtEdge : StateId
  startInside : StateId

namespace TaggedDfa

/-- Lays out a tagged table that passes the checks and is to be scanned forward for positions. -/
def ofTable (t : TaggedTable) (props : ScanProps) : Except CompileError TaggedDfa := do
  t.check
  if props.direction = .forward ∧ ¬ props.reporting then
    return {
      toOpLayout := .ofTags t.tags
      props
      groupCount := t.groupCount
      alphabetSize := t.alphabetSize
      symbolOf := t.symbolOf
      successors := t.states.flatMap State.next
      accepting := t.states.map State.accepting
      startAtEdge := t.startAtEdge
      startInside := t.startInside }
  else
    throw .notForwardPositionScan

def startState (d : TaggedDfa) (start : Int) : StateId :=
  if start = Direction.forward.edge 0 then d.startAtEdge else d.startInside

/-- The registers before the first byte. Their number is counted in 32-bit words. -/
def freshRegisters (d : TaggedDfa) : Array Int :=
  Array.replicate (d.groupCount * 2).toNat unset

def transition (d : TaggedDfa) (s : StateId) (byte : UInt8) : Nat :=
  have inBounds : byte.toNat < 256 := byte.toNat_lt
  s.toNat * d.alphabetSize.toNat + d.symbolOf[byte.toNat].toNat

/-- What the scan would answer if it ended in state `s` at position `i`. -/
def acceptance (d : TaggedDfa) (s : StateId) (i : Int) (registers : Array Int) :
    Except Fault (Option (Array Int)) := do
  if ← lookup d.accepting s.toNat then
    return some (← d.perform (← lookup d.acceptOps s.toNat) i registers)
  else
    return none

/-- Consumes `count` bytes, and gives the answer of the last accepting state, or `last` if there is
none. -/
def walk (d : TaggedDfa) (input : Input) : (count : Nat) → StateId → Int → Array Int →
    Option (Array Int) → Except Fault (Option (Array Int))
  | 0, _, _, _, last => .ok last
  | count + 1, s, i, registers, last => do
    let t := d.transition s (← byteAt input i)
    -- Registers take the position before the byte, even on the way to the dead state.
    let registers ← d.perform (← lookup d.transitionOps t) i registers
    let s ← lookup d.successors t
    if s = deadState then
      return last
    else
      let i := Direction.forward.advance i
      d.walk input count s i registers ((← d.acceptance s i registers).or last)

/-- Scans from `start` to `limit`. A register file of no registers leaves nothing to report. -/
def scan (d : TaggedDfa) (input : Input) (start limit : Int) : Except Fault Outcome := do
  let s := d.startState start
  if s = deadState then
    return .noMatch
  else
    let registers := d.freshRegisters
    let last ← d.acceptance s start registers
    match ← d.walk input (Direction.forward.distance start limit) s start registers last with
    | some boundaries => return if boundaries.isEmpty then .noMatch else .groups boundaries
    | none => return .noMatch

/-- A tagged scan does not depend on where the search began. -/
def toAutomaton (d : TaggedDfa) : Automaton where
  anchored := d.props.anchored
  lookbehind := d.props.lookbehind
  groupCount := d.groupCount
  scan input _ start limit := d.scan input start limit

end TaggedDfa

end LazyMatch
