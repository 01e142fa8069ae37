import LazyMatch.Fault

/-!
# Transition tables

A `Table` is the editable form of a deterministic automaton: bytes are first mapped to symbols of a
small alphabet, and every state has one successor per symbol. State 0 is the dead state, which a
scan never leaves. A `TaggedTable` attaches register operations to transitions and to acceptance, so
that a scan can follow capture groups. States are numbered by 16-bit words in the order in which
they are pushed, so the number of a state pushed onto a full table wraps.
-/

namespace LazyMatch

abbrev StateId := UInt16

/-- A letter of the alphabet to which bytes are reduced. -/
abbrev Symbol := UInt16

/-- The state that has no way to a match. -/
def deadState : StateId := 0

/-- One state: its successors by symbol, whether a scan that stands here has matched, and the number
that a reporting scan gives then. -/
structure State where
  next : Array StateId
  accepting : Bool := false
  report : UInt32 := 0
deriving DecidableEq, Repr

/-- A state that leads only to the dead state. -/
def State.dead (alphabetSize : UInt16) : State where
  next := Array.replicate alphabetSize.toNat deadState

/-- The editable form of an automaton. -/
structure Table where
  alphabetSize : UInt16
  /-- The symbol of each byte. -/
  symbolOf : Vector Symbol 256
  /-- Where a scan begins at the edge of the input. -/
  startAtEdge : StateId
  /-- Where a scan begins anywhere else. -/
  startInside : StateId
  states : Array State

namespace Table

/-- A table with nothing but its dead state. -/
def new (alphabetSize : UInt16) : Table where
  alphabetSize
  symbolOf := Vector.replicate 256 0
  startAtEdge := deadState
  startInside := deadState
  states := #[State.dead alphabetSize]

/-- Appends a dead row and gives its number. -/
def push (t : Table) : Table × StateId :=
  let number := UInt16.ofNat t.states.size
  ({ t with states := t.states.push (.dead t.alphabetSize) }, number)

end Table

/-! ## Tags -/

/-- Sets a register to the current position, or clears it. -/
structure TagOp where
  register : UInt32
  clear : Bool
deriving DecidableEq, Repr

/-- The register operations of one state: on leaving it by each symbol, and on acceptance. -/
structure StateTags where
  onSymbol : Array (List TagOp)
  onAccept : List TagOp := []
deriving DecidableEq, Repr

/-- No operation anywhere. -/
def StateTags.none (alphabetSize : UInt16) : StateTags where
  onSymbol := Array.replicate alphabetSize.toNat []

/-- A table whose scans follow capture groups. -/
structure TaggedTable extends Table where
  groupCount : UInt32
  tags : Array StateTags

namespace TaggedTable

/-- A table with nothing but its dead state, which carries no operation. -/
def new (alphabetSize : UInt16) (groupCount : UInt32) : TaggedTable where
  toTable := Table.new alphabetSize
  groupCount
  tags := #[StateTags.none alphabetSize]

/-- Appends a dead row without operations and gives its number. -/
def push (t : TaggedTable) : TaggedTable × StateId :=
  let (table, number) := t.toTable.push
  ({ t with toTable := table, tags := t.tags.push (.none table.alphabetSize) }, number)

/-- Appends a dead row and leaves the operations alone, which puts the two out of step. -/
def pushUntagged (t : TaggedTable) : TaggedTable × StateId :=
  let (table, number) := t.toTable.push
  ({ t with toTable := table }, number)

/-- How many registers a scan keeps: two for each group, counted in 32-bit words. -/
def registerCount (t : TaggedTable) : UInt32 :=
  t.groupCount * 2

end TaggedTable

/-! ## What a push leaves in place -/

theorem Table.push_states (t : Table) :
    t.push.1.states = t.states.push (.dead t.alphabetSize) := rfl

theorem Table.push_number (t : Table) : t.push.2 = UInt16.ofNat t.states.size := rfl

theorem TaggedTable.push_tags (t : TaggedTable) :
    t.push.1.tags = t.tags.push (.none t.alphabetSize) := rfl

end LazyMatch
