import LazyMatch.Table

/-!
# Checking tables

A table can be run when every lookup of a scan stays inside it: the alphabet is not empty, the
states fit their 16-bit numbers, bytes map to symbols of the alphabet, both starts exist, every row
has one existing successor per symbol, and the dead state neither accepts nor leads anywhere else. A
tagged table also needs a group, one entry of operations per state, and registers inside its
register file. `firstFault` names the first rule that is broken, in this order, and `check` is its
verdict.
-/

namespace LazyMatch

/-- How many states 16-bit numbers can tell apart. -/
def maxStates : Nat := 65536

namespace Table

/-- What is wrong with the row of the state numbered `i`. -/
def rowFault (t : Table) (row : State) (i : Nat) : Option CompileError :=
  if row.next.size ≠ t.alphabetSize.toNat then some (.malformedRow i)
  else if row.next.any (fun successor => t.states.size ≤ successor.toNat) then
    some (.missingSuccessor i)
  else none

/-- What is wrong with the dead state. -/
def deadFault (dead : State) : Option CompileError :=
  if dead.accepting then some .deadStateAccepts
  else if dead.next.any (fun successor => successor ≠ deadState) then some .deadStateLeads
  else none

/-- The first rule of tables that `t` breaks. -/
def firstFault (t : Table) : Option CompileError :=
  if t.alphabetSize = 0 then some .emptyAlphabet
  else if t.states.size = 0 ∨ maxStates < t.states.size then some .unsupportedStateCount
  else if t.symbolOf.any (fun symbol => t.alphabetSize ≤ symbol) then some .symbolOutsideAlphabet
  else if t.states.size ≤ t.startAtEdge.toNat ∨ t.states.size ≤ t.startInside.toNat then
    some .missingStartState
  else
    -- Rows come before the dead state, so a malformed dead row is reported as a row.
    (t.states.zipIdx.findSome? fun (row, i) => t.rowFault row i).or
      (t.states[deadState.toNat]?.bind deadFault)

def check (t : Table) : Except CompileError Unit :=
  match t.firstFault with
  | none => .ok ()
  | some error => .error error

theorem check_eq_ok_iff (t : Table) : t.check = .ok () ↔ t.firstFault = none := by
  unfold check
  cases t.firstFault <;> simp

end Table

namespace TaggedTable

/-- The first operation of a list that leaves a file of `registers` registers. -/
def operationFault (registers : UInt32) (ops : List TagOp) : Option CompileError :=
  (ops.find? fun op => registers ≤ op.register).map fun op => .registerOutside op.register

/-- What is wrong with the operations of one state: its transitions are read before its
acceptance. -/
def tagFault (t : TaggedTable) (tags : StateTags) : Option CompileError :=
  if tags.onSymbol.size ≠ t.alphabetSize.toNat then some .malformedTagRow
  else
    (tags.onSymbol.findSome? (operationFault t.registerCount)).or
      (operationFault t.registerCount tags.onAccept)

/-- The first rule of tagged tables that `t` breaks; the rules of plain tables come first. -/
def firstFault (t : TaggedTable) : Option CompileError :=
  match t.toTable.firstFault with
  | some error => some error
  | none =>
    if t.groupCount = 0 then some .noGroups
    else if t.tags.size ≠ t.states.size then some .tagTableMismatch
    else t.tags.findSome? t.tagFault

def check (t : TaggedTable) : Except CompileError Unit :=
  match t.firstFault with
  | none => .ok ()
  | some error => .error error

theorem check_eq_ok_iff (t : TaggedTable) : t.check = .ok () ↔ t.firstFault = none := by
  unfold check
  cases t.firstFault <;> simp

end TaggedTable

end LazyMatch
