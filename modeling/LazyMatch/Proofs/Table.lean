import LazyMatch.Table.Check

/-!
# Checked tables

A table passes its checks exactly if it is sound (`Table.check_eq_ok_iff_sound`): every byte takes
each of its states to another of them, and nothing leads out of the dead state, which does not
accept. The row, the successors and the acceptance of a state are read off the table as it was
written down, so that a layout can be compared with it. A tagged table that passes has operations
for every transition of every state besides, and all of them stay inside its register file
(`TaggedTable.check_eq_ok_iff_sound`).
-/

namespace LazyMatch

theorem ite_some_eq_none_iff {α : Type} {c : Prop} [Decidable c] (error : α) (rest : Option α) :
    (if c then some error else rest) = none ↔ ¬ c ∧ rest = none := by
  by_cases h : c <;> simp [h]

namespace Table

variable {t : Table}

/-! ## What the checks promise -/

/-- A table that can be scanned without leaving it. -/
structure Sound (t : Table) : Prop where
  alphabet : t.alphabetSize ≠ 0
  states : 0 < t.states.size ∧ t.states.size ≤ maxStates
  symbols : ∀ (byte : Nat) (h : byte < 256), t.symbolOf[byte] < t.alphabetSize
  startAtEdge : t.startAtEdge.toNat < t.states.size
  startInside : t.startInside.toNat < t.states.size
  width : ∀ row ∈ t.states, row.next.size = t.alphabetSize.toNat
  successors : ∀ row ∈ t.states, ∀ s ∈ row.next, s.toNat < t.states.size
  dead : ∀ row ∈ t.states[deadState.toNat]?, row.accepting = false ∧ ∀ s ∈ row.next, s = deadState

theorem rowFault_eq_none_iff {row : State} {i : Nat} :
    t.rowFault row i = none ↔
      row.next.size = t.alphabetSize.toNat ∧ ∀ s ∈ row.next, s.toNat < t.states.size := by
  rw [rowFault, ite_some_eq_none_iff, ite_some_eq_none_iff, Decidable.not_not, Bool.not_eq_true,
    Array.any_eq_false']
  simp

theorem deadFault_eq_none_iff {row : State} :
    deadFault row = none ↔ row.accepting = false ∧ ∀ s ∈ row.next, s = deadState := by
  rw [deadFault, ite_some_eq_none_iff, ite_some_eq_none_iff, Bool.not_eq_true, Bool.not_eq_true,
    Array.any_eq_false']
  simp

theorem rowsFault_eq_none_iff :
    (t.states.zipIdx.findSome? fun (row, i) => t.rowFault row i) = none ↔
      ∀ row ∈ t.states,
        row.next.size = t.alphabetSize.toNat ∧ ∀ s ∈ row.next, s.toNat < t.states.size := by
  rw [Array.findSome?_eq_none_iff]
  constructor
  · intro h row hrow
    rcases Array.mem_iff_getElem?.1 hrow with ⟨i, hi⟩
    exact rowFault_eq_none_iff.1 (h (row, i) (Array.mem_zipIdx_iff_getElem?.2 hi))
  · rintro h ⟨row, i⟩ hrow
    have hmem : row ∈ t.states := Array.mem_of_getElem? (Array.mem_zipIdx_iff_getElem?.1 hrow)
    exact rowFault_eq_none_iff.2 (h row hmem)

/-- The checks accept exactly the tables that can be scanned without leaving them. -/
theorem check_eq_ok_iff_sound (t : Table) : t.check = .ok () ↔ t.Sound := by
  rw [check_eq_ok_iff, firstFault, ite_some_eq_none_iff, ite_some_eq_none_iff,
    ite_some_eq_none_iff, ite_some_eq_none_iff, Option.or_eq_none_iff, rowsFault_eq_none_iff,
    Option.bind_eq_none_iff, Bool.not_eq_true, Vector.any_eq_false]
  simp only [deadFault_eq_none_iff, decide_eq_true_eq, UInt16.not_le, not_or, Nat.not_le,
    Nat.not_lt]
  constructor
  · rintro ⟨halphabet, ⟨hsome, hfew⟩, hsymbol, ⟨hedge, hinside⟩, hrows, hdead⟩
    exact {
      alphabet := halphabet
      states := ⟨Nat.pos_of_ne_zero hsome, hfew⟩
      symbols := hsymbol
      startAtEdge := hedge
      startInside := hinside
      width := fun row hrow => (hrows row hrow).1
      successors := fun row hrow => (hrows row hrow).2
      dead := hdead }
  · intro h
    exact ⟨h.alphabet, ⟨Nat.ne_of_gt h.states.1, h.states.2⟩, h.symbols,
      ⟨h.startAtEdge, h.startInside⟩,
      fun row hrow => ⟨h.width row hrow, h.successors row hrow⟩, h.dead⟩

/-! ## Rows and successors -/

/-- The row of a state. A number that no state has is read as a dead row. -/
def row (t : Table) (s : StateId) : State :=
  t.states.getD s.toNat (.dead t.alphabetSize)

def symbol (t : Table) (byte : UInt8) : Symbol :=
  have inBounds : byte.toNat < 256 := byte.toNat_lt
  t.symbolOf[byte.toNat]

def successor (t : Table) (s : StateId) (byte : UInt8) : StateId :=
  (t.row s).next.getD (t.symbol byte).toNat deadState

def accepts (t : Table) (s : StateId) : Bool := (t.row s).accepting

end Table

namespace Table.Sound

variable {t : Table} {s : StateId}

theorem getElem?_row (hs : s.toNat < t.states.size) : t.states[s.toNat]? = some (t.row s) := by
  rw [row, Array.getD_eq_getD_getElem?, Array.getElem?_eq_getElem hs, Option.getD_some]

theorem row_mem (hs : s.toNat < t.states.size) : t.row s ∈ t.states :=
  Array.mem_of_getElem? (getElem?_row hs)

theorem symbol_lt (h : t.Sound) (byte : UInt8) : (t.symbol byte).toNat < t.alphabetSize.toNat :=
  UInt16.lt_iff_toNat_lt.1 (h.symbols byte.toNat byte.toNat_lt)

theorem getElem?_next (h : t.Sound) (hs : s.toNat < t.states.size) (byte : UInt8) :
    (t.row s).next[(t.symbol byte).toNat]? = some (t.successor s byte) := by
  have hwidth : (t.symbol byte).toNat < (t.row s).next.size := by
    rw [h.width _ (row_mem hs)]
    exact h.symbol_lt byte
  rw [successor, Array.getD_eq_getD_getElem?, Array.getElem?_eq_getElem hwidth, Option.getD_some]

theorem successor_lt (h : t.Sound) (hs : s.toNat < t.states.size) (byte : UInt8) :
    (t.successor s byte).toNat < t.states.size :=
  h.successors _ (row_mem hs) _ (Array.mem_of_getElem? (h.getElem?_next hs byte))

theorem deadState_lt (h : t.Sound) : deadState.toNat < t.states.size := h.states.1

theorem row_deadState (h : t.Sound) :
    t.accepts deadState = false ∧ ∀ s ∈ (t.row deadState).next, s = deadState :=
  h.dead _ (getElem?_row h.deadState_lt)

theorem successor_deadState (h : t.Sound) (byte : UInt8) :
    t.successor deadState byte = deadState :=
  h.row_deadState.2 _ (Array.mem_of_getElem? (h.getElem?_next h.deadState_lt byte))

end Table.Sound

/-! ## Tagged tables -/

/-- The operations of a state, those of its transitions first. -/
def StateTags.ops (tags : StateTags) : List TagOp :=
  tags.onSymbol.toList.flatten ++ tags.onAccept

theorem StateTags.mem_ops_iff {tags : StateTags} {op : TagOp} :
    op ∈ tags.ops ↔ (∃ list ∈ tags.onSymbol, op ∈ list) ∨ op ∈ tags.onAccept := by
  simp [ops]

namespace TaggedTable

variable {t : TaggedTable}

/-- A tagged table that can be scanned without leaving it or its register file. -/
structure Sound (t : TaggedTable) : Prop extends t.toTable.Sound where
  groups : t.groupCount ≠ 0
  tags : t.tags.size = t.states.size
  tagWidth : ∀ tags ∈ t.tags, tags.onSymbol.size = t.alphabetSize.toNat
  registers : ∀ tags ∈ t.tags, ∀ op ∈ tags.ops, op.register < t.registerCount

theorem operationFault_eq_none_iff {registers : UInt32} {ops : List TagOp} :
    operationFault registers ops = none ↔ ∀ op ∈ ops, op.register < registers := by
  simp [operationFault]

theorem tagFault_eq_none_iff {tags : StateTags} :
    t.tagFault tags = none ↔ tags.onSymbol.size = t.alphabetSize.toNat ∧
      ∀ op ∈ tags.ops, op.register < t.registerCount := by
  rw [tagFault, ite_some_eq_none_iff, Decidable.not_not, Option.or_eq_none_iff,
    Array.findSome?_eq_none_iff]
  simp only [operationFault_eq_none_iff, StateTags.mem_ops_iff]
  constructor
  · rintro ⟨hwidth, hsymbols, haccept⟩
    refine ⟨hwidth, ?_⟩
    rintro op (⟨list, hlist, hop⟩ | hop)
    · exact hsymbols list hlist op hop
    · exact haccept op hop
  · rintro ⟨hwidth, hops⟩
    exact ⟨hwidth, fun list hlist op hop => hops op (.inl ⟨list, hlist, hop⟩),
      fun op hop => hops op (.inr hop)⟩

/-- The checks accept exactly the tagged tables that can be scanned without leaving them or their
register file. -/
theorem check_eq_ok_iff_sound (t : TaggedTable) : t.check = .ok () ↔ t.Sound := by
  rw [check_eq_ok_iff, firstFault]
  have htable := (t.toTable.check_eq_ok_iff).symm.trans t.toTable.check_eq_ok_iff_sound
  cases hfault : t.toTable.firstFault with
  | some error =>
    rw [hfault] at htable
    exact ⟨nofun, fun h => absurd (htable.2 h.toSound) (by simp)⟩
  | none =>
    have hsound : t.toTable.Sound := htable.1 hfault
    dsimp only
    rw [ite_some_eq_none_iff, ite_some_eq_none_iff, Decidable.not_not,
      Array.findSome?_eq_none_iff]
    simp only [tagFault_eq_none_iff]
    constructor
    · rintro ⟨hgroups, hsize, htags⟩
      exact { hsound with
        groups := hgroups
        tags := hsize
        tagWidth := fun tags hmem => (htags tags hmem).1
        registers := fun tags hmem => (htags tags hmem).2 }
    · intro h
      exact ⟨h.groups, h.tags, fun tags hmem => ⟨h.tagWidth tags hmem, h.registers tags hmem⟩⟩

end TaggedTable

end LazyMatch
