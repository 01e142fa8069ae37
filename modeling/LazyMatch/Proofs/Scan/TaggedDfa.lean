import LazyMatch.Proofs.Scan.Dfa
import LazyMatch.Proofs.Scan.Operations

/-!
# Scans that follow groups

A scan with registers visits the states that a plain scan forward visits, and performs the
operations of every transition on the way. It answers with the registers as they stood in the last
state that accepts, after the operations of that acceptance (`TaggedDfa.scan_eq`). These act on a
copy, so the registers that later states see come from transitions alone
(`TaggedDfa.registersAfter`). A scan reports the boundaries of groups or nothing, and never a
position of its own.
-/

namespace LazyMatch

namespace TaggedTable

variable {t : TaggedTable} {s : StateId}

/-- The operations of a state. A number that no state has is read as a state without any. -/
def tagsOf (t : TaggedTable) (s : StateId) : StateTags :=
  t.tags.getD s.toNat (.none t.alphabetSize)

/-- The operations of the transition from a state on a byte. -/
def opsOnByte (t : TaggedTable) (s : StateId) (byte : UInt8) : List TagOp :=
  (t.tagsOf s).onSymbol.getD (t.symbol byte).toNat []

/-- How many operations there are in all states together. -/
def opCount (t : TaggedTable) : Nat :=
  (t.tags.toList.map fun tags => tags.ops.length).sum

namespace Sound

theorem getElem?_tagsOf (h : t.Sound) (hs : s.toNat < t.states.size) :
    t.tags[s.toNat]? = some (t.tagsOf s) := by
  have hlt : s.toNat < t.tags.size := by rwa [h.tags]
  rw [tagsOf, Array.getD_eq_getD_getElem?, Array.getElem?_eq_getElem hlt, Option.getD_some]

theorem getElem?_onSymbol (h : t.Sound) (hs : s.toNat < t.states.size) (byte : UInt8) :
    (t.tagsOf s).onSymbol[(t.symbol byte).toNat]? = some (t.opsOnByte s byte) := by
  have hwidth : (t.symbol byte).toNat < (t.tagsOf s).onSymbol.size := by
    rw [h.tagWidth _ (Array.mem_of_getElem? (h.getElem?_tagsOf hs))]
    exact h.symbol_lt byte
  rw [opsOnByte, Array.getD_eq_getD_getElem?, Array.getElem?_eq_getElem hwidth, Option.getD_some]

theorem toNat_groupCount_ne_zero (h : t.Sound) : t.groupCount.toNat ≠ 0 :=
  fun hzero => h.groups (UInt32.toNat_inj.1 hzero)

end Sound

end TaggedTable

namespace TaggedDfa

variable {t : TaggedTable} {props : ScanProps} {d : TaggedDfa} {s : StateId} {byte : UInt8}

/-! ## The layout -/

/-- A tagged table laid out row by row. -/
def layOut (t : TaggedTable) (props : ScanProps) : TaggedDfa where
  toOpLayout := .ofTags t.tags
  props
  groupCount := t.groupCount
  alphabetSize := t.alphabetSize
  symbolOf := t.symbolOf
  successors := t.states.flatMap State.next
  accepting := t.states.map State.accepting
  startAtEdge := t.startAtEdge
  startInside := t.startInside

theorem ofTable_eq_ok_iff :
    ofTable t props = .ok d ↔ t.Sound ∧ (props.direction = .forward ∧ ¬ props.reporting) ∧
      d = layOut t props := by
  rw [← t.check_eq_ok_iff_sound, ofTable]
  cases t.check with
  | error error => exact ⟨nofun, nofun⟩
  | ok checked =>
    change (if _ then Except.ok _ else Except.error _) = _ ↔ _
    split
    · next hprops =>
      constructor
      · rintro ⟨⟩
        exact ⟨rfl, hprops, rfl⟩
      · rintro ⟨-, -, rfl⟩
        rfl
    · next hprops => exact ⟨nofun, fun h => absurd h.2.1 hprops⟩

theorem ofTable_of_sound (h : t.Sound) (hprops : props.direction = .forward ∧ ¬ props.reporting) :
    ofTable t props = .ok (layOut t props) :=
  ofTable_eq_ok_iff.2 ⟨h, hprops, rfl⟩

theorem groupCount_eq (h : ofTable t props = .ok d) : d.groupCount = t.groupCount := by
  rcases ofTable_eq_ok_iff.1 h with ⟨-, -, rfl⟩
  rfl

theorem groupCount_ne_zero (h : ofTable t props = .ok d) : d.groupCount ≠ 0 := by
  rw [groupCount_eq h]
  exact (ofTable_eq_ok_iff.1 h).1.groups

/-! ## Reading the layout -/

/-- The stretch of the transition from a state on a byte. -/
def rangeOnByte (d : TaggedDfa) (s : StateId) (byte : UInt8) : OpRange :=
  d.transitionOps.getD (d.transition s byte) ⟨0, 0⟩

/-- The stretch of acceptance in a state. -/
def rangeOnAccept (d : TaggedDfa) (s : StateId) : OpRange :=
  d.acceptOps.getD s.toNat ⟨0, 0⟩

/-- The operations that lie in the layout for the transition from a state on a byte. -/
def opsOnByte (d : TaggedDfa) (s : StateId) (byte : UInt8) : List TagOp :=
  d.opsOf (d.rangeOnByte s byte)

/-- The operations that lie in the layout for acceptance in a state. -/
def opsOnAccept (d : TaggedDfa) (s : StateId) : List TagOp :=
  d.opsOf (d.rangeOnAccept s)

theorem size_ops (h : ofTable t props = .ok d) : d.ops.size = t.opCount := by
  rcases ofTable_eq_ok_iff.1 h with ⟨-, -, rfl⟩
  rw [← Array.length_toList]
  change (OpLayout.ofTags t.tags).ops.toList.length = _
  rw [OpLayout.ops_ofTags, List.length_flatMap, TaggedTable.opCount]

theorem register_lt (h : ofTable t props = .ok d) {op : TagOp} (hop : op ∈ d.ops) :
    op.register.toNat < (d.groupCount * 2).toNat := by
  rcases ofTable_eq_ok_iff.1 h with ⟨hsound, -, rfl⟩
  have hmem : op ∈ (OpLayout.ofTags t.tags).ops.toList := Array.mem_toList_iff.2 hop
  rw [OpLayout.ops_ofTags] at hmem
  rcases List.mem_flatMap.1 hmem with ⟨tags, htags, hop⟩
  exact UInt32.lt_iff_toNat_lt.1 (hsound.registers tags (Array.mem_toList_iff.1 htags) op hop)

theorem lookup_transitionOps (h : ofTable t props = .ok d) (hs : s.toNat < t.states.size)
    (byte : UInt8) : lookup d.transitionOps (d.transition s byte) = .ok (d.rangeOnByte s byte) ∧
      d.Reads (d.rangeOnByte s byte) (t.opsOnByte s byte) := by
  rcases ofTable_eq_ok_iff.1 h with ⟨hsound, -, rfl⟩
  have hwidth : ∀ tags ∈ t.tags.toList, tags.onSymbol.toList.length = t.alphabetSize.toNat :=
    fun tags hmem => hsound.tagWidth tags (Array.mem_toList_iff.1 hmem)
  refine OpLayout.lookup_range (OpLayout.holds_ofTags t.tags).transitions ?_
  change _[s.toNat * t.alphabetSize.toNat + (t.symbol byte).toNat]? = _
  rw [getElem?_flatMap_of_width hwidth _ (hsound.symbol_lt byte), Array.getElem?_toList,
    hsound.getElem?_tagsOf hs, Option.bind_some, Array.getElem?_toList, hsound.getElem?_onSymbol hs]

theorem lookup_acceptOps (h : ofTable t props = .ok d) (hs : s.toNat < t.states.size) :
    lookup d.acceptOps s.toNat = .ok (d.rangeOnAccept s) ∧
      d.Reads (d.rangeOnAccept s) (t.tagsOf s).onAccept := by
  rcases ofTable_eq_ok_iff.1 h with ⟨hsound, -, rfl⟩
  refine OpLayout.lookup_range (OpLayout.holds_ofTags t.tags).acceptances ?_
  rw [List.getElem?_map, Array.getElem?_toList, hsound.getElem?_tagsOf hs, Option.map_some]

/-- As long as 32-bit words can number the operations, the layout holds those of the table. -/
theorem opsOnByte_eq (h : ofTable t props = .ok d) (hfew : t.opCount < 2 ^ 32)
    (hs : s.toNat < t.states.size) (byte : UInt8) : d.opsOnByte s byte = t.opsOnByte s byte :=
  (lookup_transitionOps h hs byte).2.2 (by rwa [size_ops h])

theorem opsOnAccept_eq (h : ofTable t props = .ok d) (hfew : t.opCount < 2 ^ 32)
    (hs : s.toNat < t.states.size) : d.opsOnAccept s = (t.tagsOf s).onAccept :=
  (lookup_acceptOps h hs).2.2 (by rwa [size_ops h])

theorem lookup_successors (h : ofTable t props = .ok d) (hs : s.toNat < t.states.size)
    (byte : UInt8) : lookup d.successors (d.transition s byte) = .ok (t.successor s byte) := by
  rcases ofTable_eq_ok_iff.1 h with ⟨hsound, -, rfl⟩
  exact Dfa.next_eq (Dfa.ofTable_of_sound hsound.toSound props) hs byte

theorem lookup_accepting (h : ofTable t props = .ok d) (hs : s.toNat < t.states.size) :
    lookup d.accepting s.toNat = .ok (t.accepts s) := by
  rcases ofTable_eq_ok_iff.1 h with ⟨-, -, rfl⟩
  change lookup (t.states.map State.accepting) s.toNat = _
  rw [lookup, Array.getElem?_map, Table.Sound.getElem?_row hs]
  rfl

/-! ## The registers along a scan -/

variable {input : Input} {start limit : Int} {count : Nat}

/-- The registers after `count` bytes from `start` on. -/
def registersAfter (d : TaggedDfa) (t : Table) (input : Input) (start : Int) : Nat → Array Int
  | 0 => d.freshRegisters
  | count + 1 =>
    writeAll (d.opsOnByte (t.stateAfter .forward input start count)
        (Direction.forward.byteAfter input start count))
      (Direction.forward.after start count) (d.registersAfter t input start count)

/-- What a scan from `start` answers if the state after `count` bytes is the last that accepts. -/
def boundariesAfter (d : TaggedDfa) (t : Table) (input : Input) (start : Int) (count : Nat) :
    Array Int :=
  writeAll (d.opsOnAccept (t.stateAfter .forward input start count))
    (Direction.forward.after start count) (d.registersAfter t input start count)

/-- Registers are counted in 32-bit words. -/
theorem toNat_mul_two (groups : UInt32) : (groups * 2).toNat = 2 * groups.toNat % 2 ^ 32 := by
  rw [UInt32.toNat_mul, Nat.mul_comm]
  rfl

/-- With a group there are registers, unless their number wraps. -/
theorem mul_two_ne_zero (h : ofTable t props = .ok d) (hgroups : t.groupCount.toNat < 2 ^ 31) :
    d.groupCount * 2 ≠ 0 := by
  have hsome := (ofTable_eq_ok_iff.1 h).1.toNat_groupCount_ne_zero
  intro hnone
  have hwraps := toNat_mul_two d.groupCount
  rw [hnone, groupCount_eq h, UInt32.toNat_zero, Nat.mod_eq_of_lt (by omega)] at hwraps
  omega

theorem size_registersAfter {t : Table} :
    (d.registersAfter t input start count).size = (d.groupCount * 2).toNat := by
  induction count with
  | zero => exact Array.size_replicate
  | succ count ih => exact size_writeAll.trans ih

theorem size_boundariesAfter {t : Table} :
    (d.boundariesAfter t input start count).size = (d.groupCount * 2).toNat :=
  size_writeAll.trans size_registersAfter

theorem isEmpty_boundariesAfter {t : Table} :
    (d.boundariesAfter t input start count).isEmpty = true ↔ d.groupCount * 2 = 0 := by
  rw [Array.isEmpty_iff_size_eq_zero, size_boundariesAfter, ← UInt32.toNat_zero, UInt32.toNat_inj]

/-- No stretch of operations leads out of the layout or out of the register file. -/
theorem perform_registersAfter (h : ofTable t props = .ok d) {range : OpRange} {list : List TagOp}
    (hreads : d.Reads range list) (i : Int) :
    d.perform range i (d.registersAfter t.toTable input start count) =
      .ok (writeAll (d.opsOf range) i (d.registersAfter t.toTable input start count)) :=
  OpLayout.perform_eq hreads.1 fun op hop => by
    rw [size_registersAfter]
    exact register_lt h hop

/-! ## The walk -/

theorem acceptance_stateAfter (h : ofTable t props = .ok d) (input : Input) (start : Int)
    (count : Nat) :
    d.acceptance (t.stateAfter .forward input start count) (Direction.forward.after start count)
        (d.registersAfter t.toTable input start count) =
      .ok (if t.accepts (t.stateAfter .forward input start count) then
        some (d.boundariesAfter t.toTable input start count) else none) := by
  have hs := (ofTable_eq_ok_iff.1 h).1.stateAfter_lt .forward input start count
  rcases lookup_acceptOps h hs with ⟨hrange, hreads⟩
  rw [acceptance, lookup_accepting h hs, hrange]
  simp only [bind, Except.bind, perform_registersAfter h hreads]
  cases t.accepts (t.stateAfter .forward input start count) <;> rfl

/-- A walk that has got some way, and remembers the boundaries of the last acceptance up to there,
goes on to the last acceptance of all. -/
theorem walk_eq (h : ofTable t props = .ok d)
    (hfits : Direction.forward.Fits input.size start limit) (count done : Nat)
    (hcount : done + count ≤ Direction.forward.distance start limit) :
    d.walk input count (t.stateAfter .forward input start done)
        (Direction.forward.after start done) (d.registersAfter t.toTable input start done)
        ((t.lastAccepting .forward input start done).map
          (d.boundariesAfter t.toTable input start)) =
      .ok ((t.lastAccepting .forward input start (done + count)).map
        (d.boundariesAfter t.toTable input start)) := by
  have hsound := (ofTable_eq_ok_iff.1 h).1.toSound
  -- The induction is on the bytes that are left; each of them adds one to those that are done.
  induction count generalizing done with
  | zero => rfl
  | succ count ih =>
    have hs := hsound.stateAfter_lt .forward input start done
    have hbyte : byteAt input (Direction.forward.after start done) =
        .ok (Direction.forward.byteAfter input start done) := hfits.byteAt_eq (by omega)
    rcases lookup_transitionOps h hs (Direction.forward.byteAfter input start done)
      with ⟨hrange, hreads⟩
    have hregisters : d.perform (d.rangeOnByte (t.stateAfter .forward input start done)
        (Direction.forward.byteAfter input start done)) (Direction.forward.after start done)
          (d.registersAfter t.toTable input start done) =
            .ok (d.registersAfter t.toTable input start (done + 1)) :=
      perform_registersAfter h hreads _
    have hnext : lookup d.successors (d.transition (t.stateAfter .forward input start done)
        (Direction.forward.byteAfter input start done)) =
          .ok (t.stateAfter .forward input start (done + 1)) := lookup_successors h hs _
    simp only [walk, hbyte, hrange, hregisters, hnext, bind, Except.bind]
    split
    · next hdead =>
      -- Nothing is accepted after the dead state, so what is remembered is the answer.
      rw [hsound.lastAccepting_of_dead hdead (count + 1)]
      rfl
    · have hrest := ih (done + 1) (by omega)
      rw [Direction.advance_after, acceptance_stateAfter h]
      dsimp only
      rw [Table.accepted_or_lastAccepting, hrest]
      congr 3
      omega

/-- A scan answers with the boundaries of the last acceptance of the states from its start to its
limit, unless it keeps no registers. -/
theorem scan_eq (h : ofTable t props = .ok d)
    (hfits : Direction.forward.Fits input.size start limit) :
    d.scan input start limit = .ok
      (match t.lastAccepting .forward input start (Direction.forward.distance start limit) with
        | some count =>
          if d.groupCount * 2 = 0 then .noMatch
          else .groups (d.boundariesAfter t.toTable input start count)
        | none => .noMatch) := by
  have hsound := (ofTable_eq_ok_iff.1 h).1.toSound
  have hstart : d.startState start = t.stateAfter .forward input start 0 := by
    rcases ofTable_eq_ok_iff.1 h with ⟨-, -, rfl⟩
    rfl
  have hfirst := acceptance_stateAfter h input start 0
  have hwalk := walk_eq h hfits (Direction.forward.distance start limit) 0 (by omega)
  -- What the first state is remembered for is the last acceptance after no bytes.
  rw [← Table.map_lastAccepting_zero, Direction.after_zero] at hfirst
  rw [Direction.after_zero, Nat.zero_add] at hwalk
  rw [scan, hstart]
  simp only [registersAfter] at hfirst hwalk
  simp only [hfirst, bind, Except.bind]
  split
  · next hdead =>
    rw [hsound.lastAccepting_of_dead_start hdead]
    rfl
  · rw [hwalk]
    cases t.lastAccepting .forward input start (Direction.forward.distance start limit) with
    | none => rfl
    | some count =>
      simp only [Option.map_some, isEmpty_boundariesAfter]
      rfl

/-- Whatever it is given, a scan reports groups or nothing. -/
theorem noMatch_or_groups {outcome : Outcome} (h : d.scan input start limit = .ok outcome) :
    outcome = .noMatch ∨ ∃ boundaries, outcome = .groups boundaries := by
  unfold scan at h
  dsimp only at h
  split at h
  · cases h
    exact .inl rfl
  · rcases exists_of_bind_eq_ok h with ⟨last, -, h⟩
    rcases exists_of_bind_eq_ok h with ⟨found, -, h⟩
    split at h
    · next boundaries =>
      cases h
      split
      · exact .inl rfl
      · exact .inr ⟨boundaries, rfl⟩
    · cases h
      exact .inl rfl

end TaggedDfa

/-- An automaton with registers. -/
inductive Automaton.Tagged : Automaton → Prop
  | ofTable {t : TaggedTable} {props : ScanProps} {d : TaggedDfa}
      (h : TaggedDfa.ofTable t props = .ok d) : Tagged d.toAutomaton

namespace Automaton.Tagged

variable {a : Automaton}

theorem groupCount_ne_zero (h : a.Tagged) : a.groupCount ≠ 0 := by
  cases h with
  | ofTable h => exact TaggedDfa.groupCount_ne_zero h

theorem noMatch_or_groups (h : a.Tagged) {input : Input} {origin start limit : Int}
    {outcome : Outcome} (hscan : a.scan input origin start limit = .ok outcome) :
    outcome = .noMatch ∨ ∃ boundaries, outcome = .groups boundaries := by
  cases h
  exact TaggedDfa.noMatch_or_groups hscan

end Automaton.Tagged

/-! ## A table for any bytes -/

/-- A tagged table by which any bytes are a match, and of which the only group is the last byte. -/
def anyBytesTable : TaggedTable where
  alphabetSize := 1
  symbolOf := Vector.replicate 256 0
  startAtEdge := 1
  startInside := 1
  states := #[.dead 1, { next := #[1], accepting := true }]
  groupCount := 1
  tags := #[.none 1, { onSymbol := #[[⟨0, false⟩]], onAccept := [⟨1, false⟩] }]

theorem anyBytesTable_sound : anyBytesTable.Sound where
  alphabet := by decide
  states := by decide
  symbols := by simp [anyBytesTable]
  startAtEdge := by decide
  startInside := by decide
  width := by decide
  successors := by simp [anyBytesTable, State.dead, deadState]
  dead := by simp [anyBytesTable, State.dead, deadState]
  groups := by decide
  tags := by decide
  tagWidth := by decide
  registers := by decide

theorem anyBytesTable_symbol (byte : UInt8) : anyBytesTable.symbol byte = 0 := by
  simp [Table.symbol, anyBytesTable]

theorem anyBytesTable_stateAfter (dir : Direction) (input : Input) (start : Int) (count : Nat) :
    anyBytesTable.stateAfter dir input start count = 1 := by
  induction count with
  | zero =>
    rw [Table.stateAfter]
    split <;> rfl
  | succ count ih =>
    rw [Table.stateAfter, ih, Table.successor, anyBytesTable_symbol]
    rfl

theorem anyBytesTable_lastAccepting (dir : Direction) (input : Input) (start : Int) (count : Nat) :
    anyBytesTable.lastAccepting dir input start count = some count := by
  cases count with
  | zero => rw [Table.lastAccepting, anyBytesTable_stateAfter, if_pos (by decide)]
  | succ count => rw [Table.lastAccepting, anyBytesTable_stateAfter, if_pos (by decide)]

/-- The automaton that is laid out from the table. -/
def anyBytes : TaggedDfa :=
  .layOut anyBytesTable ⟨.forward, false, 0, false⟩

theorem anyBytes_ofTable :
    TaggedDfa.ofTable anyBytesTable ⟨.forward, false, 0, false⟩ = .ok anyBytes :=
  TaggedDfa.ofTable_of_sound anyBytesTable_sound (by decide)

theorem anyBytesTable_opCount : anyBytesTable.opCount < 2 ^ 32 := by decide

/-- The first register is where the last byte is, and the second one stays unset. -/
theorem anyBytes_registersAfter (input : Input) (start : Int) (count : Nat) :
    anyBytes.registersAfter anyBytesTable.toTable input start (count + 1) =
      #[start + count, unset] := by
  have hops (byte : UInt8) : anyBytes.opsOnByte 1 byte = [⟨0, false⟩] := by
    rw [TaggedDfa.opsOnByte_eq anyBytes_ofTable anyBytesTable_opCount (by decide),
      TaggedTable.opsOnByte, anyBytesTable_symbol]
    rfl
  induction count with
  | zero =>
    rw [TaggedDfa.registersAfter, anyBytesTable_stateAfter, hops, TaggedDfa.registersAfter]
    rfl
  | succ count ih =>
    rw [TaggedDfa.registersAfter, ih, anyBytesTable_stateAfter, hops]
    rfl

end LazyMatch
