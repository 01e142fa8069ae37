import LazyMatch.Scan.TaggedDfa
import LazyMatch.Proofs.Table
import Mathlib.Data.List.Forall2
import Mathlib.Data.List.Induction
import Mathlib.Data.UInt

/-!
# Operations on registers

The operations of a list are performed one after the other, so that later ones overwrite what
earlier ones have written (`writeAll`). A layout puts the lists of all states into one array, and
remembers the stretch that each of them fills (`OpLayout.Reads`). As long as 32-bit words can number
the operations, each stretch holds its list. Beyond that the ends of a stretch wrap, and it may hold
other operations than its list; but it never reaches past the end of the array.
-/

namespace LazyMatch

/-! ## Writing -/

/-- What an operation at position `i` leaves in the registers. -/
def TagOp.write (op : TagOp) (i : Int) (registers : Array Int) : Array Int :=
  registers.setIfInBounds op.register.toNat (if op.clear then unset else i)

/-- What operations at position `i` leave in the registers, performed in the order of the list. -/
def writeAll (ops : List TagOp) (i : Int) (registers : Array Int) : Array Int :=
  ops.foldl (fun registers op => op.write i registers) registers

/-- The last operation of the list on a register sets it to the position. -/
def SetsLast (register : UInt32) (ops : List TagOp) : Prop :=
  ∃ op, (ops.filter fun op => op.register = register).getLast? = some op ∧ op.clear = false

section Write

variable {op : TagOp} {ops : List TagOp} {i x : Int} {registers : Array Int} {register : UInt32}

theorem TagOp.perform_eq (h : op.register.toNat < registers.size) :
    op.perform i registers = .ok (op.write i registers) := by
  rw [perform, dif_pos h, write, Array.setIfInBounds, dif_pos h]

theorem TagOp.size_write : (op.write i registers).size = registers.size :=
  Array.size_setIfInBounds

theorem size_writeAll : (writeAll ops i registers).size = registers.size := by
  induction ops generalizing registers with
  | nil => rfl
  | cons op ops ih => exact ih.trans TagOp.size_write

/-- A register holds what it held before, the position, or nothing. -/
theorem mem_writeAll (h : x ∈ writeAll ops i registers) : x ∈ registers ∨ x = i ∨ x = unset := by
  induction ops generalizing registers with
  | nil => exact .inl h
  | cons op ops ih =>
    rcases ih h with hbefore | hwritten
    · rcases Array.mem_or_eq_of_mem_setIfInBounds hbefore with hkept | rfl
      · exact .inl hkept
      · split
        · exact .inr (.inr rfl)
        · exact .inr (.inl rfl)
    · exact .inr hwritten

theorem getElem?_writeAll_of_setsLast (h : SetsLast register ops)
    (hregister : register.toNat < registers.size) :
    (writeAll ops i registers)[register.toNat]? = some i := by
  -- The induction is from the end of the list, because the last operation on the register counts.
  induction ops using List.reverseRecOn with
  | nil =>
    rcases h with ⟨op, hlast, -⟩
    cases hlast
  | append_singleton ops op ih =>
    rcases h with ⟨last, hlast, hsets⟩
    rw [writeAll, List.foldl_append, List.foldl_cons, List.foldl_nil, TagOp.write]
    change ((writeAll ops i registers).setIfInBounds _ _)[_]? = _
    by_cases hsame : op.register = register
    · rw [List.filter_append, List.filter_cons_of_pos (by simpa using hsame), List.filter_nil,
        List.getLast?_concat] at hlast
      cases hlast
      rw [hsame, hsets, Array.getElem?_setIfInBounds_self_of_lt (by rwa [size_writeAll])]
      rfl
    · rw [List.filter_append, List.filter_cons_of_neg (by simpa using hsame), List.filter_nil,
        List.append_nil] at hlast
      have hother : op.register.toNat ≠ register.toNat := fun h => hsame (UInt32.toNat_inj.1 h)
      rw [Array.getElem?_setIfInBounds_ne hother]
      exact ih ⟨last, hlast, hsets⟩

end Write

namespace OpLayout

variable {l l' : OpLayout} {range : OpRange} {list more : List TagOp}

/-! ## Performing -/

/-- The operations in a stretch of the layout. -/
def opsOf (l : OpLayout) (range : OpRange) : List TagOp :=
  (l.ops.toList.drop range.start.toNat).take (range.stop.toNat - range.start.toNat)

theorem performFrom_eq {i : Int} {registers : Array Int} {count first : Nat}
    (hinside : first + count ≤ l.ops.size)
    (hregisters : ∀ op ∈ l.ops, op.register.toNat < registers.size) :
    l.performFrom i count first registers =
      .ok (writeAll ((l.ops.toList.drop first).take count) i registers) := by
  induction count generalizing first registers with
  | zero => rfl
  | succ count ih =>
    have hfirst : first < l.ops.size := by omega
    have hperform : l.ops[first].perform i registers = .ok (l.ops[first].write i registers) :=
      TagOp.perform_eq (hregisters _ (Array.getElem_mem hfirst))
    have hlist : (l.ops.toList.drop first).take (count + 1) =
        l.ops[first] :: (l.ops.toList.drop (first + 1)).take count := by
      rw [List.drop_eq_getElem_cons (by simpa using hfirst), List.take_succ_cons,
        Array.getElem_toList]
    rw [performFrom, lookup_of_lt hfirst, hlist]
    simp only [bind, Except.bind, hperform]
    exact ih (by omega) (by simpa only [TagOp.size_write] using hregisters)

theorem perform_eq {i : Int} {registers : Array Int} (hstop : range.stop.toNat ≤ l.ops.size)
    (hregisters : ∀ op ∈ l.ops, op.register.toNat < registers.size) :
    l.perform range i registers = .ok (writeAll (l.opsOf range) i registers) := by
  rcases Nat.le_total range.start.toNat range.stop.toNat with hordered | hempty
  · exact performFrom_eq (by omega) hregisters
  · rw [perform, opsOf, Nat.sub_eq_zero_of_le hempty, List.take_zero]
    rfl

/-! ## Laying out -/

/-- The stretch stays inside the layout, and holds the list if the layout is not too large for
32-bit numbers. -/
def Reads (l : OpLayout) (range : OpRange) (list : List TagOp) : Prop :=
  range.stop.toNat ≤ l.ops.size ∧ (l.ops.size < 2 ^ 32 → l.opsOf range = list)

theorem size_ops_append (hops : l'.ops = l.ops ++ more) :
    l'.ops.size = l.ops.size + more.length := by
  rw [hops, ← Array.length_toList, Array.toList_appendList, List.length_append, Array.length_toList]

theorem Reads.append (h : l.Reads range list) (hops : l'.ops = l.ops ++ more) :
    l'.Reads range list := by
  rcases h with ⟨hstop, hlist⟩
  have hsize := size_ops_append hops
  refine ⟨by omega, fun hfew => ?_⟩
  rw [← hlist (by omega), opsOf, opsOf, hops, Array.toList_appendList]
  rcases Nat.le_total range.start.toNat range.stop.toNat with hordered | hempty
  · have hlength : l.ops.toList.length = l.ops.size := Array.length_toList
    -- All of the stretch lies before what was appended.
    rw [List.drop_append_of_le_length (by omega),
      List.take_append_of_le_length (by rw [List.length_drop]; omega)]
  · rw [Nat.sub_eq_zero_of_le hempty, List.take_zero, List.take_zero]

/-- The stretch after the end of the layout holds the list that is put there. -/
theorem reads_nextRange (hops : l'.ops = l.ops ++ list) : l'.Reads (l.nextRange list) list := by
  have hsize := size_ops_append hops
  have hword : UInt32.size = 2 ^ 32 := rfl
  refine ⟨?_, fun hfew => ?_⟩
  · -- An end that wraps only becomes smaller.
    rw [nextRange, hsize]
    exact Nat.mod_le _ _
  · rw [opsOf, nextRange, UInt32.toNat_ofNat_of_lt' (by omega),
      UInt32.toNat_ofNat_of_lt' (by omega), hops, Array.toList_appendList,
      List.drop_left' Array.length_toList]
    simp

/-- The transitions and the acceptances have their stretches in the order of these lists. -/
structure Holds (l : OpLayout) (transitions acceptances : List (List TagOp)) : Prop where
  transitions : List.Forall₂ l.Reads l.transitionOps.toList transitions
  acceptances : List.Forall₂ l.Reads l.acceptOps.toList acceptances

/-- Where a list is, there is its stretch. -/
theorem lookup_range {ranges : Array OpRange} {lists : List (List TagOp)}
    (h : List.Forall₂ l.Reads ranges.toList lists) {i : Nat} (hlist : lists[i]? = some list) :
    lookup ranges i = .ok (ranges.getD i ⟨0, 0⟩) ∧ l.Reads (ranges.getD i ⟨0, 0⟩) list := by
  rcases List.getElem?_eq_some_iff.1 hlist with ⟨hi, rfl⟩
  have hi' : i < ranges.size := by rwa [← Array.length_toList, h.length_eq]
  have hrange : ranges.getD i ⟨0, 0⟩ = ranges[i] := by
    rw [Array.getD_eq_getD_getElem?, Array.getElem?_eq_getElem hi', Option.getD_some]
  rw [hrange]
  exact ⟨lookup_of_lt hi', h.get hi' hi⟩

section Holds

variable {transitions acceptances : List (List TagOp)}

theorem Holds.addTransition (h : l.Holds transitions acceptances) (list : List TagOp) :
    (l.addTransition list).Holds (transitions ++ [list]) acceptances where
  transitions := by
    rw [OpLayout.addTransition, Array.toList_push]
    exact List.rel_append (h.transitions.imp fun _ _ hread => hread.append rfl)
      (.cons (reads_nextRange rfl) .nil)
  acceptances := h.acceptances.imp fun _ _ hread => hread.append rfl

theorem Holds.addAcceptance (h : l.Holds transitions acceptances) (list : List TagOp) :
    (l.addAcceptance list).Holds transitions (acceptances ++ [list]) where
  transitions := h.transitions.imp fun _ _ hread => hread.append rfl
  acceptances := by
    rw [OpLayout.addAcceptance, Array.toList_push]
    exact List.rel_append (h.acceptances.imp fun _ _ hread => hread.append rfl)
      (.cons (reads_nextRange rfl) .nil)

theorem Holds.addTransitions (h : l.Holds transitions acceptances) (lists : List (List TagOp)) :
    (lists.foldl OpLayout.addTransition l).Holds (transitions ++ lists) acceptances := by
  induction lists generalizing l transitions with
  | nil => rwa [List.append_nil]
  | cons list lists ih =>
    rw [List.append_cons]
    exact ih (h.addTransition list)

theorem Holds.addState (h : l.Holds transitions acceptances) (tags : StateTags) :
    (l.addState tags).Holds (transitions ++ tags.onSymbol.toList)
      (acceptances ++ [tags.onAccept]) := by
  rw [OpLayout.addState, ← Array.foldl_toList]
  exact (h.addTransitions _).addAcceptance _

theorem Holds.addStates (h : l.Holds transitions acceptances) (states : List StateTags) :
    (states.foldl OpLayout.addState l).Holds
      (transitions ++ states.flatMap fun tags => tags.onSymbol.toList)
      (acceptances ++ states.map StateTags.onAccept) := by
  induction states generalizing l transitions acceptances with
  | nil => simpa using h
  | cons tags states ih =>
    rw [List.flatMap_cons, List.map_cons, ← List.append_assoc, List.append_cons acceptances]
    exact ih (h.addState tags)

theorem holds_empty : empty.Holds [] [] where
  transitions := .nil
  acceptances := .nil

theorem holds_ofTags (tags : Array StateTags) :
    (ofTags tags).Holds (tags.toList.flatMap fun tags => tags.onSymbol.toList)
      (tags.toList.map StateTags.onAccept) := by
  rw [ofTags, ← Array.foldl_toList]
  exact holds_empty.addStates _

end Holds

theorem ops_addTransitions (lists : List (List TagOp)) :
    (lists.foldl addTransition l).ops.toList = l.ops.toList ++ lists.flatten := by
  induction lists generalizing l with
  | nil => simp
  | cons list lists ih => simp [ih, addTransition]

theorem ops_addState (tags : StateTags) :
    (l.addState tags).ops.toList = l.ops.toList ++ tags.ops := by
  rw [addState, addAcceptance, ← Array.foldl_toList, Array.toList_appendList, ops_addTransitions,
    List.append_assoc, StateTags.ops]

theorem ops_addStates (states : List StateTags) :
    (states.foldl addState l).ops.toList = l.ops.toList ++ states.flatMap StateTags.ops := by
  induction states generalizing l with
  | nil => simp
  | cons tags states ih =>
    rw [List.foldl_cons, ih, ops_addState, List.flatMap_cons, List.append_assoc]

theorem ops_ofTags (tags : Array StateTags) :
    (ofTags tags).ops.toList = tags.toList.flatMap StateTags.ops := by
  rw [ofTags, ← Array.foldl_toList, ops_addStates]
  rfl

end OpLayout

end LazyMatch
