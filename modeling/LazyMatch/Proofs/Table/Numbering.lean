import LazyMatch.Proofs.Table

/-!
# The numbers of states

A push gives the number of the row that it appends, as a 16-bit word. Up to 65536 states this is the
index of the row, and no two rows share a number; the push after that gives the number of the dead
state, and from then on every check refuses the table, whatever is written into its rows. So in a
table that is accepted no number stands for two states (`Table.numbers_apart`). The same holds of
tagged tables, which are refused besides once a push has left their operations out of step.
-/

namespace LazyMatch

/-! ## Numbers that were given -/

/-- What a push leaves behind: the number that it gave, and the index of the row that it
appended. -/
structure Numbered where
  number : StateId
  index : Nat

namespace Numbered

/-- The row at an index, with the number that a push gives to it. -/
def ofIndex (i : Nat) : Numbered := ⟨UInt16.ofNat i, i⟩

/-- Every number is the index of its row, no two rows have the same number, and none has the number
of the dead state. -/
structure Apart (given : List Numbered) : Prop where
  index : ∀ g ∈ given, g.number.toNat = g.index
  distinct : (deadState :: given.map Numbered.number).Nodup

/-- A number is the index of its row as long as 16 bits hold the index. -/
theorem number_ofIndex_iff {i : Nat} :
    (ofIndex i).number.toNat = (ofIndex i).index ↔ i < maxStates := by
  have hnumber : (ofIndex i).number.toNat = i % maxStates := UInt16.toNat_ofNat'
  have hindex : (ofIndex i).index = i := rfl
  rw [hnumber, hindex]
  constructor
  · intro hsame
    rw [← hsame]
    exact Nat.mod_lt i (by decide)
  · intro hfew
    exact Nat.mod_eq_of_lt hfew

/-- Numbers that are the indices of their rows are as different as the indices. -/
theorem nodup_numbers {rows : List Numbered} (hindex : ∀ g ∈ rows, g.number.toNat = g.index)
    (hdistinct : (rows.map Numbered.index).Nodup) : (rows.map Numbered.number).Nodup := by
  refine List.pairwise_map.2 ((List.pairwise_map.1 hdistinct).imp_of_mem ?_)
  intro g g' hg hg' hne hsame
  apply hne
  calc
    g.index = g.number.toNat := (hindex g hg).symm
    _ = g'.number.toNat := by rw [hsame]
    _ = g'.index := hindex g' hg'

/-- The rows of a table, the dead state first, are numbered apart exactly if 16 bits hold all of
their indices. -/
theorem apart_iff {given : List Numbered} {n : Nat}
    (h : ofIndex 0 :: given = (List.range n).map ofIndex) : Apart given ↔ n ≤ maxStates := by
  constructor
  · intro hapart
    refine Nat.le_of_not_lt fun hmany => ?_
    -- The first row whose index is too great is among those that pushes appended.
    have hrow : ofIndex maxStates ∈ ofIndex 0 :: given :=
      h ▸ List.mem_map_of_mem (List.mem_range.2 hmany)
    rcases List.mem_cons.1 hrow with hfirst | hgiven
    · exact absurd (congrArg Numbered.index hfirst) (by decide)
    · exact Nat.lt_irrefl maxStates (number_ofIndex_iff.1 (hapart.index _ hgiven))
  · intro hfew
    have hindex : ∀ g ∈ ofIndex 0 :: given, g.number.toNat = g.index := by
      intro g hg
      rw [h] at hg
      rcases List.mem_map.1 hg with ⟨i, hi, rfl⟩
      exact number_ofIndex_iff.2 (Nat.lt_of_lt_of_le (List.mem_range.1 hi) hfew)
    have hrange : (ofIndex 0 :: given).map Numbered.index = List.range n := by
      rw [h, List.map_map]
      exact List.map_id _
    exact {
      index := fun g hg => hindex g (List.mem_cons_of_mem _ hg)
      distinct := nodup_numbers hindex (hrange ▸ List.nodup_range) }

end Numbered

/-! ## Tables that grow -/

namespace Table

variable {alphabetSize : UInt16} {given : List Numbered} {t u : Table}

/-- `t.Grows given u`: a client that pushes states onto `t`, and between the pushes writes other
rows, starts and symbols over those that are there, comes to `u`. What the pushes left behind is
listed in their order. -/
inductive Grows (t : Table) : List Numbered → Table → Prop
  | refl : Grows t [] t
  | push {given : List Numbered} {u : Table} :
      Grows t given u → Grows t (given ++ [⟨u.push.2, u.states.size⟩]) u.push.1
  | edit {given : List Numbered} {u v : Table} :
      Grows t given u → v.alphabetSize = u.alphabetSize → v.states.size = u.states.size →
        Grows t given v

/-- `u` is `t` with one row more, at whose state no scan has matched, and from which every symbol
leads to the dead state. -/
structure AppendsDead (t u : Table) : Prop where
  size : u.states.size = t.states.size + 1
  earlier : ∀ i < t.states.size, u.states[i]? = t.states[i]?
  row : ∃ row, u.states[t.states.size]? = some row ∧ row.accepting = false ∧
    row.next.size = t.alphabetSize.toNat ∧ ∀ s ∈ row.next, s = deadState
  rest : { u with states := t.states } = t

theorem appendsDead_push (t : Table) : t.AppendsDead t.push.1 where
  size := Array.size_push _
  earlier := by
    intro i hi
    rw [push_states, Array.getElem?_push, if_neg (Nat.ne_of_lt hi)]
  row := by
    refine ⟨.dead t.alphabetSize, ?_, rfl, Array.size_replicate, ?_⟩
    · exact Array.getElem?_push_size
    · intro s hs
      exact (Array.mem_replicate.1 hs).2
  rest := rfl

/-- The alphabet is never changed. -/
theorem Grows.alphabetSize_eq (h : t.Grows given u) : u.alphabetSize = t.alphabetSize := by
  induction h with
  | refl => rfl
  | push h ih => exact ih
  | edit h halphabet hsize ih => exact halphabet.trans ih

/-- From the dead state on, the rows of a table are numbered in their order. -/
theorem Grows.numbered (h : (new alphabetSize).Grows given t) :
    Numbered.ofIndex 0 :: given = (List.range t.states.size).map Numbered.ofIndex := by
  induction h with
  | refl => rfl
  | @push given u h ih =>
    -- What a push leaves behind is the row at the index that was the size before.
    have hsize : u.push.1.states.size = u.states.size + 1 := (appendsDead_push u).size
    calc
      Numbered.ofIndex 0 :: (given ++ [Numbered.ofIndex u.states.size])
          = (List.range u.states.size).map Numbered.ofIndex ++
              [Numbered.ofIndex u.states.size] := by
            rw [← ih, List.cons_append]
      _ = (List.range (u.states.size + 1)).map Numbered.ofIndex := by
            rw [List.range_succ, List.map_append, List.map_singleton]
      _ = (List.range u.push.1.states.size).map Numbered.ofIndex := by rw [hsize]
  | edit h halphabet hsize ih => rw [hsize, ih]

theorem Grows.apart_iff (h : (new alphabetSize).Grows given t) :
    Numbered.Apart given ↔ t.states.size ≤ maxStates :=
  Numbered.apart_iff h.numbered

/-- Once a number is not the index of its row, there are more states than numbers. -/
theorem Grows.maxStates_lt (h : (new alphabetSize).Grows given t)
    (hwrapped : ∃ g ∈ given, g.number.toNat ≠ g.index) : maxStates < t.states.size := by
  rcases hwrapped with ⟨g, hg, hne⟩
  refine Nat.lt_of_not_le fun hfew => hne ?_
  exact (h.apart_iff.2 hfew).index g hg

theorem number_push_iff (t : Table) : t.push.2.toNat = t.states.size ↔ t.states.size < maxStates :=
  Numbered.number_ofIndex_iff

/-- A push keeps a table sound exactly if the number that it gives is the index of its row. -/
theorem Sound.push_iff (h : t.Sound) :
    t.push.1.Sound ↔ t.push.2.toNat = t.states.size := by
  have hpush := appendsDead_push t
  rw [number_push_iff]
  constructor
  · intro hsound
    have hfew := hsound.states.2
    rw [hpush.size] at hfew
    exact hfew
  · intro hfew
    -- Whatever lay inside the table still does, and the new row leads to the dead state only.
    have hgrown : ∀ {n : Nat}, n < t.states.size → n < t.push.1.states.size := by
      intro n hn
      rw [hpush.size]
      exact Nat.lt_succ_of_lt hn
    have hrow : ∀ row ∈ t.push.1.states, row ∈ t.states ∨ row = .dead t.alphabetSize :=
      fun row hmem => Array.mem_push.1 hmem
    exact {
      alphabet := h.alphabet
      states := ⟨hgrown h.states.1, hpush.size ▸ hfew⟩
      symbols := h.symbols
      startAtEdge := hgrown h.startAtEdge
      startInside := hgrown h.startInside
      width := by
        intro row hmem
        rcases hrow row hmem with hold | rfl
        · exact h.width row hold
        · exact Array.size_replicate
      successors := by
        intro row hmem s hs
        rcases hrow row hmem with hold | rfl
        · exact hgrown (h.successors row hold s hs)
        · rw [(Array.mem_replicate.1 hs).2]
          exact hgrown h.states.1
      dead := by
        intro row hmem
        have hfirst : t.push.1.states[deadState.toNat]? = t.states[deadState.toNat]? :=
          hpush.earlier _ h.deadState_lt
        rw [hfirst] at hmem
        exact h.dead row hmem }

/-! ### Up to the limit -/

/-- A new table after `n` pushes. -/
def pushed (alphabetSize : UInt16) : Nat → Table
  | 0 => new alphabetSize
  | n + 1 => (pushed alphabetSize n).push.1

theorem size_pushed (alphabetSize : UInt16) (n : Nat) :
    (pushed alphabetSize n).states.size = n + 1 := by
  induction n with
  | zero => rfl
  | succ n ih => rw [pushed, (appendsDead_push _).size, ih]

theorem exists_grows_pushed (alphabetSize : UInt16) (n : Nat) :
    ∃ given, (new alphabetSize).Grows given (pushed alphabetSize n) := by
  induction n with
  | zero => exact ⟨[], .refl⟩
  | succ n ih =>
    rcases ih with ⟨given, hgrows⟩
    exact ⟨_, hgrows.push⟩

theorem sound_new (h : alphabetSize ≠ 0) : (new alphabetSize).Sound where
  alphabet := h
  states := by simp [new, maxStates]
  symbols := by simp [new, UInt16.pos_iff_ne_zero, h]
  startAtEdge := Nat.one_pos
  startInside := Nat.one_pos
  width := by simp [new, State.dead]
  successors := by simp [new, State.dead, deadState]
  dead := by simp [new, State.dead, deadState]

/-- States can be pushed onto a new table up to the limit. -/
theorem sound_pushed (h : alphabetSize ≠ 0) {n : Nat} (hfew : n < maxStates) :
    (pushed alphabetSize n).Sound := by
  induction n with
  | zero => exact sound_new h
  | succ n ih =>
    have hbefore : (pushed alphabetSize n).Sound := ih (Nat.lt_of_succ_lt hfew)
    refine hbefore.push_iff.2 ((number_push_iff _).2 ?_)
    rw [size_pushed]
    exact hfew

end Table

/-! ## Tagged tables that grow -/

namespace TaggedTable

variable {alphabetSize : UInt16} {groupCount : UInt32} {given : List Numbered} {untagged : Nat}
  {t u : TaggedTable}

/-- `t.Grows given untagged u`: as for tables, and so many of the pushes left the operations alone.
What is written between the pushes are other rows, starts, symbols and operations, for as many
states. -/
inductive Grows (t : TaggedTable) : List Numbered → Nat → TaggedTable → Prop
  | refl : Grows t [] 0 t
  | push {given : List Numbered} {untagged : Nat} {u : TaggedTable} :
      Grows t given untagged u →
        Grows t (given ++ [⟨u.push.2, u.states.size⟩]) untagged u.push.1
  | pushUntagged {given : List Numbered} {untagged : Nat} {u : TaggedTable} :
      Grows t given untagged u →
        Grows t (given ++ [⟨u.pushUntagged.2, u.states.size⟩]) (untagged + 1) u.pushUntagged.1
  | edit {given : List Numbered} {untagged : Nat} {u v : TaggedTable} :
      Grows t given untagged u → v.alphabetSize = u.alphabetSize →
        v.states.size = u.states.size → v.tags.size = u.tags.size → Grows t given untagged v

/-- `u` is `t` with one dead row more, and with an entry of operations for it in which there is none
for any symbol. -/
structure AppendsDead (t u : TaggedTable) : Prop where
  table : t.toTable.AppendsDead u.toTable
  size : u.tags.size = t.tags.size + 1
  earlier : ∀ i < t.tags.size, u.tags[i]? = t.tags[i]?
  entry : ∃ tags, u.tags[t.tags.size]? = some tags ∧
    tags.onSymbol.size = t.alphabetSize.toNat ∧ tags.ops = []
  groupCount : u.groupCount = t.groupCount

theorem ops_none (alphabetSize : UInt16) : (StateTags.none alphabetSize).ops = [] := by
  simp [StateTags.ops, StateTags.none]

theorem appendsDead_push (t : TaggedTable) : t.AppendsDead t.push.1 where
  table := Table.appendsDead_push t.toTable
  size := Array.size_push _
  earlier := by
    intro i hi
    rw [push_tags, Array.getElem?_push, if_neg (Nat.ne_of_lt hi)]
  entry := by
    refine ⟨.none t.alphabetSize, ?_, Array.size_replicate, ops_none t.alphabetSize⟩
    exact Array.getElem?_push_size
  groupCount := rfl

/-- Without its operations, a tagged table grows as any table does. -/
theorem Grows.toTable (h : t.Grows given untagged u) : t.toTable.Grows given u.toTable := by
  induction h with
  | refl => exact .refl
  | push h ih => exact .push ih
  | pushUntagged h ih => exact .push ih
  | edit h halphabet hsize htags ih => exact .edit ih halphabet hsize

/-- As many states lack operations as pushes left them out. -/
theorem Grows.size_tags (h : (new alphabetSize groupCount).Grows given untagged t) :
    t.tags.size + untagged = t.states.size := by
  induction h with
  | refl => rfl
  | @push given untagged u h ih =>
    have hpush := appendsDead_push u
    calc
      u.push.1.tags.size + untagged = u.tags.size + untagged + 1 := by
        rw [hpush.size, Nat.add_right_comm]
      _ = u.states.size + 1 := by rw [ih]
      _ = u.push.1.states.size := hpush.table.size.symm
  | @pushUntagged given untagged u h ih =>
    calc
      u.tags.size + (untagged + 1) = u.states.size + 1 := congrArg (· + 1) ih
      _ = u.pushUntagged.1.states.size := (Table.appendsDead_push u.toTable).size.symm
  | edit h halphabet hsize htags ih => rw [hsize, htags, ih]

/-- A push with operations keeps a tagged table sound exactly if the number that it gives is the
index of its row. -/
theorem Sound.push_iff (h : t.Sound) : t.push.1.Sound ↔ t.push.2.toNat = t.states.size := by
  constructor
  · intro hsound
    exact h.toSound.push_iff.1 hsound.toSound
  · intro hnumber
    have hentry : ∀ tags ∈ t.push.1.tags, tags ∈ t.tags ∨ tags = .none t.alphabetSize :=
      fun tags hmem => Array.mem_push.1 hmem
    exact { h.toSound.push_iff.2 hnumber with
      groups := h.groups
      tags := by
        have hpush := appendsDead_push t
        rw [hpush.size, hpush.table.size, h.tags]
      tagWidth := by
        intro tags hmem
        rcases hentry tags hmem with hold | rfl
        · exact h.tagWidth tags hold
        · exact Array.size_replicate
      registers := by
        intro tags hmem op hop
        rcases hentry tags hmem with hold | rfl
        · exact h.registers tags hold op hop
        · rw [ops_none] at hop
          cases hop }

end TaggedTable

/-- What is not accepted is refused. -/
theorem exists_eq_error_of_ne_ok {verdict : Except CompileError Unit} (h : verdict ≠ .ok ()) :
    ∃ error, verdict = .error error := by
  cases verdict with
  | ok accepted => exact absurd rfl h
  | error error => exact ⟨error, rfl⟩

/-- Let states be pushed onto a new table, with anything written over its rows in between. Each push
appends a dead row as wide as the alphabet and leaves the rows before it as they are. The numbers
are the indices of the rows, all different and none that of the dead state, exactly as long as there
are at most 65536 states; from the first number on that is not the index of its row, the table is
refused. If a table is accepted, one push more leaves it so exactly if its number is the index of
the row.

The same holds of a tagged table. It has an entry of operations for every state, less one for each
push that left the operations alone, and a single such push has it refused for good. -/
theorem Table.numbers_apart (alphabetSize : UInt16) (groupCount : UInt32) :
    (∀ given t, (Table.new alphabetSize).Grows given t →
      (t.alphabetSize = alphabetSize ∧ t.AppendsDead t.push.1) ∧
      (Numbered.Apart given ↔ t.states.size ≤ maxStates) ∧
      ((∃ g ∈ given, g.number.toNat ≠ g.index) → ∃ error, t.check = .error error) ∧
      (t.check = .ok () → (t.push.1.check = .ok () ↔ t.push.2.toNat = t.states.size))) ∧
    (∀ given untagged t, (TaggedTable.new alphabetSize groupCount).Grows given untagged t →
      (t.alphabetSize = alphabetSize ∧ t.AppendsDead t.push.1 ∧
        t.toTable.AppendsDead t.pushUntagged.1.toTable) ∧
      (Numbered.Apart given ↔ t.states.size ≤ maxStates) ∧
      t.tags.size + untagged = t.states.size ∧
      ((∃ g ∈ given, g.number.toNat ≠ g.index) ∨ untagged ≠ 0 →
        ∃ error, t.check = .error error) ∧
      (t.check = .ok () → (t.push.1.check = .ok () ↔ t.push.2.toNat = t.states.size))) := by
  constructor
  · intro given t hgrows
    refine ⟨⟨hgrows.alphabetSize_eq, appendsDead_push t⟩, hgrows.apart_iff, ?_, ?_⟩
    · intro hwrapped
      refine exists_eq_error_of_ne_ok fun haccepted => ?_
      have hsound := (check_eq_ok_iff_sound t).1 haccepted
      exact Nat.not_lt.2 hsound.states.2 (hgrows.maxStates_lt hwrapped)
    · intro haccepted
      rw [check_eq_ok_iff_sound] at haccepted ⊢
      exact haccepted.push_iff
  · intro given untagged t hgrows
    have hplain : (Table.new alphabetSize).Grows given t.toTable := hgrows.toTable
    refine ⟨⟨hplain.alphabetSize_eq, TaggedTable.appendsDead_push t, appendsDead_push t.toTable⟩,
      hplain.apart_iff, hgrows.size_tags, ?_, ?_⟩
    · intro hcause
      refine exists_eq_error_of_ne_ok fun haccepted => ?_
      have hsound := (TaggedTable.check_eq_ok_iff_sound t).1 haccepted
      rcases hcause with hwrapped | huntagged
      · exact Nat.not_lt.2 hsound.states.2 (hplain.maxStates_lt hwrapped)
      · -- The pushes without operations left the two sizes apart for good.
        have hsizes := hgrows.size_tags
        rw [hsound.tags] at hsizes
        exact huntagged (Nat.add_eq_left.1 hsizes)
    · intro haccepted
      rw [TaggedTable.check_eq_ok_iff_sound] at haccepted ⊢
      exact haccepted.push_iff

/-- After 65535 pushes a table has its 65536 states, numbered apart, and is accepted. One push more
gives the number of the dead state, and the table is refused. A tagged table is refused after a
first push that leaves its operations alone. -/
theorem fullTable_numbers_apart :
    ∃ given, (Table.new 1).Grows given (Table.pushed 1 65535) ∧ Numbered.Apart given ∧
      (Table.pushed 1 65535).check = .ok () ∧ (Table.pushed 1 65535).push.2 = deadState ∧
      (∃ error, (Table.pushed 1 65535).push.1.check = .error error) ∧
      ∃ error, (TaggedTable.new 1 1).pushUntagged.1.check = .error error := by
  rcases Table.numbers_apart 1 1 with ⟨hplain, htagged⟩
  rcases Table.exists_grows_pushed 1 65535 with ⟨given, hgrows⟩
  -- The full table is never run: its size, and with it the next number, is known beforehand.
  have hsize := Table.size_pushed 1 65535
  have hnumber : (Table.pushed 1 65535).push.2 = deadState := by
    rw [Table.push_number, hsize]
    rfl
  have haccepted : (Table.pushed 1 65535).check = .ok () :=
    (Table.check_eq_ok_iff_sound _).2 (Table.sound_pushed (by decide) (by decide))
  rcases hplain _ _ hgrows with ⟨-, hapart, -⟩
  rcases hplain _ _ hgrows.push with ⟨-, -, hrefused, -⟩
  rcases htagged _ _ _ TaggedTable.Grows.refl.pushUntagged with ⟨-, -, -, huntagged, -⟩
  refine ⟨given, hgrows, hapart.2 (Nat.le_of_eq hsize), haccepted, hnumber, ?_, ?_⟩
  · refine hrefused ⟨_, List.mem_append_right _ List.mem_cons_self, ?_⟩
    rw [hnumber, hsize]
    decide
  · exact huntagged (.inr (by decide))

end LazyMatch
