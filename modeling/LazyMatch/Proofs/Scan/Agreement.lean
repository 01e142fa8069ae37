import LazyMatch.Proofs.Scan.TaggedDfa
import LazyMatch.Proofs.Scan.Visits

/-!
# Scans with and without registers

A scan with registers and a plain scan of the same table visit the same states, so one finds
something exactly if the other does (`TaggedDfa.scan_agrees`). A register is only ever set to where
the scan stands, so no boundary lies outside the match; and where each acceptance sets register 1
last, the whole match ends where the plain scan says, unless the table has so many operations that
32-bit words cannot number them (`TaggedDfa.stop_unset_of_many_operations`).
-/

namespace LazyMatch

/-- Each register is unset or holds a position from `start` to `stop`. -/
def Within (start stop : Int) (registers : Array Int) : Prop :=
  ∀ x ∈ registers, x = unset ∨ start ≤ x ∧ x ≤ stop

namespace Within

variable {start stop stop' : Int} {registers : Array Int}

theorem mono (h : Within start stop registers) (hle : stop ≤ stop') :
    Within start stop' registers := by
  intro x hx
  rcases h x hx with hunset | ⟨hlow, hhigh⟩
  · exact .inl hunset
  · exact .inr ⟨hlow, Int.le_trans hhigh hle⟩

/-- Operations write nothing but the position at which they are performed. -/
theorem writeAll (h : Within start stop registers) (hle : start ≤ stop) (ops : List TagOp) :
    Within start stop (writeAll ops stop registers) := by
  intro x hx
  rcases mem_writeAll hx with hbefore | rfl | rfl
  · exact h x hbefore
  · exact .inr ⟨hle, Int.le_refl x⟩
  · exact .inl rfl

end Within

/-- In each state that accepts, the last operation of acceptance on register 1 sets it. -/
def TaggedTable.SetsStop (t : TaggedTable) : Prop :=
  ∀ (s : StateId) (tags : StateTags), t.AcceptsIn s → t.tags[s.toNat]? = some tags →
    SetsLast 1 tags.onAccept

namespace TaggedDfa

variable {t : TaggedTable} {props plainProps : ScanProps} {d : TaggedDfa} {input : Input}
  {start limit : Int} {count : Nat}

theorem within_registersAfter {t : Table} :
    Within start (start + count) (d.registersAfter t input start count) := by
  induction count with
  | zero => exact fun x hx => .inl (Array.eq_of_mem_replicate hx)
  | succ count ih => exact (ih.writeAll (Int.le.intro count rfl) _).mono (by omega)

theorem within_boundariesAfter {t : Table} :
    Within start (start + count) (d.boundariesAfter t input start count) :=
  within_registersAfter.writeAll (Int.le.intro count rfl) _

/-- An acceptance that sets register 1 last puts the position there. -/
theorem getElem?_boundariesAfter (h : ofTable t props = .ok d)
    (hgroups : t.groupCount.toNat < 2 ^ 31)
    (hsets : SetsLast 1 (d.opsOnAccept (t.stateAfter .forward input start count))) :
    (d.boundariesAfter t.toTable input start count)[1]? = some (start + count) := by
  have hwidth : 1 < (d.groupCount * 2).toNat := by
    -- The number of registers is even, wrapped or not, so if there is one there are two.
    have hwraps := toNat_mul_two d.groupCount
    have hsome : (d.groupCount * 2).toNat ≠ 0 := fun hzero =>
      mul_two_ne_zero h hgroups (UInt32.toNat_inj.1 hzero)
    omega
  change (writeAll _ _ _)[(1 : UInt32).toNat]? = _
  refine getElem?_writeAll_of_setsLast hsets ?_
  rw [size_registersAfter]
  exact hwidth

/-- Both scans find nothing, or both answer for the same state that accepts. -/
theorem scan_with_plain (h : ofTable t props = .ok d) (hgroups : t.groupCount.toNat < 2 ^ 31)
    (hdir : plainProps.direction = .forward) (hreporting : plainProps.reporting = false)
    (hfits : Direction.forward.Fits input.size start limit) :
    ((Dfa.layOut t.toTable plainProps).scan input start limit = .ok .noMatch ∧
        d.scan input start limit = .ok .noMatch) ∨
      ∃ last, t.AcceptsIn (t.stateAfter .forward input start last) ∧
        (Dfa.layOut t.toTable plainProps).scan input start limit = .ok (.offset (start + last)) ∧
        d.scan input start limit =
          .ok (.groups (d.boundariesAfter t.toTable input start last)) := by
  have hsound := (ofTable_eq_ok_iff.1 h).1
  have hscan := scan_eq h hfits
  have hplain := Dfa.scan_eq (Dfa.ofTable_of_sound hsound.toSound plainProps) (hdir ▸ hfits)
  rw [hdir] at hplain
  cases hlast : t.lastAccepting .forward input start (Direction.forward.distance start limit) with
  | none =>
    rw [hlast] at hscan hplain
    exact .inl ⟨hplain, hscan⟩
  | some last =>
    have haccepts := (Table.lastAccepting_eq_some_iff.1 hlast).1.2
    have hs := hsound.stateAfter_lt .forward input start last
    have hanswer : t.answerAfter plainProps input start last = start + last := by
      rw [Table.answerAfter, hreporting, hdir]
      rfl
    rw [hlast] at hscan hplain
    refine .inr ⟨last, (Table.Sound.acceptsIn_iff hs).2 haccepts, ?_, ?_⟩
    · rw [hplain, ← hanswer]
    · rw [hscan]
      exact congrArg _ (if_neg (mul_two_ne_zero h hgroups))

/-- Let `d` be laid out from a tagged table of less than 2³¹ groups, and let `start` and `limit` be
positions of the input in this order. The table without its tags can be laid out as well, to scan
forward for positions, and its scan finds nothing exactly if that of `d` finds nothing. Otherwise it
reports a position `stop`, and `d` reports boundaries that are unset or lie from `start` to `stop`.
If moreover the table sets register 1 last wherever it accepts, and has fewer than 2³² operations,
then boundary 1 is `stop`. -/
theorem scan_agrees (h : ofTable t props = .ok d) (hgroups : t.groupCount.toNat < 2 ^ 31)
    (hdir : plainProps.direction = .forward) (hreporting : plainProps.reporting = false)
    (origin origin' : Int) (hlow : 0 ≤ start) (hordered : start ≤ limit)
    (hhigh : limit ≤ input.size) :
    ∃ plain, Dfa.ofTable t.toTable plainProps = .ok plain ∧
      (d.toAutomaton.scan input origin start limit = .ok .noMatch ↔
        plain.toAutomaton.scan input origin' start limit = .ok .noMatch) ∧
      (plain.toAutomaton.scan input origin' start limit ≠ .ok .noMatch →
        ∃ stop boundaries, plain.toAutomaton.scan input origin' start limit = .ok (.offset stop) ∧
          d.toAutomaton.scan input origin start limit = .ok (.groups boundaries) ∧
          (∀ x ∈ boundaries, x = unset ∨ start ≤ x ∧ x ≤ stop) ∧
          (t.SetsStop → t.opCount < 2 ^ 32 → boundaries[1]? = some stop)) := by
  have hsound := (ofTable_eq_ok_iff.1 h).1
  have hfits : Direction.forward.Fits input.size start limit := ⟨hlow, hordered, hhigh⟩
  refine ⟨_, Dfa.ofTable_of_sound hsound.toSound plainProps, ?_⟩
  change (d.scan input start limit = _ ↔ Dfa.scan _ input start limit = _) ∧
    (Dfa.scan _ input start limit ≠ _ → ∃ stop boundaries, Dfa.scan _ input start limit = _ ∧
      d.scan input start limit = _ ∧ _)
  rcases scan_with_plain h hgroups hdir hreporting hfits
    with ⟨hplain, hscan⟩ | ⟨last, haccepts, hplain, hscan⟩
  · exact ⟨⟨fun _ => hplain, fun _ => hscan⟩, fun hsome => absurd hplain hsome⟩
  · rw [hplain, hscan]
    refine ⟨⟨nofun, nofun⟩, fun _ => ⟨_, _, rfl, rfl, within_boundariesAfter, ?_⟩⟩
    intro hsets hfew
    have hs := hsound.stateAfter_lt .forward input start last
    have hlaid := opsOnAccept_eq h hfew hs
    exact getElem?_boundariesAfter h hgroups
      (hlaid ▸ hsets _ _ haccepts (hsound.getElem?_tagsOf hs))

end TaggedDfa

/-- Of the states for any bytes, only the second one accepts. -/
theorem setsStop_of_anyBytes {t : TaggedTable} (htable : t.toTable = anyBytesTable.toTable)
    (hsets : ∀ tags, t.tags[1]? = some tags → SetsLast 1 tags.onAccept) : t.SetsStop := by
  rintro s tags ⟨row, hrow, haccepting⟩ htags
  rw [htable] at hrow
  have hlt : s.toNat < 2 := (Array.getElem?_eq_some_iff.1 hrow).1
  rcases Nat.le_one_iff_eq_zero_or_eq_one.1 (Nat.le_of_lt_succ hlt) with hzero | hone
  · rw [hzero] at hrow
    cases hrow
    cases haccepting
  · exact hsets tags (hone ▸ htags)

theorem anyBytesTable_setsStop : anyBytesTable.SetsStop := by
  refine setsStop_of_anyBytes rfl ?_
  rintro _ ⟨⟩
  exact ⟨⟨1, false⟩, by decide, rfl⟩

/-- Of two bytes both scans find all, and both say that it ends at 2. -/
theorem anyBytes_scan_agrees :
    ∃ plain boundaries,
      Dfa.ofTable anyBytesTable.toTable ⟨.forward, false, 0, false⟩ = .ok plain ∧
      plain.toAutomaton.scan #[120, 121] 0 0 2 = .ok (.offset 2) ∧
      anyBytes.toAutomaton.scan #[120, 121] 0 0 2 = .ok (.groups boundaries) ∧
      (∀ x ∈ boundaries, x = -1 ∨ 0 ≤ x ∧ x ≤ 2) ∧ boundaries[1]? = some 2 := by
  let input : Input := #[120, 121]
  have hfits : Direction.forward.Fits input.size 0 2 := ⟨by decide, by decide, by decide⟩
  rcases TaggedDfa.scan_agrees anyBytes_ofTable
    (by decide : anyBytesTable.groupCount.toNat < 2 ^ 31)
    (rfl : (⟨.forward, false, 0, false⟩ : ScanProps).direction = .forward) rfl 0 0
    (by decide : (0 : Int) ≤ 0) (by decide : (0 : Int) ≤ 2) (by decide : (2 : Int) ≤ input.size)
    with ⟨plain, hplain, -, hsome⟩
  have hscan : plain.toAutomaton.scan input 0 0 2 = .ok (.offset 2) := by
    refine (Dfa.scan_eq hplain hfits).trans ?_
    rw [anyBytesTable_lastAccepting]
    rfl
  have hfound : plain.toAutomaton.scan input 0 0 2 ≠ .ok .noMatch := by
    rw [hscan]
    exact nofun
  rcases hsome hfound with ⟨stop, boundaries, hstop, hgroups, hwithin, hsets⟩
  cases hscan.symm.trans hstop
  exact ⟨plain, boundaries, hplain, hscan, hgroups, hwithin,
    hsets anyBytesTable_setsStop anyBytesTable_opCount⟩

/-! ## More operations than words can number -/

/-- Any bytes are a match, at the end of which register 1 is set. Other operations, which no scan
performs, are laid out before that one. -/
def lateSetTable (n : Nat) : TaggedTable where
  toTable := anyBytesTable.toTable
  groupCount := 1
  tags := #[{ onSymbol := #[List.replicate n ⟨0, false⟩], onAccept := [] },
    { onSymbol := #[[]], onAccept := [⟨1, false⟩] }]

theorem lateSetTable_sound (n : Nat) : (lateSetTable n).Sound where
  toSound := anyBytesTable_sound.toSound
  groups := anyBytesTable_sound.groups
  tags := rfl
  tagWidth := by simp [lateSetTable, anyBytesTable]
  registers := by
    have hcount : (lateSetTable n).registerCount = 2 := rfl
    simp only [hcount]
    simp [lateSetTable, StateTags.ops]

theorem lateSetTable_opCount (n : Nat) : (lateSetTable n).opCount = n + 1 := by
  simp [TaggedTable.opCount, lateSetTable, StateTags.ops]

theorem lateSetTable_setsStop (n : Nat) : (lateSetTable n).SetsStop := by
  refine setsStop_of_anyBytes rfl ?_
  rintro _ ⟨⟩
  exact ⟨⟨1, false⟩, rfl, rfl⟩

/-- The stretch of the last operation ends at a number that wraps, and so it is empty. -/
theorem lateSetTable_opsOnAccept {n : Nat} (hn : n + 1 = 2 ^ 32) (props : ScanProps) :
    (TaggedDfa.layOut (lateSetTable n) props).opsOnAccept 1 = [] := by
  have hrange : (TaggedDfa.layOut (lateSetTable n) props).rangeOnAccept 1 =
      ⟨.ofNat n, .ofNat (n + 1)⟩ := by
    simp [TaggedDfa.rangeOnAccept, TaggedDfa.layOut, lateSetTable, OpLayout.ofTags,
      OpLayout.addState, OpLayout.addTransition, OpLayout.addAcceptance, OpLayout.nextRange,
      OpLayout.empty]
  have hstop : (UInt32.ofNat (n + 1)).toNat = 0 := by
    rw [hn]
    rfl
  rw [TaggedDfa.opsOnAccept, hrange, OpLayout.opsOf, hstop, Nat.zero_sub, List.take_zero]

/-- With 2³² operations, the scan for registers leaves boundary 1 unset, although the table sets it
last where it accepts and the plain scan finds that the match ends at 0. -/
theorem TaggedDfa.stop_unset_of_many_operations :
    ∃ (t : TaggedTable) (d : TaggedDfa) (plain : Dfa) (boundaries : Array Int),
      t.groupCount = 1 ∧ t.opCount = 2 ^ 32 ∧ t.SetsStop ∧
      TaggedDfa.ofTable t ⟨.forward, false, 0, false⟩ = .ok d ∧
      Dfa.ofTable t.toTable ⟨.forward, false, 0, false⟩ = .ok plain ∧
      plain.toAutomaton.scan #[] 0 0 0 = .ok (.offset 0) ∧
      d.toAutomaton.scan #[] 0 0 0 = .ok (.groups boundaries) ∧ boundaries[1]? = some unset := by
  -- The number is kept as a variable, so that no step counts up to it.
  obtain ⟨n, hn⟩ : ∃ n, n + 1 = 2 ^ 32 := ⟨2 ^ 32 - 1, by omega⟩
  let props : ScanProps := ⟨.forward, false, 0, false⟩
  have hsound := lateSetTable_sound n
  have hplain := Dfa.ofTable_of_sound hsound.toSound props
  have hd : TaggedDfa.ofTable (lateSetTable n) props = .ok _ :=
    TaggedDfa.ofTable_of_sound hsound (by decide)
  have hfits : Direction.forward.Fits (#[] : Input).size 0 0 :=
    ⟨Int.le_refl 0, Int.le_refl 0, Int.le_refl 0⟩
  refine ⟨lateSetTable n, _, _, #[unset, unset], rfl, (lateSetTable_opCount n).trans hn,
    lateSetTable_setsStop n, hd, hplain, ?_, ?_, rfl⟩
  · exact (Dfa.scan_eq hplain hfits).trans rfl
  · have hboundaries : (TaggedDfa.layOut (lateSetTable n) props).boundariesAfter
        (lateSetTable n).toTable #[] 0 0 = #[unset, unset] := by
      have hstate : (lateSetTable n).stateAfter .forward #[] 0 0 = 1 := rfl
      rw [TaggedDfa.boundariesAfter, hstate, lateSetTable_opsOnAccept hn]
      rfl
    refine (TaggedDfa.scan_eq hd hfits).trans ?_
    rw [← hboundaries]
    rfl

end LazyMatch
