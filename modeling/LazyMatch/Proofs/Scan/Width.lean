import LazyMatch.Proofs.Scan.Registers

/-!
# How many boundaries a scan reports

Two boundaries are due for each group, but registers are counted in 32-bit words. From 2³¹ groups on
their number wraps: 2³¹ groups leave no register at all, which is taken for a scan that found
nothing, and more groups leave too few. Below that, and only there, a scan that comes to a state
that accepts reports both boundaries of every group (`TaggedDfa.boundaries_complete_iff`).
-/

namespace LazyMatch

namespace TaggedDfa

variable {t : TaggedTable} {props : ScanProps} {d : TaggedDfa} {input : Input} {start limit : Int}
  {q : Nat → StateId}

/-- A scan that comes to a state that accepts reports as many boundaries as there are registers, if
there are any. -/
theorem scan_of_accepting (h : ofTable t props = .ok d)
    (hfits : Direction.forward.Fits input.size start limit)
    (hq : t.toTable.Visits .forward input start (Direction.forward.distance start limit) q)
    (haccepts : ∃ j ≤ Direction.forward.distance start limit, t.AcceptsIn (q j)) :
    (2 * t.groupCount.toNat % 2 ^ 32 = 0 ∧ d.scan input start limit = .ok .noMatch) ∨
      2 * t.groupCount.toNat % 2 ^ 32 ≠ 0 ∧
        ∃ boundaries, d.scan input start limit = .ok (.groups boundaries) ∧
          boundaries.size = 2 * t.groupCount.toNat % 2 ^ 32 := by
  have hwidth : (d.groupCount * 2).toNat = 2 * t.groupCount.toNat % 2 ^ 32 := by
    rw [toNat_mul_two, groupCount_eq h]
  rcases scan_of_visits h hfits hq with ⟨-, hnone⟩ | ⟨last, hscan, -⟩
  · rcases haccepts with ⟨j, hj, haccepts⟩
    exact absurd haccepts (hnone j hj)
  · by_cases hzero : d.groupCount * 2 = 0
    · rw [if_pos hzero] at hscan
      rw [hzero, UInt32.toNat_zero] at hwidth
      exact .inl ⟨hwidth.symm, hscan⟩
    · rw [if_neg hzero] at hscan
      refine .inr ⟨fun hnone => hzero (UInt32.toNat_inj.1 (hwidth.trans hnone)), _, hscan, ?_⟩
      exact size_boundariesAfter.trans hwidth

/-- Let `d` be laid out from a tagged table, let `start` and `limit` be positions of the input in
this order, and let one of the states accept that the table visits on the bytes between them, the
first one and the last one included. The scan reports two boundaries for each group, so that both
exist of every group, exactly if there are less than 2³¹ groups. If there are 2³¹ it finds nothing,
and if there are more it reports 2³² boundaries too few. -/
theorem boundaries_complete_iff (h : ofTable t props = .ok d) (origin : Int) (hlow : 0 ≤ start)
    (hordered : start ≤ limit) (hhigh : limit ≤ input.size)
    (hq : t.toTable.Visits .forward input start (limit - start).toNat q)
    (haccepts : ∃ j ≤ (limit - start).toNat, t.AcceptsIn (q j)) :
    ((∃ boundaries, d.toAutomaton.scan input origin start limit = .ok (.groups boundaries) ∧
        boundaries.size = 2 * d.toAutomaton.groupCount.toNat ∧
        ∀ i < d.toAutomaton.groupCount.toNat,
          2 * i < boundaries.size ∧ 2 * i + 1 < boundaries.size) ↔
      t.groupCount.toNat < 2 ^ 31) ∧
    (t.groupCount.toNat = 2 ^ 31 → d.toAutomaton.scan input origin start limit = .ok .noMatch) ∧
    (2 ^ 31 < t.groupCount.toNat → ∃ boundaries,
      d.toAutomaton.scan input origin start limit = .ok (.groups boundaries) ∧
        boundaries.size = 2 * d.toAutomaton.groupCount.toNat - 2 ^ 32) := by
  have hfits : Direction.forward.Fits input.size start limit := ⟨hlow, hordered, hhigh⟩
  have hcount : d.toAutomaton.groupCount = t.groupCount := groupCount_eq h
  have hsome := (ofTable_eq_ok_iff.1 h).1.toNat_groupCount_ne_zero
  have hword : t.groupCount.toNat < 2 ^ 32 := t.groupCount.toNat_lt
  rw [hcount]
  change ((∃ boundaries, d.scan input start limit = _ ∧ _) ↔ _) ∧
    (_ → d.scan input start limit = _) ∧ (_ → ∃ boundaries, d.scan input start limit = _ ∧ _)
  rcases scan_of_accepting h hfits hq haccepts
    with ⟨hwraps, hscan⟩ | ⟨hwidth, boundaries, hscan, hsize⟩
  · -- Twice a number of groups wraps to 0 only if there are 2³¹ of them, because there are some.
    have hhalf : t.groupCount.toNat = 2 ^ 31 := by omega
    rw [hscan]
    refine ⟨⟨?_, fun hfew => absurd hfew (by omega)⟩, fun _ => rfl, fun hmany => by omega⟩
    rintro ⟨boundaries, hfound, -⟩
    cases hfound
  · rw [hscan]
    refine ⟨⟨?_, fun hfew => ⟨boundaries, rfl, by omega, fun i hi => by omega⟩⟩,
      fun hhalf => absurd hwidth (by omega), fun hmany => ⟨boundaries, rfl, by omega⟩⟩
    rintro ⟨_, ⟨⟩, hcomplete, -⟩
    omega

end TaggedDfa

/-- The empty input is a match, and the groups take no part in it. -/
def emptyMatchTable (groupCount : UInt32) : TaggedTable where
  alphabetSize := 1
  symbolOf := Vector.replicate 256 0
  startAtEdge := 1
  startInside := 1
  states := #[.dead 1, { next := #[0], accepting := true }]
  groupCount
  tags := #[.none 1, .none 1]

theorem emptyMatchTable_sound {groupCount : UInt32} (h : groupCount ≠ 0) :
    (emptyMatchTable groupCount).Sound where
  alphabet := by simp [emptyMatchTable]
  states := by simp [emptyMatchTable, maxStates]
  symbols := by simp [emptyMatchTable]
  startAtEdge := by simp [emptyMatchTable]
  startInside := by simp [emptyMatchTable]
  width := by simp [emptyMatchTable, State.dead]
  successors := by simp [emptyMatchTable, State.dead, deadState]
  dead := by simp [emptyMatchTable, State.dead, deadState]
  groups := h
  tags := by simp [emptyMatchTable]
  tagWidth := by simp [emptyMatchTable, StateTags.none]
  registers := by simp [emptyMatchTable, StateTags.none, StateTags.ops]

theorem emptyMatchTable_visits (groupCount : UInt32) :
    (emptyMatchTable groupCount).toTable.Visits .forward #[] 0 0 fun _ => 1 where
  first := rfl
  next := fun i hi => absurd hi (Nat.not_lt_zero i)

theorem emptyMatchTable_acceptsIn (groupCount : UInt32) :
    (emptyMatchTable groupCount).AcceptsIn 1 :=
  ⟨_, rfl, rfl⟩

/-- With 2³¹ groups nothing is found on the empty input, in a state that accepts; with one group
more two boundaries are found. -/
theorem emptyMatch_boundaries_incomplete :
    ∃ half more, TaggedDfa.ofTable (emptyMatchTable 2147483648) ⟨.forward, false, 0, false⟩ =
        .ok half ∧
      TaggedDfa.ofTable (emptyMatchTable 2147483649) ⟨.forward, false, 0, false⟩ = .ok more ∧
      (emptyMatchTable 2147483648).AcceptsIn 1 ∧ half.toAutomaton.scan #[] 0 0 0 = .ok .noMatch ∧
      (emptyMatchTable 2147483649).AcceptsIn 1 ∧
      ∃ boundaries, more.toAutomaton.scan #[] 0 0 0 = .ok (.groups boundaries) ∧
        boundaries.size = 2 := by
  have hprops : (⟨.forward, false, 0, false⟩ : ScanProps).direction = .forward ∧
      ¬ (⟨.forward, false, 0, false⟩ : ScanProps).reporting := by decide
  have hhalf := TaggedDfa.ofTable_of_sound
    (emptyMatchTable_sound (by decide : (2147483648 : UInt32) ≠ 0)) hprops
  have hmore := TaggedDfa.ofTable_of_sound
    (emptyMatchTable_sound (by decide : (2147483649 : UInt32) ≠ 0)) hprops
  have hend : (0 : Int) ≤ (#[] : Input).size := Int.le_refl 0
  rcases TaggedDfa.boundaries_complete_iff hhalf 0 (Int.le_refl 0) (Int.le_refl 0) hend
    (emptyMatchTable_visits _) ⟨0, Nat.le_refl 0, emptyMatchTable_acceptsIn _⟩
    with ⟨-, hmissed, -⟩
  rcases TaggedDfa.boundaries_complete_iff hmore 0 (Int.le_refl 0) (Int.le_refl 0) hend
    (emptyMatchTable_visits _) ⟨0, Nat.le_refl 0, emptyMatchTable_acceptsIn _⟩
    with ⟨-, -, hcut⟩
  rcases hcut (by decide) with ⟨boundaries, hscan, hsize⟩
  exact ⟨_, _, hhalf, hmore, emptyMatchTable_acceptsIn _, hmissed rfl,
    emptyMatchTable_acceptsIn _, boundaries, hscan, hsize⟩

end LazyMatch
