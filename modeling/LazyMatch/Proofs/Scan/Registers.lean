import LazyMatch.Proofs.Scan.TaggedDfa
import LazyMatch.Proofs.Scan.Visits

/-!
# The registers of a table, run to the end

`TaggedTable.Follows` reads nothing but a tagged table as it was written down. Beside the states
that are visited there are registers, all unset at first. Each transition changes them by its
operations, in the order of their list, at the position of its byte. Operations of acceptance do not
occur in it, so they change no registers but a copy. Every stretch of an input is followed in one
way only, and the scan answers with the registers of the last state that accepts, after the
operations of that acceptance (`TaggedDfa.scan_exact`), although it finds operations by stretches of
one array, ends early in the dead state, and overwrites what it remembers.
-/

namespace LazyMatch

/-- The table visits the states `q 0` to `q count` on `count` bytes from `start` on, and the
registers are `r i` when it comes to `q i`. -/
structure TaggedTable.Follows (t : TaggedTable) (input : Input) (start : Int) (count : Nat)
    (q : Nat → StateId) (r : Nat → Array Int) : Prop
    extends t.toTable.Visits .forward input start count q where
  fresh : r 0 = Array.replicate (2 * t.groupCount.toNat) unset
  written : ∀ i < count, ∃ byte tags ops, byteAt input (start + i) = .ok byte ∧
    t.tags[(q i).toNat]? = some tags ∧ tags.onSymbol[(t.symbol byte).toNat]? = some ops ∧
    r (i + 1) = writeAll ops (start + i) (r i)

namespace TaggedDfa

variable {t : TaggedTable} {props : ScanProps} {d : TaggedDfa} {input : Input} {start limit : Int}
  {q : Nat → StateId} {r : Nat → Array Int}

/-- A scan of a stretch finds nothing if none of the states accepts that the table visits there, and
otherwise answers for the last one that does, unless it keeps no registers. -/
theorem scan_of_visits (h : ofTable t props = .ok d)
    (hfits : Direction.forward.Fits input.size start limit)
    (hq : t.toTable.Visits .forward input start (Direction.forward.distance start limit) q) :
    (d.scan input start limit = .ok .noMatch ∧
        ∀ j ≤ Direction.forward.distance start limit, ¬ t.AcceptsIn (q j)) ∨
      ∃ last, d.scan input start limit = .ok
          (if d.groupCount * 2 = 0 then .noMatch
            else .groups (d.boundariesAfter t.toTable input start last)) ∧
        IsGreatest {j | j ≤ Direction.forward.distance start limit ∧ t.AcceptsIn (q j)} last := by
  have hsound := (ofTable_eq_ok_iff.1 h).1.toSound
  have hscan := scan_eq h hfits
  rcases hsound.lastAccepting_of_visits hfits hq with ⟨hlast, hnone⟩ | ⟨last, hlast, hgreatest⟩
  · rw [hlast] at hscan
    exact .inl ⟨hscan, hnone⟩
  · rw [hlast] at hscan
    exact .inr ⟨last, hscan, hgreatest⟩

theorem freshRegisters_eq (h : ofTable t props = .ok d) (hgroups : t.groupCount.toNat < 2 ^ 31) :
    d.freshRegisters = Array.replicate (2 * t.groupCount.toNat) unset := by
  rw [freshRegisters, groupCount_eq h, toNat_mul_two, Nat.mod_eq_of_lt (by omega)]

/-- A sound table is followed on every stretch of the input, by the registers of its layout. -/
theorem follows_registersAfter (h : ofTable t props = .ok d)
    (hgroups : t.groupCount.toNat < 2 ^ 31) (hfew : t.opCount < 2 ^ 32)
    (hfits : Direction.forward.Fits input.size start limit) :
    t.Follows input start (Direction.forward.distance start limit)
      (t.stateAfter .forward input start) (d.registersAfter t.toTable input start) := by
  have hsound := (ofTable_eq_ok_iff.1 h).1
  refine { hsound.toSound.visits_stateAfter hfits with fresh := ?_, written := ?_ }
  · exact freshRegisters_eq h hgroups
  · intro i hi
    have hs := hsound.stateAfter_lt .forward input start i
    refine ⟨_, _, _, hfits.byteAt_eq hi, hsound.getElem?_tagsOf hs,
      hsound.getElem?_onSymbol hs _, ?_⟩
    rw [registersAfter, opsOnByte_eq h hfew hs]
    rfl

/-- The table, the input and the start of a stretch decide what the registers hold. -/
theorem eq_registersAfter_of_follows (h : ofTable t props = .ok d)
    (hgroups : t.groupCount.toNat < 2 ^ 31) (hfew : t.opCount < 2 ^ 32)
    (hfits : Direction.forward.Fits input.size start limit)
    (hfollows : t.Follows input start (Direction.forward.distance start limit) q r) {j : Nat}
    (hj : j ≤ Direction.forward.distance start limit) :
    r j = d.registersAfter t.toTable input start j := by
  have hsound := (ofTable_eq_ok_iff.1 h).1
  induction j with
  | zero => exact hfollows.fresh.trans (freshRegisters_eq h hgroups).symm
  | succ j ih =>
    have hbefore := ih (Nat.le_of_succ_le hj)
    have hs := hsound.stateAfter_lt .forward input start j
    rcases hfollows.written j hj with ⟨byte, tags, ops, hbyte, htags, hops, hwritten⟩
    -- Both read the same byte, the same state and the same list of operations.
    cases (hfits.byteAt_eq hj).symm.trans hbyte
    rw [hsound.toSound.eq_stateAfter_of_visits hfits hfollows.toVisits (Nat.le_of_succ_le hj)]
      at htags
    cases (hsound.getElem?_tagsOf hs).symm.trans htags
    cases (hsound.getElem?_onSymbol hs _).symm.trans hops
    rw [hwritten, hbefore, registersAfter, opsOnByte_eq h hfew hs]
    rfl

/-- Let `d` be laid out from a tagged table of less than 2³¹ groups and less than 2³² operations,
and let `start` and `limit` be positions of the input in this order. The table is followed on the
bytes between them, in one way only up to the last of these bytes. The scan finds nothing exactly if
none of the visited states accepts, the first one and the last one included; otherwise it answers
with the registers as they were on coming to the last one that accepts, after the operations of its
acceptance at that position. -/
theorem scan_exact (h : ofTable t props = .ok d) (hgroups : t.groupCount.toNat < 2 ^ 31)
    (hfew : t.opCount < 2 ^ 32) (origin : Int) (hlow : 0 ≤ start) (hordered : start ≤ limit)
    (hhigh : limit ≤ input.size) :
    (∃ q r, t.Follows input start (limit - start).toNat q r) ∧
      ∀ q r, t.Follows input start (limit - start).toNat q r →
        (d.toAutomaton.scan input origin start limit = .ok .noMatch ↔
          ∀ j ≤ (limit - start).toNat, ¬ t.AcceptsIn (q j)) ∧
        ((∃ j ≤ (limit - start).toNat, t.AcceptsIn (q j)) → ∃ last tags,
          IsGreatest {j | j ≤ (limit - start).toNat ∧ t.AcceptsIn (q j)} last ∧
            t.tags[(q last).toNat]? = some tags ∧
            d.toAutomaton.scan input origin start limit =
              .ok (.groups (writeAll tags.onAccept (start + last) (r last)))) := by
  have hfits : Direction.forward.Fits input.size start limit := ⟨hlow, hordered, hhigh⟩
  have hsound := (ofTable_eq_ok_iff.1 h).1
  refine ⟨⟨_, _, follows_registersAfter h hgroups hfew hfits⟩, fun q r hfollows => ?_⟩
  change t.Follows input start (Direction.forward.distance start limit) q r at hfollows
  rcases scan_of_visits h hfits hfollows.toVisits with ⟨hscan, hnone⟩ | ⟨last, hscan, hgreatest⟩
  · refine ⟨⟨fun _ => hnone, fun _ => hscan⟩, ?_⟩
    rintro ⟨j, hj, haccepts⟩
    exact absurd haccepts (hnone j hj)
  · have hs := hsound.stateAfter_lt .forward input start last
    have hstate := hsound.toSound.eq_stateAfter_of_visits hfits hfollows.toVisits hgreatest.1.1
    have hregisters := eq_registersAfter_of_follows h hgroups hfew hfits hfollows hgreatest.1.1
    rw [if_neg (mul_two_ne_zero h hgroups), boundariesAfter, opsOnAccept_eq h hfew hs] at hscan
    refine ⟨⟨fun hscan' => ?_, fun hnone => absurd hgreatest.1.2 (hnone last hgreatest.1.1)⟩,
      fun _ => ⟨last, t.tagsOf (q last), hgreatest, ?_, ?_⟩⟩
    · cases hscan.symm.trans hscan'
    · rw [hstate]
      exact hsound.getElem?_tagsOf hs
    · rw [hregisters, hstate]
      exact hscan

end TaggedDfa

/-- Of two bytes the first one writes 0 for the start of the group and the second one 1; each state
accepts, and the last one puts the end at 2. -/
theorem anyBytes_scan_exact :
    ∃ q r, TaggedDfa.ofTable anyBytesTable ⟨.forward, false, 0, false⟩ = .ok anyBytes ∧
      anyBytesTable.Follows #[120, 121] 0 2 q r ∧
      IsGreatest {j | j ≤ 2 ∧ anyBytesTable.AcceptsIn (q j)} 2 ∧ r 1 = #[0, -1] ∧ r 2 = #[1, -1] ∧
      anyBytes.toAutomaton.scan #[120, 121] 0 0 2 = .ok (.groups #[1, 2]) := by
  let input : Input := #[120, 121]
  have hfits : Direction.forward.Fits input.size 0 2 := ⟨by decide, by decide, by decide⟩
  have hgroups : anyBytesTable.groupCount.toNat < 2 ^ 31 := by decide
  have hfew : anyBytesTable.opCount < 2 ^ 32 := anyBytesTable_opCount
  let q := anyBytesTable.stateAfter .forward input 0
  let r := anyBytes.registersAfter anyBytesTable.toTable input 0
  have hfollows : anyBytesTable.Follows input 0 2 q r :=
    TaggedDfa.follows_registersAfter anyBytes_ofTable hgroups hfew hfits
  have haccepts (j : Nat) : anyBytesTable.AcceptsIn (q j) := by
    rw [show q j = 1 from anyBytesTable_stateAfter .forward input 0 j]
    exact ⟨_, rfl, rfl⟩
  have hgreatest : IsGreatest {j | j ≤ 2 ∧ anyBytesTable.AcceptsIn (q j)} 2 :=
    ⟨⟨Nat.le_refl 2, haccepts 2⟩, fun j hj => hj.1⟩
  rcases TaggedDfa.scan_exact anyBytes_ofTable hgroups hfew 0 (by decide : (0 : Int) ≤ 0)
    (by decide : (0 : Int) ≤ 2) (by decide : (2 : Int) ≤ input.size) with ⟨-, hexact⟩
  rcases (hexact q r hfollows).2 ⟨2, Nat.le_refl 2, haccepts 2⟩
    with ⟨last, tags, hlast, htags, hscan⟩
  cases hlast.unique hgreatest
  rw [show q 2 = 1 from anyBytesTable_stateAfter .forward input 0 2] at htags
  cases htags
  have hone : r 1 = #[0, -1] := anyBytes_registersAfter input 0 0
  have htwo : r 2 = #[1, -1] := anyBytes_registersAfter input 0 1
  rw [htwo] at hscan
  exact ⟨q, r, anyBytes_ofTable, hfollows, hgreatest, hone, htwo, hscan⟩

end LazyMatch
