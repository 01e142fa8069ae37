import LazyMatch.Proofs.Scan.Dfa

/-!
# The states of a table, run to the end

`Table.Visits` reads nothing but the rows of a table as it was written down: from one of its two
first states, each byte leads to the successor that the row of the state has for the symbol of the
byte, dead or not. Every stretch of an input visits states in one way only, and what a plain scan of
the stretch answers is told by the last of them that accepts (`Dfa.scan_of_visits`), although the
scan reads a flat array, ends early in the dead state, and overwrites what it remembers.
-/

namespace LazyMatch

namespace Table

variable {t : Table} {dir : Direction} {input : Input} {start limit : Int} {count : Nat}
  {q : Nat → StateId} {s : StateId} {row : State}

/-- The row of the state is an accepting one. -/
def AcceptsIn (t : Table) (s : StateId) : Prop :=
  ∃ row, t.states[s.toNat]? = some row ∧ row.accepting = true

/-- The states `q 0` to `q count` are those that the table visits on `count` bytes from `start` on. -/
structure Visits (t : Table) (dir : Direction) (input : Input) (start : Int) (count : Nat)
    (q : Nat → StateId) : Prop where
  first : q 0 = if start = dir.edge input.size then t.startAtEdge else t.startInside
  next : ∀ i < count, ∃ byte row, byteAt input (dir.after start i) = .ok byte ∧
    t.states[(q i).toNat]? = some row ∧ row.next[(t.symbol byte).toNat]? = some (q (i + 1))

namespace Sound

theorem acceptsIn_iff (hs : s.toNat < t.states.size) : t.AcceptsIn s ↔ t.accepts s = true := by
  constructor
  · rintro ⟨row, hrow, haccepting⟩
    cases (getElem?_row hs).symm.trans hrow
    exact haccepting
  · intro haccepts
    exact ⟨t.row s, getElem?_row hs, haccepts⟩

/-- A sound table visits states on every stretch of the input. -/
theorem visits_stateAfter (h : t.Sound) (hfits : dir.Fits input.size start limit) :
    t.Visits dir input start (dir.distance start limit) (t.stateAfter dir input start) where
  first := rfl
  next i hi := by
    have hs := h.stateAfter_lt dir input start i
    exact ⟨_, _, hfits.byteAt_eq hi, getElem?_row hs, h.getElem?_next hs _⟩

/-- The table, the input and the start of a stretch decide which states are visited. -/
theorem eq_stateAfter_of_visits (h : t.Sound) (hfits : dir.Fits input.size start limit)
    (hq : t.Visits dir input start (dir.distance start limit) q) {j : Nat}
    (hj : j ≤ dir.distance start limit) : q j = t.stateAfter dir input start j := by
  induction j with
  | zero => exact hq.first
  | succ j ih =>
    have hbefore : q j = t.stateAfter dir input start j := ih (Nat.le_of_succ_le hj)
    have hs := h.stateAfter_lt dir input start j
    rcases hq.next j hj with ⟨byte, row, hbyte, hrow, hnext⟩
    -- Both read the same byte, and the same row of the table.
    cases (hfits.byteAt_eq hj).symm.trans hbyte
    rw [hbefore] at hrow
    cases (getElem?_row hs).symm.trans hrow
    exact Option.some.inj (hnext.symm.trans (h.getElem?_next hs _))

/-- The states that accept are the same on both sides, and so is the last of them. -/
theorem acceptsIn_visits_iff (h : t.Sound) (hfits : dir.Fits input.size start limit)
    (hq : t.Visits dir input start (dir.distance start limit) q) {j : Nat}
    (hj : j ≤ dir.distance start limit) :
    t.AcceptsIn (q j) ↔ t.accepts (t.stateAfter dir input start j) = true := by
  rw [h.eq_stateAfter_of_visits hfits hq hj]
  exact acceptsIn_iff (h.stateAfter_lt dir input start j)

/-- None of the visited states accepts, or there is a last one that does. -/
theorem lastAccepting_of_visits (h : t.Sound) (hfits : dir.Fits input.size start limit)
    (hq : t.Visits dir input start (dir.distance start limit) q) :
    (t.lastAccepting dir input start (dir.distance start limit) = none ∧
        ∀ j ≤ dir.distance start limit, ¬ t.AcceptsIn (q j)) ∨
      ∃ last, t.lastAccepting dir input start (dir.distance start limit) = some last ∧
        IsGreatest {j | j ≤ dir.distance start limit ∧ t.AcceptsIn (q j)} last := by
  cases hlast : t.lastAccepting dir input start (dir.distance start limit) with
  | none =>
    refine .inl ⟨rfl, fun j hj haccepts => ?_⟩
    have hnone := lastAccepting_eq_none_iff.1 hlast j hj
    rw [(h.acceptsIn_visits_iff hfits hq hj).1 haccepts] at hnone
    cases hnone
  | some last =>
    have hsame : {j | j ≤ dir.distance start limit ∧ t.AcceptsIn (q j)} =
        {j | j ≤ dir.distance start limit ∧ t.accepts (t.stateAfter dir input start j) = true} := by
      ext j
      exact and_congr_right fun hj => h.acceptsIn_visits_iff hfits hq hj
    exact .inr ⟨last, rfl, hsame ▸ lastAccepting_eq_some_iff.1 hlast⟩

end Sound

end Table

namespace Dfa

variable {t : Table} {props : ScanProps} {d : Dfa} {input : Input} {start limit : Int}
  {q : Nat → StateId}

/-- A scan of a stretch, in whichever direction, finds nothing if none of the states accepts that the
table visits there, and otherwise answers for the last one that does. -/
theorem scan_of_visits (h : ofTable t props = .ok d)
    (hfits : props.direction.Fits input.size start limit)
    (hq : t.Visits props.direction input start (props.direction.distance start limit) q) :
    (d.scan input start limit = .ok .noMatch ∧
        ∀ j ≤ props.direction.distance start limit, ¬ t.AcceptsIn (q j)) ∨
      ∃ last row, d.scan input start limit = .ok (.offset
          (if props.reporting then row.report.toNat else props.direction.after start last)) ∧
        IsGreatest {j | j ≤ props.direction.distance start limit ∧ t.AcceptsIn (q j)} last ∧
        t.states[(q last).toNat]? = some row := by
  have hsound := (ofTable_eq_ok_iff.1 h).1
  have hscan := scan_eq h hfits
  rcases hsound.lastAccepting_of_visits hfits hq with ⟨hlast, hnone⟩ | ⟨last, hlast, hgreatest⟩
  · rw [hlast] at hscan
    exact .inl ⟨hscan, hnone⟩
  · rw [hlast] at hscan
    refine .inr ⟨last, _, hscan, hgreatest, ?_⟩
    rw [hsound.eq_stateAfter_of_visits hfits hq hgreatest.1.1]
    exact Table.Sound.getElem?_row (hsound.stateAfter_lt _ _ _ _)

/-- Let `d` be laid out from a table to scan forward, and let `start` and `limit` be positions of the
input in this order. The table visits states on the bytes between them, in one way only up to the
last of these bytes. The scan finds nothing exactly if none of these states accepts, the first one
and the last one included; otherwise it reports the position after the bytes that lead to the last
one that accepts, or the number in the row of that state if numbers are to be reported. -/
theorem scan_forward_exact (h : ofTable t props = .ok d) (hdir : props.direction = .forward)
    (origin : Int) (hlow : 0 ≤ start) (hordered : start ≤ limit) (hhigh : limit ≤ input.size) :
    (∃ q, t.Visits .forward input start (limit - start).toNat q) ∧
      ∀ q, t.Visits .forward input start (limit - start).toNat q →
        (d.toAutomaton.scan input origin start limit = .ok .noMatch ↔
          ∀ j ≤ (limit - start).toNat, ¬ t.AcceptsIn (q j)) ∧
        ((∃ j ≤ (limit - start).toNat, t.AcceptsIn (q j)) → ∃ last row,
          IsGreatest {j | j ≤ (limit - start).toNat ∧ t.AcceptsIn (q j)} last ∧
            t.states[(q last).toNat]? = some row ∧
            d.toAutomaton.scan input origin start limit =
              .ok (.offset (if props.reporting then row.report.toNat else start + last))) := by
  have hfits : props.direction.Fits input.size start limit := by
    rw [hdir]
    exact ⟨hlow, hordered, hhigh⟩
  have hsound := (ofTable_eq_ok_iff.1 h).1
  have hvisits := hsound.visits_stateAfter hfits
  rw [hdir] at hvisits
  refine ⟨⟨_, hvisits⟩, fun q hq => ?_⟩
  have hcases := scan_of_visits h hfits (q := q) (by rwa [hdir])
  rw [hdir] at hcases
  rcases hcases with ⟨hscan, hnone⟩ | ⟨last, row, hscan, hgreatest, hrow⟩
  · refine ⟨⟨fun _ => hnone, fun _ => hscan⟩, ?_⟩
    rintro ⟨j, hj, haccepts⟩
    exact absurd haccepts (hnone j hj)
  · refine ⟨⟨fun hscan' => ?_, fun hnone => ?_⟩, fun _ => ⟨last, row, hgreatest, hrow, hscan⟩⟩
    · cases hscan.symm.trans hscan'
    · exact absurd hgreatest.1.2 (hnone last hgreatest.1.1)

end Dfa

/-- Of three bytes the first one is a match; the scan does not read the last one. -/
theorem oneByteTable_scan_forward_exact :
    ∃ d q, Dfa.ofTable oneByteTable ⟨.forward, false, 0, false⟩ = .ok d ∧
      oneByteTable.Visits .forward #[120, 97, 98] 0 3 q ∧
      IsGreatest {j | j ≤ 3 ∧ oneByteTable.AcceptsIn (q j)} 1 ∧
      d.toAutomaton.scan #[120, 97, 98] 0 0 3 = .ok (.offset 1) := by
  have hsound := oneByteTable_sound
  have hd := Dfa.ofTable_of_sound hsound ⟨.forward, false, 0, false⟩
  let input : Input := #[120, 97, 98]
  let q := oneByteTable.stateAfter .forward input 0
  have hfits : Direction.forward.Fits input.size 0 3 := ⟨by decide, by decide, by decide⟩
  have hq : oneByteTable.Visits .forward input 0 3 q := hsound.visits_stateAfter hfits
  rcases oneByteTable_stateAfter .forward input 0 with ⟨-, hone, htwo⟩
  have haccepts : oneByteTable.AcceptsIn (q 1) := by
    rw [show q 1 = 2 from hone]
    exact ⟨_, rfl, rfl⟩
  have hgreatest : IsGreatest {j | j ≤ 3 ∧ oneByteTable.AcceptsIn (q j)} 1 := by
    refine ⟨⟨by decide, haccepts⟩, ?_⟩
    rintro j ⟨-, hj⟩
    refine Nat.le_of_not_lt fun hlater => ?_
    -- From the second byte on, all states are dead.
    rcases Nat.exists_eq_add_of_le hlater with ⟨more, rfl⟩
    rw [show q (2 + more) = deadState from hsound.stateAfter_of_dead htwo more,
      Table.Sound.acceptsIn_iff hsound.deadState_lt, hsound.row_deadState.1] at hj
    cases hj
  rcases Dfa.scan_forward_exact hd rfl 0 (by decide : (0 : Int) ≤ 0) (by decide : (0 : Int) ≤ 3)
    (by decide : (3 : Int) ≤ input.size) with ⟨-, hexact⟩
  rcases (hexact q hq).2 ⟨1, by decide, haccepts⟩ with ⟨last, row, hlast, -, hscan⟩
  cases hlast.unique hgreatest
  exact ⟨_, q, hd, hq, hgreatest, hscan⟩

end LazyMatch
