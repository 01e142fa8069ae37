import LazyMatch.Proofs.Scan.Dfa

/-!
# Scans of the input turned round

A scan backward and a scan forward of the input turned round read the same bytes in the same order,
if each begins at the mirror image of the other's start. They visit the same states, so they find
something on the same inputs, at positions that mirror each other (`Dfa.scan_backward_mirrors`).
This includes the edges: the position before the input mirrors the one after it, and an input of no
bytes has only the one position that is both.
-/

namespace LazyMatch

/-- Where a position of a scan backward lies once an input of this length is turned round. -/
def mirror (length : Nat) (i : Int) : Int := length - 1 - i

namespace Direction

variable {input : Input} {start limit : Int} {count : Nat}

theorem mirror_eq_edge_iff {length : Nat} :
    mirror length start = forward.edge length ↔ start = backward.edge length := by
  simp only [mirror, edge]
  omega

theorem mirror_after (length : Nat) (start : Int) (count : Nat) :
    mirror length (backward.after start count) = forward.after (mirror length start) count := by
  simp only [mirror, after]
  omega

theorem distance_mirror (length : Nat) (start limit : Int) :
    forward.distance (mirror length start) (mirror length limit) =
      backward.distance start limit := by
  simp only [mirror, distance]
  omega

theorem Fits.mirror (h : backward.Fits input.size start limit) :
    forward.Fits input.reverse.size (mirror input.size start) (mirror input.size limit) := by
  rw [Array.size_reverse]
  simp only [Fits, LazyMatch.mirror] at *
  omega

/-- The bytes come in the same order. -/
theorem byteAfter_reverse (h : backward.Fits input.size start limit)
    (hcount : count < backward.distance start limit) :
    forward.byteAfter input.reverse (LazyMatch.mirror input.size start) count =
      backward.byteAfter input start count := by
  -- Bytes are found by natural numbers, so the mirrored position is compared as one.
  have hplace : (forward.after (LazyMatch.mirror input.size start) count).toNat =
      input.size - 1 - (backward.after start count).toNat := by
    simp only [Fits, distance, LazyMatch.mirror, after] at *
    omega
  have hinside : (backward.after start count).toNat < input.size := by
    simp only [Fits, distance, after] at *
    omega
  rw [byteAfter, byteAfter, hplace, Array.getD_eq_getD_getElem?, Array.getD_eq_getD_getElem?,
    Array.getElem?_reverse (by omega)]
  congr 2
  omega

end Direction

namespace Table

variable {t : Table} {input : Input} {start limit : Int} {count : Nat}

/-- After the same number of bytes both scans stand in the same state. -/
theorem stateAfter_reverse (h : Direction.backward.Fits input.size start limit)
    (hcount : count ≤ Direction.backward.distance start limit) :
    t.stateAfter .forward input.reverse (mirror input.size start) count =
      t.stateAfter .backward input start count := by
  induction count with
  | zero =>
    have hedge : mirror input.size start = Direction.forward.edge input.reverse.size ↔
        start = Direction.backward.edge input.size := Direction.mirror_eq_edge_iff
    simp only [stateAfter, hedge]
  | succ count ih =>
    rw [stateAfter, stateAfter, ih (Nat.le_of_succ_le hcount), Direction.byteAfter_reverse h hcount]

theorem lastAccepting_reverse (h : Direction.backward.Fits input.size start limit)
    (hcount : count ≤ Direction.backward.distance start limit) :
    t.lastAccepting .forward input.reverse (mirror input.size start) count =
      t.lastAccepting .backward input start count := by
  induction count with
  | zero => rw [lastAccepting, lastAccepting, stateAfter_reverse h hcount]
  | succ count ih =>
    rw [lastAccepting, lastAccepting, stateAfter_reverse h hcount, ih (Nat.le_of_succ_le hcount)]

/-- Numbers of states are the same on both sides, and positions are mirrored. -/
theorem answerAfter_reverse (props : ScanProps) (h : Direction.backward.Fits input.size start limit)
    (hcount : count ≤ Direction.backward.distance start limit) :
    t.answerAfter { props with direction := .backward } input start count =
      if props.reporting then
        t.answerAfter { props with direction := .forward } input.reverse (mirror input.size start)
          count
      else
        mirror input.size (t.answerAfter { props with direction := .forward } input.reverse
          (mirror input.size start) count) := by
  cases hreporting : props.reporting with
  | true => simp only [answerAfter, if_true, stateAfter_reverse h hcount]
  | false =>
    simp only [answerAfter, Bool.false_eq_true, if_false]
    rw [← Direction.mirror_after, mirror, mirror]
    omega

end Table

namespace Dfa

variable {t : Table} {props : ScanProps} {back forth : Dfa} {input : Input} {start limit : Int}

/-- Both scans find nothing, or both find something, and they report the same number or positions
that mirror each other. -/
theorem scan_reverse (hback : ofTable t { props with direction := .backward } = .ok back)
    (hforth : ofTable t { props with direction := .forward } = .ok forth)
    (hfits : Direction.backward.Fits input.size start limit) :
    (back.scan input start limit = .ok .noMatch ∧
        forth.scan input.reverse (mirror input.size start) (mirror input.size limit) =
          .ok .noMatch) ∨
      ∃ value, forth.scan input.reverse (mirror input.size start) (mirror input.size limit) =
          .ok (.offset value) ∧
        back.scan input start limit =
          .ok (.offset (if props.reporting then value else mirror input.size value)) := by
  rw [scan_eq hback hfits, scan_eq hforth hfits.mirror, Direction.distance_mirror,
    Table.lastAccepting_reverse hfits (Nat.le_refl _)]
  cases hlast : t.lastAccepting .backward input start
      (Direction.backward.distance start limit) with
  | none => exact .inl ⟨rfl, rfl⟩
  | some last =>
    have hcount := (Table.lastAccepting_eq_some_iff.1 hlast).1.1
    refine .inr ⟨_, rfl, ?_⟩
    rw [← Table.answerAfter_reverse props hfits hcount]

/-- Let two automata be laid out from one table, to scan backward and forward, and let `start` and
`limit` be positions of a scan backward in this order. The scan backward finds nothing exactly if
the scan forward of the input turned round finds nothing between the mirrored positions. Otherwise
both report the number of the same state, or both report positions, of which one mirrors the
other. -/
theorem scan_backward_mirrors
    (hback : ofTable t { props with direction := .backward } = .ok back)
    (hforth : ofTable t { props with direction := .forward } = .ok forth)
    (origin origin' : Int) (hlow : -1 ≤ limit) (hordered : limit ≤ start)
    (hhigh : start ≤ input.size - 1) :
    (back.toAutomaton.scan input origin start limit = .ok .noMatch ↔
        forth.toAutomaton.scan input.reverse origin' (input.size - 1 - start)
          (input.size - 1 - limit) = .ok .noMatch) ∧
      (back.toAutomaton.scan input origin start limit ≠ .ok .noMatch →
        ∃ value, forth.toAutomaton.scan input.reverse origin' (input.size - 1 - start)
            (input.size - 1 - limit) = .ok (.offset value) ∧
          back.toAutomaton.scan input origin start limit =
            .ok (.offset (if props.reporting then value else input.size - 1 - value))) := by
  have hfits : Direction.backward.Fits input.size start limit :=
    ⟨hlow, hordered, Int.lt_of_le_sub_one hhigh⟩
  change (back.scan input start limit = _ ↔
      forth.scan input.reverse (mirror _ _) (mirror _ _) = _) ∧
    (back.scan input start limit ≠ _ → ∃ value,
      forth.scan input.reverse (mirror _ _) (mirror _ _) = _ ∧ back.scan input start limit = _)
  rcases scan_reverse hback hforth hfits with ⟨hnone, hnone'⟩ | ⟨value, hforth', hback'⟩
  · exact ⟨⟨fun _ => hnone', fun _ => hnone⟩, fun hsome => absurd hnone hsome⟩
  · rw [hforth', hback']
    exact ⟨⟨nofun, nofun⟩, fun _ => ⟨value, rfl, rfl⟩⟩

end Dfa

/-- Of four bytes the last one is a match backward, and the first one forward once they are turned
round. -/
theorem oneByteTable_scan_mirrors :
    ∃ back forth, Dfa.ofTable oneByteTable ⟨.backward, false, 0, false⟩ = .ok back ∧
      Dfa.ofTable oneByteTable ⟨.forward, false, 0, false⟩ = .ok forth ∧
      forth.toAutomaton.scan #[100, 99, 98, 97] 0 0 4 = .ok (.offset 1) ∧
      back.toAutomaton.scan #[97, 98, 99, 100] 0 3 (-1) = .ok (.offset 2) := by
  let input : Input := #[97, 98, 99, 100]
  have hback := Dfa.ofTable_of_sound oneByteTable_sound ⟨.backward, false, 0, false⟩
  have hforth := Dfa.ofTable_of_sound oneByteTable_sound ⟨.forward, false, 0, false⟩
  have hturned : input.reverse = #[100, 99, 98, 97] := by simp [input]
  have hscan : (oneByte .forward false).scan #[100, 99, 98, 97] 0 0 4 = .ok (.offset 1) :=
    oneByte_scan ⟨by decide, by decide, by decide⟩ (by decide)
  have hmirrors := @Dfa.scan_backward_mirrors oneByteTable ⟨.forward, false, 0, false⟩ _ _ input 3
    (-1) hback hforth 0 0 (by decide) (by decide) (by decide)
  rw [hturned] at hmirrors
  rcases hmirrors with ⟨hnone, hsome⟩
  have hfound : (oneByte .backward false).scan input 0 3 (-1) ≠ .ok .noMatch := by
    intro hmissed
    cases hscan.symm.trans (hnone.1 hmissed)
  rcases hsome hfound with ⟨value, hvalue, hmirrored⟩
  cases hscan.symm.trans hvalue
  exact ⟨_, _, hback, hforth, hscan, hmirrored⟩

end LazyMatch
