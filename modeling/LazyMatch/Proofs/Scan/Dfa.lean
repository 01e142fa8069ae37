import LazyMatch.Proofs.Scan.Course
import LazyMatch.Scan.Dfa

/-!
# Plain scans are exact

A checked table that is laid out in one array is read as it was written down, so its scans visit the
states of the table and never read outside it. They end early in the dead state, and remember the
last acceptance only; what they answer is nevertheless the last acceptance among all states up to
the limit (`Dfa.scan_eq`). In particular a scan for positions answers with a position of the stretch
that it was given.
-/

namespace LazyMatch

/-- Rows of one width that lie one after the other keep their entries in order. -/
theorem getElem?_flatMap_of_width {α β : Type} {rows : List α} {f : α → List β} {width : Nat}
    (hwidth : ∀ row ∈ rows, (f row).length = width) (i : Nat) {j : Nat} (hj : j < width) :
    (rows.flatMap f)[i * width + j]? = rows[i]?.bind fun row => (f row)[j]? := by
  induction rows generalizing i with
  | nil => simp
  | cons row rows ih =>
    have hrow : (f row).length = width := hwidth row List.mem_cons_self
    have hrest : ∀ row ∈ rows, (f row).length = width :=
      fun row hmem => hwidth row (List.mem_cons_of_mem _ hmem)
    rw [List.flatMap_cons]
    cases i with
    | zero =>
      rw [Nat.zero_mul, Nat.zero_add, List.getElem?_append_left (by omega)]
      rfl
    | succ i =>
      have hskip : (i + 1) * width + j = (f row).length + (i * width + j) := by
        rw [hrow, Nat.succ_mul]
        omega
      rw [hskip, List.getElem?_append_right (Nat.le_add_right _ _), Nat.add_sub_cancel_left,
        ih hrest i]
      rfl

theorem byteAt_of_inside {input : Input} {i : Int} (hlow : 0 ≤ i) (hhigh : i < input.size) :
    byteAt input i = .ok (input.getD i.toNat 0) := by
  cases i with
  | ofNat i =>
    have hlt : i < input.size := Int.ofNat_lt.1 hhigh
    rw [byteAt, lookup_of_lt hlt, Int.ofNat_eq_natCast, Int.toNat_natCast,
      Array.getD_eq_getD_getElem?, Array.getElem?_eq_getElem hlt, Option.getD_some]
  | negSucc i => exact absurd hlow (by omega)

theorem Direction.Fits.byteAt_eq {dir : Direction} {input : Input} {start limit : Int}
    (hfits : dir.Fits input.size start limit) {count : Nat}
    (hcount : count < dir.distance start limit) :
    byteAt input (dir.after start count) = .ok (dir.byteAfter input start count) := by
  refine byteAt_of_inside ?_ ?_
  all_goals
    cases dir <;> simp only [Direction.Fits, Direction.distance, Direction.after] at * <;> omega

/-- What a scan from `start` answers if the state after `count` bytes is the last that accepts. -/
def Table.answerAfter (t : Table) (props : ScanProps) (input : Input) (start : Int) (count : Nat) :
    Int :=
  if props.reporting then (t.row (t.stateAfter props.direction input start count)).report.toNat
  else props.direction.after start count

namespace Dfa

variable {t : Table} {props : ScanProps} {d : Dfa} {s : StateId}

/-! ## The layout -/

/-- A table laid out row by row. -/
def layOut (t : Table) (props : ScanProps) : Dfa where
  props
  alphabetSize := t.alphabetSize
  symbolOf := t.symbolOf
  successors := t.states.flatMap State.next
  accepting := t.states.map State.accepting
  reports := t.states.map State.report
  startAtEdge := t.startAtEdge
  startInside := t.startInside

theorem ofTable_eq_ok_iff : ofTable t props = .ok d ↔ t.Sound ∧ d = layOut t props := by
  rw [← t.check_eq_ok_iff_sound, ofTable]
  cases t.check with
  | error error => exact ⟨nofun, nofun⟩
  | ok checked =>
    constructor
    · rintro ⟨⟩
      exact ⟨rfl, rfl⟩
    · rintro ⟨-, rfl⟩
      rfl

theorem ofTable_of_sound (h : t.Sound) (props : ScanProps) :
    ofTable t props = .ok (layOut t props) :=
  ofTable_eq_ok_iff.2 ⟨h, rfl⟩

theorem props_eq (h : ofTable t props = .ok d) : d.props = props := by
  rcases ofTable_eq_ok_iff.1 h with ⟨-, rfl⟩
  rfl

theorem next_eq (h : ofTable t props = .ok d) (hs : s.toNat < t.states.size) (byte : UInt8) :
    d.next s byte = .ok (t.successor s byte) := by
  rcases ofTable_eq_ok_iff.1 h with ⟨hsound, rfl⟩
  have hwidth : ∀ row ∈ t.states.toList, row.next.toList.length = t.alphabetSize.toNat :=
    fun row hrow => hsound.width row (Array.mem_toList_iff.1 hrow)
  -- The rows before that of the state have the same width, so its entries come right after them.
  have hentry : (t.states.flatMap State.next)[s.toNat * t.alphabetSize.toNat +
      (t.symbol byte).toNat]? = some (t.successor s byte) := by
    rw [← Array.getElem?_toList, Array.toList_flatMap,
      getElem?_flatMap_of_width hwidth _ (hsound.symbol_lt byte), Array.getElem?_toList,
      Array.getElem?_eq_getElem hs, Option.bind_some, Array.getElem?_toList,
      ← hsound.getElem?_next hs byte, Table.row, Array.getD_eq_getD_getElem?,
      Array.getElem?_eq_getElem hs, Option.getD_some]
  rw [Table.symbol] at hentry
  simp only [next, layOut, lookup, hentry]

theorem acceptance_eq (h : ofTable t props = .ok d) (hs : s.toNat < t.states.size) (i : Int) :
    d.acceptance s i = .ok
      (if t.accepts s then some (if props.reporting then (t.row s).report.toNat else i)
        else none) := by
  rcases ofTable_eq_ok_iff.1 h with ⟨-, rfl⟩
  have hrow : t.states[s.toNat]? = some (t.row s) := Table.Sound.getElem?_row hs
  have haccepting : lookup (t.states.map State.accepting) s.toNat = .ok (t.accepts s) := by
    rw [lookup, Array.getElem?_map, hrow]
    rfl
  have hreport : lookup (t.states.map State.report) s.toNat = .ok (t.row s).report := by
    rw [lookup, Array.getElem?_map, hrow]
    rfl
  simp only [acceptance, layOut, haccepting, hreport]
  cases t.accepts s <;> cases props.reporting <;> rfl

/-! ## The walk -/

variable {input : Input} {start limit : Int}

theorem startState_eq (h : ofTable t props = .ok d) (input : Input) (start : Int) :
    d.startState input.size start = t.stateAfter props.direction input start 0 := by
  rcases ofTable_eq_ok_iff.1 h with ⟨-, rfl⟩
  rfl

theorem acceptance_stateAfter (h : ofTable t props = .ok d) (input : Input) (start : Int)
    (count : Nat) :
    d.acceptance (t.stateAfter props.direction input start count)
        (props.direction.after start count) =
      .ok (if t.accepts (t.stateAfter props.direction input start count) then
        some (t.answerAfter props input start count) else none) :=
  acceptance_eq h ((ofTable_eq_ok_iff.1 h).1.stateAfter_lt _ _ _ _) _

/-- A walk that has got some way, and remembers the last acceptance up to there, goes on to the last
acceptance of all. -/
theorem walk_eq (h : ofTable t props = .ok d) (hfits : props.direction.Fits input.size start limit)
    (count done : Nat) (hcount : done + count ≤ props.direction.distance start limit) :
    d.walk input count (t.stateAfter props.direction input start done)
        (props.direction.after start done)
        ((t.lastAccepting props.direction input start done).map (t.answerAfter props input start)) =
      .ok ((t.lastAccepting props.direction input start (done + count)).map
        (t.answerAfter props input start)) := by
  have hsound := (ofTable_eq_ok_iff.1 h).1
  -- The induction is on the bytes that are left; each of them adds one to those that are done.
  induction count generalizing done with
  | zero => rfl
  | succ count ih =>
    have hbyte : byteAt input (props.direction.after start done) =
        .ok (props.direction.byteAfter input start done) := hfits.byteAt_eq (by omega)
    have hnext : d.next (t.stateAfter props.direction input start done)
        (props.direction.byteAfter input start done) =
          .ok (t.stateAfter props.direction input start (done + 1)) :=
      next_eq h (hsound.stateAfter_lt props.direction input start done) _
    simp only [walk, hbyte, hnext, bind, Except.bind]
    split
    · next hdead =>
      -- Nothing is accepted after the dead state, so what is remembered is the answer.
      rw [hsound.lastAccepting_of_dead hdead (count + 1)]
      rfl
    · have hrest := ih (done + 1) (by omega)
      rw [props_eq h, Direction.advance_after, acceptance_stateAfter h]
      dsimp only
      rw [Table.accepted_or_lastAccepting, hrest]
      congr 3
      omega

/-- A scan answers for the last acceptance of the states from its start to its limit. -/
theorem scan_eq (h : ofTable t props = .ok d)
    (hfits : props.direction.Fits input.size start limit) :
    d.scan input start limit = .ok
      (match t.lastAccepting props.direction input start (props.direction.distance start limit) with
        | some count => .offset (t.answerAfter props input start count)
        | none => .noMatch) := by
  have hsound := (ofTable_eq_ok_iff.1 h).1
  have hfirst := acceptance_stateAfter h input start 0
  have hwalk := walk_eq h hfits (props.direction.distance start limit) 0 (by omega)
  rw [← Table.map_lastAccepting_zero, Direction.after_zero] at hfirst
  rw [Direction.after_zero, Nat.zero_add] at hwalk
  rw [scan, startState_eq h]
  simp only [props_eq h, hfirst, bind, Except.bind]
  split
  · next hdead =>
    rw [hsound.lastAccepting_of_dead_start hdead]
    rfl
  · rw [hwalk]
    cases t.lastAccepting props.direction input start (props.direction.distance start limit) <;> rfl

/-- Where a scan for positions finds something, it reports the position after the last state that
accepts. -/
theorem exists_isGreatest_of_scan (h : ofTable t props = .ok d)
    (hreporting : props.reporting = false)
    (hfits : props.direction.Fits input.size start limit) {outcome : Outcome}
    (hscan : d.scan input start limit = .ok outcome) (hfound : outcome.found = true) :
    ∃ last, outcome = .offset (props.direction.after start last) ∧
      IsGreatest {j | j ≤ props.direction.distance start limit ∧
        t.accepts (t.stateAfter props.direction input start j) = true} last := by
  rw [scan_eq h hfits] at hscan
  cases hlast : t.lastAccepting props.direction input start
      (props.direction.distance start limit) with
  | none =>
    rw [hlast] at hscan
    cases hscan
    cases hfound
  | some last =>
    rw [hlast] at hscan
    cases hscan
    refine ⟨last, ?_, Table.lastAccepting_eq_some_iff.1 hlast⟩
    simp [Table.answerAfter, hreporting]

/-- Whatever it is given, a scan reports an offset or nothing. -/
theorem noMatch_or_offset {outcome : Outcome} (h : d.scan input start limit = .ok outcome) :
    outcome = .noMatch ∨ ∃ value, outcome = .offset value := by
  unfold scan at h
  dsimp only at h
  split at h
  · cases h
    exact .inl rfl
  · rcases exists_of_bind_eq_ok h with ⟨last, -, h⟩
    rcases exists_of_bind_eq_ok h with ⟨found, -, h⟩
    split at h
    · cases h
      exact .inr ⟨_, rfl⟩
    · cases h
      exact .inl rfl

/-! ## What scans do not depend on -/

end Dfa

/-! ## Automata that are laid out from a table -/

namespace Direction

/-- The positions that a scan may come to on its way from `start` to `limit`. -/
def Between : Direction → (start limit position : Int) → Prop
  | forward, start, limit, position => start ≤ position ∧ position ≤ limit
  | backward, start, limit, position => limit ≤ position ∧ position ≤ start

theorem Fits.between_after {dir : Direction} {length : Nat} {start limit : Int}
    (hfits : dir.Fits length start limit) {count : Nat}
    (hcount : count ≤ dir.distance start limit) :
    dir.Between start limit (dir.after start count) := by
  cases dir <;> simp only [Fits, Between, distance, after] at * <;> omega

end Direction

/-- A plain automaton that scans in one direction, for positions or the numbers of its states. -/
inductive Automaton.Plain (dir : Direction) (reporting : Bool) : Automaton → Prop
  | ofTable {t : Table} {props : ScanProps} {d : Dfa} (h : Dfa.ofTable t props = .ok d)
      (hdir : props.direction = dir) (hreporting : props.reporting = reporting) :
      Plain dir reporting d.toAutomaton

namespace Automaton.Plain

variable {a : Automaton} {dir : Direction} {reporting : Bool} {input : Input}
  {origin start limit : Int}

theorem groupCount_eq (h : a.Plain dir reporting) : a.groupCount = 0 := by
  cases h
  rfl

theorem noMatch_or_offset (h : a.Plain dir reporting) {outcome : Outcome}
    (hscan : a.scan input origin start limit = .ok outcome) :
    outcome = .noMatch ∨ ∃ value, outcome = .offset value := by
  cases h
  exact Dfa.noMatch_or_offset hscan

/-- A scan of a stretch of the input succeeds, and one for positions reports a position on its
way. -/
theorem scan_cases (h : a.Plain dir reporting) (hfits : dir.Fits input.size start limit) :
    a.scan input origin start limit = .ok .noMatch ∨
      ∃ value, a.scan input origin start limit = .ok (.offset value) ∧
        (reporting = false → dir.Between start limit value) := by
  cases h with
  | @ofTable t props d hd hdir hreporting =>
    subst hdir
    change d.scan input start limit = _ ∨ ∃ value, d.scan input start limit = _ ∧ _
    rw [Dfa.scan_eq hd hfits]
    cases hlast : t.lastAccepting props.direction input start
        (props.direction.distance start limit) with
    | none => exact .inl rfl
    | some count =>
      refine .inr ⟨_, rfl, ?_⟩
      intro hposition
      have hcount := (Table.lastAccepting_eq_some_iff.1 hlast).1.1
      rw [Table.answerAfter, hreporting, if_neg (by simp [hposition])]
      exact hfits.between_after hcount

end Automaton.Plain

/-! ## A table for one byte -/

/-- A table by which one byte is a match, whichever it is. -/
def oneByteTable : Table where
  alphabetSize := 1
  symbolOf := Vector.replicate 256 0
  startAtEdge := 1
  startInside := 1
  states := #[.dead 1, { next := #[2] }, { next := #[0], accepting := true }]

theorem oneByteTable_sound : oneByteTable.Sound where
  alphabet := by decide
  states := by decide
  symbols := by simp [oneByteTable]
  startAtEdge := by decide
  startInside := by decide
  width := by decide
  successors := by simp [oneByteTable, State.dead, deadState]
  dead := by simp [oneByteTable, State.dead, deadState]

theorem oneByteTable_symbol (byte : UInt8) : oneByteTable.symbol byte = 0 := by
  simp [Table.symbol, oneByteTable]

theorem oneByteTable_stateAfter (dir : Direction) (input : Input) (start : Int) :
    oneByteTable.stateAfter dir input start 0 = 1 ∧ oneByteTable.stateAfter dir input start 1 = 2 ∧
      oneByteTable.stateAfter dir input start 2 = deadState := by
  have hzero : oneByteTable.stateAfter dir input start 0 = 1 := by
    rw [Table.stateAfter]
    split <;> rfl
  have hone : oneByteTable.stateAfter dir input start 1 = 2 := by
    rw [Table.stateAfter, hzero, Table.successor, oneByteTable_symbol]
    rfl
  refine ⟨hzero, hone, ?_⟩
  rw [Table.stateAfter, hone, Table.successor, oneByteTable_symbol]
  rfl

theorem oneByteTable_lastAccepting (dir : Direction) (input : Input) (start : Int) (count : Nat) :
    oneByteTable.lastAccepting dir input start count = if count = 0 then none else some 1 := by
  rcases oneByteTable_stateAfter dir input start with ⟨hzero, hone, hdead⟩
  cases count with
  | zero =>
    rw [Table.lastAccepting, hzero]
    rfl
  | succ count =>
    rw [Nat.add_comm, oneByteTable_sound.lastAccepting_of_dead hdead, Table.lastAccepting, hone,
      if_pos (by decide), if_neg (Nat.ne_of_gt (Nat.add_pos_left Nat.one_pos count))]

/-- The automaton by which one byte is a match. -/
def oneByte (direction : Direction) (anchored : Bool) : Automaton :=
  (Dfa.layOut oneByteTable { direction, anchored, lookbehind := 0, reporting := false }).toAutomaton

theorem oneByte_plain (direction : Direction) (anchored : Bool) :
    (oneByte direction anchored).Plain direction false :=
  .ofTable (Dfa.ofTable_of_sound oneByteTable_sound _) rfl rfl

theorem oneByte_scan {dir : Direction} {anchored : Bool} {input : Input} {origin start limit : Int}
    (hfits : dir.Fits input.size start limit) (hsome : start ≠ limit) :
    (oneByte dir anchored).scan input origin start limit = .ok (.offset (dir.after start 1)) := by
  have hdistance : dir.distance start limit ≠ 0 := by
    cases dir <;> simp only [Direction.Fits, Direction.distance] at * <;> omega
  change Dfa.scan _ input start limit = _
  rw [Dfa.scan_eq (Dfa.ofTable_of_sound oneByteTable_sound _) hfits, oneByteTable_lastAccepting,
    if_neg hdistance]
  rfl

end LazyMatch
