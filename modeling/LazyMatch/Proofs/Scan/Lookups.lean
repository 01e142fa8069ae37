import LazyMatch.Proofs.Scan.TaggedDfa

/-!
# Checked tables are read inside their bounds

A scan reads the byte where it stands, the successor of its state, whether that state accepts, and
what it reports then; a scan with registers reads stretches of operations, operations and registers
besides. `Looks` names each of these lookups in each state that the scan comes to, and that is all
of them: a scan succeeds exactly if they all are inside the arrays that they read
(`Dfa.exists_scan_iff_inside`, `TaggedDfa.exists_scan_iff_inside`). Every scan of a checked table on
a stretch of the input is like that (`checked_lookups_inside`). Rows of one width lie one after the
other in the layout, so an index into it is inside only because all rows have that width, all
symbols are below it, and all successors are states.
-/

namespace LazyMatch

/-- A lookup: which entry is read, and how many there are. -/
structure Reading where
  index : Int
  size : Nat

/-- The entry that is read exists. -/
def Reading.Inside (reading : Reading) : Prop :=
  0 ≤ reading.index ∧ reading.index < reading.size

theorem inside_iff_exists_lookup {α : Type} {table : Array α} {i : Nat} :
    (Reading.mk i table.size).Inside ↔ ∃ entry, lookup table i = .ok entry := by
  constructor
  · rintro ⟨-, hhigh⟩
    exact ⟨_, lookup_of_lt (Int.ofNat_lt.1 hhigh)⟩
  · rintro ⟨entry, hentry⟩
    refine ⟨Int.natCast_nonneg i, Int.ofNat_lt.2 (Nat.lt_of_not_le fun hbeyond => ?_)⟩
    rw [lookup, Array.getElem?_eq_none hbeyond] at hentry
    cases hentry

theorem inside_iff_exists_byteAt {input : Input} {i : Int} :
    (Reading.mk i input.size).Inside ↔ ∃ byte, byteAt input i = .ok byte := by
  cases i with
  | ofNat i => exact inside_iff_exists_lookup
  | negSucc i =>
    refine ⟨fun h => absurd h.1 (by simp), ?_⟩
    rintro ⟨byte, hbyte⟩
    cases hbyte

/-! ## Plain scans -/

namespace Dfa

variable {d : Dfa} {input : Input} {start limit : Int} {s : StateId}

/-- The successor of a state on a byte, as an entry of the layout. -/
def transition (d : Dfa) (s : StateId) (byte : UInt8) : Nat :=
  have inBounds : byte.toNat < 256 := byte.toNat_lt
  s.toNat * d.alphabetSize.toNat + d.symbolOf[byte.toNat].toNat

/-- The scan comes to the state `s` after so many bytes. It goes on from there unless the state is
dead or no bytes are left. -/
inductive ComesTo (d : Dfa) (input : Input) (start limit : Int) : Nat → StateId → Prop
  | first : ComesTo d input start limit 0 (d.startState input.size start)
  | next {count : Nat} {s s' : StateId} {byte : UInt8} (h : ComesTo d input start limit count s)
      (halive : s ≠ deadState) (hleft : count < d.props.direction.distance start limit)
      (hbyte : byteAt input (d.props.direction.after start count) = .ok byte)
      (hnext : d.next s byte = .ok s') : ComesTo d input start limit (count + 1) s'

/-- The lookups of a scan that stands in the state `s` after so many bytes. -/
inductive LooksIn (d : Dfa) (input : Input) (start limit : Int) (count : Nat) (s : StateId) :
    Reading → Prop
  | accepting : LooksIn d input start limit count s ⟨s.toNat, d.accepting.size⟩
  | report (haccepts : lookup d.accepting s.toNat = .ok true)
      (hreporting : d.props.reporting = true) :
      LooksIn d input start limit count s ⟨s.toNat, d.reports.size⟩
  | byte (hleft : count < d.props.direction.distance start limit) :
      LooksIn d input start limit count s ⟨d.props.direction.after start count, input.size⟩
  | successor {byte : UInt8} (hleft : count < d.props.direction.distance start limit)
      (hbyte : byteAt input (d.props.direction.after start count) = .ok byte) :
      LooksIn d input start limit count s ⟨d.transition s byte, d.successors.size⟩

/-- The lookups of a scan. In the dead state it makes none. -/
def Looks (d : Dfa) (input : Input) (start limit : Int) (reading : Reading) : Prop :=
  ∃ count s, d.ComesTo input start limit count s ∧ s ≠ deadState ∧
    d.LooksIn input start limit count s reading

theorem exists_acceptance_iff {i : Int} :
    (∃ accepted, d.acceptance s i = .ok accepted) ↔
      (Reading.mk s.toNat d.accepting.size).Inside ∧
        (lookup d.accepting s.toNat = .ok true → d.props.reporting = true →
          (Reading.mk s.toNat d.reports.size).Inside) := by
  constructor
  · rintro ⟨accepted, h⟩
    rcases exists_of_bind_eq_ok h with ⟨accepting, haccepting, h⟩
    refine ⟨inside_iff_exists_lookup.2 ⟨accepting, haccepting⟩, fun haccepts hreporting => ?_⟩
    cases haccepts.symm.trans haccepting
    rw [if_pos rfl, hreporting, if_pos rfl] at h
    rcases exists_of_bind_eq_ok h with ⟨report, hreport, -⟩
    exact inside_iff_exists_lookup.2 ⟨report, hreport⟩
  · rintro ⟨haccepting, hreport⟩
    rcases inside_iff_exists_lookup.1 haccepting with ⟨accepting, haccepting⟩
    simp only [acceptance, haccepting, bind, Except.bind]
    cases accepting with
    | false => exact ⟨none, rfl⟩
    | true =>
      cases hreporting : d.props.reporting with
      | false => exact ⟨some i, rfl⟩
      | true =>
        rcases inside_iff_exists_lookup.1 (hreport haccepting hreporting) with ⟨report, hreport⟩
        rw [hreport]
        exact ⟨some report.toNat, rfl⟩

/-- What a walk needs to succeed if there is a byte left. -/
theorem of_walk_of_lt {distance count : Nat} {i : Int} {last found : Option Int}
    (hleft : count < distance) (h : d.walk input (distance - count) s i last = .ok found) :
    ∃ byte s', byteAt input i = .ok byte ∧ d.next s byte = .ok s' ∧
      (s' ≠ deadState → (∃ accepted, d.acceptance s' (d.props.direction.advance i) = .ok accepted) ∧
        ∃ last found, d.walk input (distance - (count + 1)) s' (d.props.direction.advance i) last =
          .ok found) := by
  rw [← Nat.sub_add_cancel (Nat.sub_pos_of_lt hleft)] at h
  rcases exists_of_bind_eq_ok h with ⟨byte, hbyte, h⟩
  rcases exists_of_bind_eq_ok h with ⟨s', hnext, h⟩
  refine ⟨byte, s', hbyte, hnext, fun halive => ?_⟩
  rw [if_neg halive] at h
  rcases exists_of_bind_eq_ok h with ⟨accepted, haccepted, hwalk⟩
  exact ⟨⟨accepted, haccepted⟩, _, _, hwalk⟩

/-- A scan that succeeds has succeeded in every state to which it comes. -/
theorem ComesTo.runs {count : Nat} (h : d.ComesTo input start limit count s)
    (halive : s ≠ deadState) (hscan : ∃ outcome, d.scan input start limit = .ok outcome) :
    (∃ accepted, d.acceptance s (d.props.direction.after start count) = .ok accepted) ∧
      ∃ last found, d.walk input (d.props.direction.distance start limit - count) s
        (d.props.direction.after start count) last = .ok found := by
  induction h with
  | first =>
    rcases hscan with ⟨outcome, hscan⟩
    rw [scan, if_neg halive] at hscan
    rcases exists_of_bind_eq_ok hscan with ⟨last, hlast, hscan⟩
    rcases exists_of_bind_eq_ok hscan with ⟨found, hwalk, -⟩
    rw [Direction.after_zero]
    exact ⟨⟨last, hlast⟩, last, found, hwalk⟩
  | next h halive' hleft hbyte hnext ih =>
    rcases (ih halive').2 with ⟨last, found, hwalk⟩
    rcases of_walk_of_lt hleft hwalk with ⟨byte', s'', hbyte', hnext', hrest⟩
    -- The walk from the state before has read the same byte, and gone to the same state.
    cases hbyte.symm.trans hbyte'
    cases hnext.symm.trans hnext'
    rw [← Direction.advance_after]
    exact hrest halive

theorem ComesTo.exists_acceptance
    (hinside : ∀ reading, d.Looks input start limit reading → reading.Inside) {count : Nat}
    (h : d.ComesTo input start limit count s) (halive : s ≠ deadState) (i : Int) :
    ∃ accepted, d.acceptance s i = .ok accepted :=
  exists_acceptance_iff.2 ⟨hinside _ ⟨count, s, h, halive, .accepting⟩,
    fun haccepts hreporting => hinside _ ⟨count, s, h, halive, .report haccepts hreporting⟩⟩

/-- A walk succeeds from every state to which the scan comes, if all lookups are inside. -/
theorem ComesTo.exists_walk
    (hinside : ∀ reading, d.Looks input start limit reading → reading.Inside) {count done : Nat}
    (hcount : done + count = d.props.direction.distance start limit)
    (h : d.ComesTo input start limit done s) (halive : s ≠ deadState) (last : Option Int) :
    ∃ found, d.walk input count s (d.props.direction.after start done) last = .ok found := by
  -- The induction is on the bytes that are left; each of them adds one to those that are done.
  induction count generalizing done s last with
  | zero => exact ⟨last, rfl⟩
  | succ count ih =>
    have hleft : done < d.props.direction.distance start limit := by omega
    rcases inside_iff_exists_byteAt.1 (hinside _ ⟨done, s, h, halive, .byte hleft⟩)
      with ⟨byte, hbyte⟩
    rcases inside_iff_exists_lookup.1 (hinside _ ⟨done, s, h, halive, .successor hleft hbyte⟩)
      with ⟨s', hnext⟩
    change d.next s byte = .ok s' at hnext
    simp only [walk, hbyte, hnext, bind, Except.bind]
    split
    · exact ⟨last, rfl⟩
    · next halive' =>
      -- In the next state the scan looks whether it accepts, and goes on from there.
      have hcomes := h.next halive hleft hbyte hnext
      rcases hcomes.exists_acceptance hinside halive'
        (d.props.direction.after start (done + 1)) with ⟨accepted, haccepted⟩
      rw [Direction.advance_after, haccepted]
      exact ih (by omega) hcomes halive' _

/-- A scan fails exactly if one of its lookups is outside what it reads. -/
theorem exists_scan_iff_inside :
    (∃ outcome, d.scan input start limit = .ok outcome) ↔
      ∀ reading, d.Looks input start limit reading → reading.Inside := by
  constructor
  · rintro hscan reading ⟨count, s, h, halive, hlooks⟩
    rcases h.runs halive hscan with ⟨haccepted, last, found, hwalk⟩
    cases hlooks with
    | accepting => exact (exists_acceptance_iff.1 haccepted).1
    | report haccepts hreporting => exact (exists_acceptance_iff.1 haccepted).2 haccepts hreporting
    | byte hleft =>
      rcases of_walk_of_lt hleft hwalk with ⟨byte, s', hbyte, -, -⟩
      exact inside_iff_exists_byteAt.2 ⟨byte, hbyte⟩
    | successor hleft hbyte =>
      rcases of_walk_of_lt hleft hwalk with ⟨byte', s', hbyte', hnext, -⟩
      cases hbyte.symm.trans hbyte'
      exact inside_iff_exists_lookup.2 ⟨s', hnext⟩
  · intro hinside
    rw [scan]
    split
    · exact ⟨_, rfl⟩
    · next halive =>
      have hcomes : d.ComesTo input start limit 0 (d.startState input.size start) := .first
      rcases hcomes.exists_acceptance hinside halive start with ⟨last, hlast⟩
      rcases hcomes.exists_walk hinside (Nat.zero_add _) halive last with ⟨found, hwalk⟩
      rw [Direction.after_zero] at hwalk
      simp only [hlast, hwalk, bind, Except.bind]
      cases found <;> exact ⟨_, rfl⟩

theorem lookups_inside {t : Table} {props : ScanProps} (h : ofTable t props = .ok d)
    (hfits : props.direction.Fits input.size start limit) :
    (∃ outcome, d.scan input start limit = .ok outcome) ∧
      ∀ reading, d.Looks input start limit reading → reading.Inside := by
  have hscan : ∃ outcome, d.scan input start limit = .ok outcome := ⟨_, scan_eq h hfits⟩
  exact ⟨hscan, exists_scan_iff_inside.1 hscan⟩

end Dfa

/-! ## Operations -/

theorem TagOp.perform_eq_ok_iff {op : TagOp} {i : Int} {registers registers' : Array Int} :
    op.perform i registers = .ok registers' ↔
      op.register.toNat < registers.size ∧ registers' = op.write i registers := by
  by_cases h : op.register.toNat < registers.size
  · simp [TagOp.perform_eq h, h, eq_comm]
  · simp [TagOp.perform, h]

namespace OpLayout

variable {l : OpLayout} {range : OpRange} {i : Int} {registers : Array Int}

/-- The lookups of performing a stretch of operations on a file of `size` registers. -/
inductive Looks (l : OpLayout) (range : OpRange) (size : Nat) : Reading → Prop
  | op {k : Nat} (hfirst : range.start.toNat ≤ k) (hlast : k < range.stop.toNat) :
      Looks l range size ⟨k, l.ops.size⟩
  | register {k : Nat} {op : TagOp} (hfirst : range.start.toNat ≤ k)
      (hlast : k < range.stop.toNat) (hop : lookup l.ops k = .ok op) :
      Looks l range size ⟨op.register.toNat, size⟩

theorem exists_performFrom_iff {count first : Nat} :
    (∃ registers', l.performFrom i count first registers = .ok registers') ↔
      ∀ k, first ≤ k → k < first + count →
        ∃ op, lookup l.ops k = .ok op ∧ op.register.toNat < registers.size := by
  induction count generalizing first registers with
  | zero => exact ⟨fun _ k hfirst hlast => by omega, fun _ => ⟨registers, rfl⟩⟩
  | succ count ih =>
    constructor
    · rintro ⟨registers', h⟩ k hfirst hlast
      rcases exists_of_bind_eq_ok h with ⟨op, hop, h⟩
      rcases exists_of_bind_eq_ok h with ⟨written, hwritten, h⟩
      rcases TagOp.perform_eq_ok_iff.1 hwritten with ⟨hregister, rfl⟩
      rcases Nat.eq_or_lt_of_le hfirst with rfl | hlater
      · exact ⟨op, hop, hregister⟩
      · -- What is written by the first operation leaves the number of registers as it is.
        have hsize : (op.write i registers).size = registers.size := TagOp.size_write
        rw [← hsize]
        exact ih.1 ⟨registers', h⟩ k hlater (by omega)
    · intro h
      rcases h first (Nat.le_refl _) (by omega) with ⟨op, hop, hregister⟩
      simp only [performFrom, hop, TagOp.perform_eq hregister, bind, Except.bind]
      refine ih.2 fun k hfirst hlast => ?_
      rw [TagOp.size_write]
      exact h k (by omega) (by omega)

/-- A stretch is performed exactly if all lookups on the way are inside. -/
theorem exists_perform_iff_inside :
    (∃ registers', l.perform range i registers = .ok registers') ↔
      ∀ reading, l.Looks range registers.size reading → reading.Inside := by
  rw [perform, exists_performFrom_iff]
  constructor
  · rintro h reading (⟨hfirst, hlast⟩ | ⟨hfirst, hlast, hop⟩)
    · rcases h _ hfirst (by omega) with ⟨op, hop, -⟩
      exact inside_iff_exists_lookup.2 ⟨op, hop⟩
    · rcases h _ hfirst (by omega) with ⟨op, hop', hregister⟩
      cases hop.symm.trans hop'
      exact ⟨Int.natCast_nonneg _, Int.ofNat_lt.2 hregister⟩
  · intro h k hfirst hlast
    have hlast' : k < range.stop.toNat := by omega
    rcases inside_iff_exists_lookup.1 (h _ (.op hfirst hlast')) with ⟨op, hop⟩
    exact ⟨op, hop, Int.ofNat_lt.1 (h _ (.register hfirst hlast' hop)).2⟩

end OpLayout

/-! ## Scans that follow groups -/

namespace TaggedDfa

variable {d : TaggedDfa} {input : Input} {start limit : Int} {s : StateId} {registers : Array Int}

/-- The scan comes to the state `s` after so many bytes, with these registers. -/
inductive ComesTo (d : TaggedDfa) (input : Input) (start limit : Int) :
    Nat → StateId → Array Int → Prop
  | first : ComesTo d input start limit 0 (d.startState start) d.freshRegisters
  | next {count : Nat} {s s' : StateId} {registers registers' : Array Int} {byte : UInt8}
      {range : OpRange} (h : ComesTo d input start limit count s registers)
      (halive : s ≠ deadState) (hleft : count < Direction.forward.distance start limit)
      (hbyte : byteAt input (Direction.forward.after start count) = .ok byte)
      (hrange : lookup d.transitionOps (d.transition s byte) = .ok range)
      (hperform :
        d.perform range (Direction.forward.after start count) registers = .ok registers')
      (hnext : lookup d.successors (d.transition s byte) = .ok s') :
      ComesTo d input start limit (count + 1) s' registers'

/-- The lookups of a scan that stands in the state `s` after so many bytes, with these registers. -/
inductive LooksIn (d : TaggedDfa) (input : Input) (start limit : Int) (count : Nat) (s : StateId)
    (registers : Array Int) : Reading → Prop
  | accepting : LooksIn d input start limit count s registers ⟨s.toNat, d.accepting.size⟩
  | acceptOps (haccepts : lookup d.accepting s.toNat = .ok true) :
      LooksIn d input start limit count s registers ⟨s.toNat, d.acceptOps.size⟩
  | onAccept {range : OpRange} {reading : Reading}
      (haccepts : lookup d.accepting s.toNat = .ok true)
      (hrange : lookup d.acceptOps s.toNat = .ok range)
      (hlooks : d.toOpLayout.Looks range registers.size reading) :
      LooksIn d input start limit count s registers reading
  | byte (hleft : count < Direction.forward.distance start limit) :
      LooksIn d input start limit count s registers
        ⟨Direction.forward.after start count, input.size⟩
  | transitionOps {byte : UInt8} (hleft : count < Direction.forward.distance start limit)
      (hbyte : byteAt input (Direction.forward.after start count) = .ok byte) :
      LooksIn d input start limit count s registers ⟨d.transition s byte, d.transitionOps.size⟩
  | onByte {byte : UInt8} {range : OpRange} {reading : Reading}
      (hleft : count < Direction.forward.distance start limit)
      (hbyte : byteAt input (Direction.forward.after start count) = .ok byte)
      (hrange : lookup d.transitionOps (d.transition s byte) = .ok range)
      (hlooks : d.toOpLayout.Looks range registers.size reading) :
      LooksIn d input start limit count s registers reading
  | successor {byte : UInt8} (hleft : count < Direction.forward.distance start limit)
      (hbyte : byteAt input (Direction.forward.after start count) = .ok byte) :
      LooksIn d input start limit count s registers ⟨d.transition s byte, d.successors.size⟩

/-- The lookups of a scan. In the dead state it makes none. -/
def Looks (d : TaggedDfa) (input : Input) (start limit : Int) (reading : Reading) : Prop :=
  ∃ count s registers, d.ComesTo input start limit count s registers ∧ s ≠ deadState ∧
    d.LooksIn input start limit count s registers reading

theorem exists_acceptance_iff {i : Int} :
    (∃ accepted, d.acceptance s i registers = .ok accepted) ↔
      (Reading.mk s.toNat d.accepting.size).Inside ∧
        (lookup d.accepting s.toNat = .ok true →
          (Reading.mk s.toNat d.acceptOps.size).Inside ∧
            ∀ range, lookup d.acceptOps s.toNat = .ok range →
              ∀ reading, d.toOpLayout.Looks range registers.size reading → reading.Inside) := by
  constructor
  · rintro ⟨accepted, h⟩
    rcases exists_of_bind_eq_ok h with ⟨accepting, haccepting, h⟩
    refine ⟨inside_iff_exists_lookup.2 ⟨accepting, haccepting⟩, fun haccepts => ?_⟩
    cases haccepts.symm.trans haccepting
    rw [if_pos rfl] at h
    rcases exists_of_bind_eq_ok h with ⟨range, hrange, h⟩
    rcases exists_of_bind_eq_ok h with ⟨boundaries, hboundaries, -⟩
    refine ⟨inside_iff_exists_lookup.2 ⟨range, hrange⟩, fun range' hrange' => ?_⟩
    cases hrange'.symm.trans hrange
    exact OpLayout.exists_perform_iff_inside.1 ⟨boundaries, hboundaries⟩
  · rintro ⟨haccepting, hoperations⟩
    rcases inside_iff_exists_lookup.1 haccepting with ⟨accepting, haccepting⟩
    simp only [acceptance, haccepting, bind, Except.bind]
    cases accepting with
    | false => exact ⟨none, rfl⟩
    | true =>
      rcases hoperations haccepting with ⟨hrange, hlooks⟩
      rcases inside_iff_exists_lookup.1 hrange with ⟨range, hrange⟩
      have hstretch : ∃ boundaries, d.perform range i registers = .ok boundaries :=
        OpLayout.exists_perform_iff_inside.2 (hlooks range hrange)
      rcases hstretch with ⟨boundaries, hboundaries⟩
      rw [hrange]
      simp only [hboundaries]
      exact ⟨some boundaries, rfl⟩

/-- What a walk needs to succeed if there is a byte left. -/
theorem of_walk_of_lt {distance count : Nat} {i : Int} {last found : Option (Array Int)}
    (hleft : count < distance)
    (h : d.walk input (distance - count) s i registers last = .ok found) :
    ∃ byte range registers' s', byteAt input i = .ok byte ∧
      lookup d.transitionOps (d.transition s byte) = .ok range ∧
      d.perform range i registers = .ok registers' ∧
      lookup d.successors (d.transition s byte) = .ok s' ∧
      (s' ≠ deadState →
        (∃ accepted, d.acceptance s' (Direction.forward.advance i) registers' = .ok accepted) ∧
        ∃ last found, d.walk input (distance - (count + 1)) s' (Direction.forward.advance i)
          registers' last = .ok found) := by
  rw [← Nat.sub_add_cancel (Nat.sub_pos_of_lt hleft)] at h
  rcases exists_of_bind_eq_ok h with ⟨byte, hbyte, h⟩
  rcases exists_of_bind_eq_ok h with ⟨range, hrange, h⟩
  rcases exists_of_bind_eq_ok h with ⟨registers', hperform, h⟩
  rcases exists_of_bind_eq_ok h with ⟨s', hnext, h⟩
  refine ⟨byte, range, registers', s', hbyte, hrange, hperform, hnext, fun halive => ?_⟩
  rw [if_neg halive] at h
  rcases exists_of_bind_eq_ok h with ⟨accepted, haccepted, hwalk⟩
  exact ⟨⟨accepted, haccepted⟩, _, _, hwalk⟩

/-- A scan that succeeds has succeeded in every state to which it comes. -/
theorem ComesTo.runs {count : Nat} (h : d.ComesTo input start limit count s registers)
    (halive : s ≠ deadState) (hscan : ∃ outcome, d.scan input start limit = .ok outcome) :
    (∃ accepted,
        d.acceptance s (Direction.forward.after start count) registers = .ok accepted) ∧
      ∃ last found, d.walk input (Direction.forward.distance start limit - count) s
        (Direction.forward.after start count) registers last = .ok found := by
  induction h with
  | first =>
    rcases hscan with ⟨outcome, hscan⟩
    rw [scan, if_neg halive] at hscan
    rcases exists_of_bind_eq_ok hscan with ⟨last, hlast, hscan⟩
    rcases exists_of_bind_eq_ok hscan with ⟨found, hwalk, -⟩
    rw [Direction.after_zero]
    exact ⟨⟨last, hlast⟩, last, found, hwalk⟩
  | next h halive' hleft hbyte hrange hperform hnext ih =>
    rcases (ih halive').2 with ⟨last, found, hwalk⟩
    rcases of_walk_of_lt hleft hwalk
      with ⟨byte', range', registers'', s'', hbyte', hrange', hperform', hnext', hrest⟩
    -- The walk from the state before has done the same with the same registers.
    cases hbyte.symm.trans hbyte'
    cases hrange.symm.trans hrange'
    cases hperform.symm.trans hperform'
    cases hnext.symm.trans hnext'
    rw [← Direction.advance_after]
    exact hrest halive

theorem ComesTo.exists_acceptance
    (hinside : ∀ reading, d.Looks input start limit reading → reading.Inside) {count : Nat}
    (h : d.ComesTo input start limit count s registers) (halive : s ≠ deadState) (i : Int) :
    ∃ accepted, d.acceptance s i registers = .ok accepted :=
  exists_acceptance_iff.2 ⟨hinside _ ⟨count, s, registers, h, halive, .accepting⟩,
    fun haccepts => ⟨hinside _ ⟨count, s, registers, h, halive, .acceptOps haccepts⟩,
      fun _ hrange reading hlooks =>
        hinside reading ⟨count, s, registers, h, halive, .onAccept haccepts hrange hlooks⟩⟩⟩

/-- A walk succeeds from every state to which the scan comes, if all lookups are inside. -/
theorem ComesTo.exists_walk
    (hinside : ∀ reading, d.Looks input start limit reading → reading.Inside) {count done : Nat}
    (hcount : done + count = Direction.forward.distance start limit)
    (h : d.ComesTo input start limit done s registers) (halive : s ≠ deadState)
    (last : Option (Array Int)) :
    ∃ found,
      d.walk input count s (Direction.forward.after start done) registers last = .ok found := by
  -- The induction is on the bytes that are left; each of them adds one to those that are done.
  induction count generalizing done s registers last with
  | zero => exact ⟨last, rfl⟩
  | succ count ih =>
    have hleft : done < Direction.forward.distance start limit := by omega
    have hlooks (reading : Reading) (h' : d.LooksIn input start limit done s registers reading) :
        reading.Inside := hinside reading ⟨done, s, registers, h, halive, h'⟩
    rcases inside_iff_exists_byteAt.1 (hlooks _ (.byte hleft)) with ⟨byte, hbyte⟩
    rcases inside_iff_exists_lookup.1 (hlooks _ (.transitionOps hleft hbyte)) with ⟨range, hrange⟩
    have hstretch : ∃ registers',
        d.perform range (Direction.forward.after start done) registers = .ok registers' :=
      OpLayout.exists_perform_iff_inside.2
        fun reading hop => hlooks reading (.onByte hleft hbyte hrange hop)
    rcases hstretch with ⟨registers', hperform⟩
    rcases inside_iff_exists_lookup.1 (hlooks _ (.successor hleft hbyte)) with ⟨s', hnext⟩
    simp only [walk, hbyte, hrange, hperform, hnext, bind, Except.bind]
    split
    · exact ⟨last, rfl⟩
    · next halive' =>
      have hcomes := h.next halive hleft hbyte hrange hperform hnext
      rcases hcomes.exists_acceptance hinside halive'
        (Direction.forward.after start (done + 1)) with ⟨accepted, haccepted⟩
      rw [Direction.advance_after, haccepted]
      exact ih (by omega) hcomes halive' _

/-- A scan fails exactly if one of its lookups is outside what it reads. -/
theorem exists_scan_iff_inside :
    (∃ outcome, d.scan input start limit = .ok outcome) ↔
      ∀ reading, d.Looks input start limit reading → reading.Inside := by
  constructor
  · rintro hscan reading ⟨count, s, registers, h, halive, hlooks⟩
    rcases h.runs halive hscan with ⟨haccepted, last, found, hwalk⟩
    cases hlooks with
    | accepting => exact (exists_acceptance_iff.1 haccepted).1
    | acceptOps haccepts => exact ((exists_acceptance_iff.1 haccepted).2 haccepts).1
    | onAccept haccepts hrange hlooks =>
      exact ((exists_acceptance_iff.1 haccepted).2 haccepts).2 _ hrange reading hlooks
    | byte hleft =>
      rcases of_walk_of_lt hleft hwalk with ⟨byte, -, -, -, hbyte, -⟩
      exact inside_iff_exists_byteAt.2 ⟨byte, hbyte⟩
    | transitionOps hleft hbyte =>
      rcases of_walk_of_lt hleft hwalk with ⟨byte', range, -, -, hbyte', hrange, -⟩
      cases hbyte.symm.trans hbyte'
      exact inside_iff_exists_lookup.2 ⟨range, hrange⟩
    | onByte hleft hbyte hrange hlooks =>
      rcases of_walk_of_lt hleft hwalk
        with ⟨byte', range', registers', -, hbyte', hrange', hperform, -⟩
      cases hbyte.symm.trans hbyte'
      cases hrange.symm.trans hrange'
      exact OpLayout.exists_perform_iff_inside.1 ⟨registers', hperform⟩ reading hlooks
    | successor hleft hbyte =>
      rcases of_walk_of_lt hleft hwalk with ⟨byte', -, -, s', hbyte', -, -, hnext, -⟩
      cases hbyte.symm.trans hbyte'
      exact inside_iff_exists_lookup.2 ⟨s', hnext⟩
  · intro hinside
    rw [scan]
    split
    · exact ⟨_, rfl⟩
    · next halive =>
      have hcomes : d.ComesTo input start limit 0 (d.startState start) d.freshRegisters := .first
      rcases hcomes.exists_acceptance hinside halive start with ⟨last, hlast⟩
      rcases hcomes.exists_walk hinside (Nat.zero_add _) halive last with ⟨found, hwalk⟩
      rw [Direction.after_zero] at hwalk
      simp only [hlast, hwalk, bind, Except.bind]
      cases found <;> exact ⟨_, rfl⟩

theorem lookups_inside {t : TaggedTable} {props : ScanProps} (h : ofTable t props = .ok d)
    (hfits : Direction.forward.Fits input.size start limit) :
    (∃ outcome, d.scan input start limit = .ok outcome) ∧
      ∀ reading, d.Looks input start limit reading → reading.Inside := by
  have hscan : ∃ outcome, d.scan input start limit = .ok outcome := ⟨_, scan_eq h hfits⟩
  exact ⟨hscan, exists_scan_iff_inside.1 hscan⟩

end TaggedDfa

/-! ## Checked tables -/

/-- The checks accept exactly the sound tables, and among tagged ones those that besides have a
group, operations for each state and each of its transitions, and no register that is out of the
register file, which is counted in 32-bit words. A table that is accepted can be laid out, and then
a scan of any stretch of any input succeeds, forward and backward, with registers and without, and
every lookup that it makes is inside what it reads. -/
theorem checked_lookups_inside :
    (∀ t : Table, t.check = .ok () ↔ t.Sound) ∧
    (∀ t : TaggedTable, t.check = .ok () ↔
      t.toTable.Sound ∧ t.groupCount ≠ 0 ∧ t.tags.size = t.states.size ∧
        ∀ tags ∈ t.tags, tags.onSymbol.size = t.alphabetSize.toNat ∧
          ∀ op ∈ tags.ops, op.register.toNat < 2 * t.groupCount.toNat % 2 ^ 32) ∧
    (∀ (t : Table) (props : ScanProps), t.check = .ok () →
      ∃ d, Dfa.ofTable t props = .ok d ∧ ∀ (input : Input) (start limit : Int),
        props.direction.Fits input.size start limit →
          (∃ outcome, d.scan input start limit = .ok outcome) ∧
            ∀ reading, d.Looks input start limit reading → reading.Inside) ∧
    ∀ (t : TaggedTable) (props : ScanProps), t.check = .ok () → props.direction = .forward →
      props.reporting = false →
      ∃ d, TaggedDfa.ofTable t props = .ok d ∧ ∀ (input : Input) (start limit : Int),
        Direction.forward.Fits input.size start limit →
          (∃ outcome, d.scan input start limit = .ok outcome) ∧
            ∀ reading, d.Looks input start limit reading → reading.Inside := by
  refine ⟨Table.check_eq_ok_iff_sound, fun t => ?_, fun t props hcheck => ?_,
    fun t props hcheck hdir hreporting => ?_⟩
  · rw [t.check_eq_ok_iff_sound]
    have hlt (op : TagOp) : op.register < t.registerCount ↔
        op.register.toNat < 2 * t.groupCount.toNat % 2 ^ 32 := by
      rw [UInt32.lt_iff_toNat_lt, TaggedTable.registerCount, TaggedDfa.toNat_mul_two]
    constructor
    · intro h
      exact ⟨h.toSound, h.groups, h.tags, fun tags hmem =>
        ⟨h.tagWidth tags hmem, fun op hop => (hlt op).1 (h.registers tags hmem op hop)⟩⟩
    · rintro ⟨hsound, hgroups, hsize, htags⟩
      exact { hsound with
        groups := hgroups
        tags := hsize
        tagWidth := fun tags hmem => (htags tags hmem).1
        registers := fun tags hmem op hop => (hlt op).2 ((htags tags hmem).2 op hop) }
  · have hd := Dfa.ofTable_of_sound (t.check_eq_ok_iff_sound.1 hcheck) props
    exact ⟨_, hd, fun input start limit => Dfa.lookups_inside hd⟩
  · have hd := TaggedDfa.ofTable_of_sound (t.check_eq_ok_iff_sound.1 hcheck)
      ⟨hdir, Bool.not_eq_true _ ▸ hreporting⟩
    exact ⟨_, hd, fun input start limit => TaggedDfa.lookups_inside hd⟩

/-- Going backward, the scan reads the byte at 1 of the two that there are; the scan with registers
accepts at 0 already, and its operation on register 1 is on one of two. -/
theorem twoBytes_lookups_inside :
    ∃ d e, Dfa.ofTable oneByteTable ⟨.backward, false, 0, true⟩ = .ok d ∧
      d.Looks #[120, 121] 1 (-1) ⟨1, 2⟩ ∧
      (∀ reading, d.Looks #[120, 121] 1 (-1) reading → reading.Inside) ∧
      TaggedDfa.ofTable anyBytesTable ⟨.forward, false, 0, false⟩ = .ok e ∧
      e.Looks #[120, 121] 0 2 ⟨1, 2⟩ ∧
      ∀ reading, e.Looks #[120, 121] 0 2 reading → reading.Inside := by
  have hback : Direction.backward.Fits 2 1 (-1) := ⟨by decide, by decide, by decide⟩
  have hforward : Direction.forward.Fits 2 0 2 := ⟨by decide, by decide, by decide⟩
  rcases checked_lookups_inside with ⟨hsound, -, hplain, htagged⟩
  rcases hplain oneByteTable ⟨.backward, false, 0, true⟩ ((hsound _).2 oneByteTable_sound)
    with ⟨d, hd, hscans⟩
  rcases htagged anyBytesTable ⟨.forward, false, 0, false⟩
    (anyBytesTable.check_eq_ok_iff_sound.2 anyBytesTable_sound) rfl rfl with ⟨e, he, hscans'⟩
  cases he.symm.trans anyBytes_ofTable
  refine ⟨d, anyBytes, hd, ?_, (hscans #[120, 121] 1 (-1) hback).2, he, ?_,
    (hscans' #[120, 121] 0 2 hforward).2⟩
  · cases hd.symm.trans (Dfa.ofTable_of_sound oneByteTable_sound _)
    exact ⟨0, 1, .first, by decide, .byte (by decide)⟩
  · have haccepts : lookup anyBytes.accepting (1 : StateId).toNat = .ok true :=
      TaggedDfa.lookup_accepting anyBytes_ofTable (by decide)
    have hrange : lookup anyBytes.acceptOps 1 = .ok ⟨1, 2⟩ := rfl
    have hop : lookup anyBytes.ops 1 = .ok ⟨1, false⟩ := rfl
    exact ⟨0, 1, _, .first, by decide,
      .onAccept haccepts hrange (.register (by decide) (by decide) hop)⟩

end LazyMatch
