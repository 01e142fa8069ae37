import LazyMatch.Proofs.Find.Range
import LazyMatch.Proofs.Scan.TaggedDfa
import LazyMatch.Proofs.Scan.Visits

/-!
# The leftmost start

The backward automaton runs from the end of a match down to a floor and remembers its last
acceptance. Its scan counts bytes and stands one position before the byte that it has read, so what
it reports is moved by one. The start that comes out is the least index that the lookbehind and the
input allow and from which on the bytes up to the end are accepted, read from the last one to the
first (`Pending.locateStart_leftmost`).
-/

namespace LazyMatch

namespace Table

variable {t : Table} {input : Input} {stop i : Int}

/-- Read backward from the end, the bytes from `i` up to there lead the table to an accepting
state. -/
def AdmitsStart (t : Table) (input : Input) (stop i : Int) : Prop :=
  ∃ q, t.Visits .backward input (stop - 1) (stop - i).toNat q ∧ t.AcceptsIn (q (stop - i).toNat)

theorem Sound.admitsStart_iff (h : t.Sound) (hlow : 0 ≤ i) (hordered : i ≤ stop)
    (hhigh : stop ≤ input.size) :
    t.AdmitsStart input stop i ↔
      t.accepts (t.stateAfter .backward input (stop - 1) (stop - i).toNat) = true := by
  have hfits : Direction.backward.Fits input.size (stop - 1) (i - 1) := by
    refine ⟨?_, ?_, ?_⟩ <;> omega
  have hdistance : Direction.backward.distance (stop - 1) (i - 1) = (stop - i).toNat := by
    rw [Direction.distance]
    congr 1
    omega
  rw [← hdistance]
  constructor
  · rintro ⟨q, hq, haccepts⟩
    rw [← hdistance] at hq haccepts
    exact (h.acceptsIn_visits_iff hfits hq (Nat.le_refl _)).1 haccepts
  · intro haccepts
    have hq := h.visits_stateAfter hfits
    refine ⟨_, hdistance ▸ hq, ?_⟩
    rw [← hdistance]
    exact (h.acceptsIn_visits_iff hfits hq (Nat.le_refl _)).2 haccepts

end Table

namespace Pending

variable {p : Pending} {t : Table} {props : ScanProps} {d : Dfa} {stop i : Int}

/-- The indices at which the match that ends at `stop` may start: as far back as the lookbehind and
the input allow, and such that the table accepts the bytes from there to the end. -/
def Starts (p : Pending) (t : Table) (stop : Int) : Set Int :=
  {i | max 0 (p.origin - p.bundle.forward.lookbehind.toNat) ≤ i ∧ i ≤ stop ∧
    t.AdmitsStart p.input stop i}

/-- The bytes down to the floor are those down to the lowest start. -/
theorem distance_floor (hlow : 0 ≤ p.origin) (hordered : p.origin ≤ stop) :
    (Direction.backward.distance (stop - 1) p.floor : Int) =
      stop - max 0 (p.origin - p.bundle.forward.lookbehind.toNat) := by
  simp only [Direction.distance, floor, scanFloor]
  omega

/-- The start after so many bytes is admissible exactly if the state there accepts. -/
theorem mem_starts_iff (h : t.Sound) (hlow : 0 ≤ p.origin) (hordered : p.origin ≤ stop)
    (hhigh : stop ≤ p.input.size) {count : Nat} :
    stop - count ∈ p.Starts t stop ↔
      count ≤ Direction.backward.distance (stop - 1) p.floor ∧
        t.accepts (t.stateAfter .backward p.input (stop - 1) count) = true := by
  have hdistance := distance_floor hlow hordered
  have hcount : (stop - (stop - count)).toNat = count := by omega
  constructor
  · rintro ⟨hfrom, hto, hadmits⟩
    rw [h.admitsStart_iff (by omega) hto hhigh, hcount] at hadmits
    exact ⟨by omega, hadmits⟩
  · rintro ⟨hle, haccepts⟩
    refine ⟨by omega, by omega, ?_⟩
    rw [h.admitsStart_iff (by omega) (by omega) hhigh, hcount]
    exact haccepts

theorem exists_count_of_mem_starts (hmem : i ∈ p.Starts t stop) : ∃ count : Nat, i = stop - count :=
  ⟨(stop - i).toNat, by have := hmem.2.1; omega⟩

/-- Most bytes backward is the least index. -/
theorem isLeast_of_isGreatest (h : t.Sound) (hlow : 0 ≤ p.origin) (hordered : p.origin ≤ stop)
    (hhigh : stop ≤ p.input.size) {last : Nat}
    (hlast : IsGreatest {j | j ≤ Direction.backward.distance (stop - 1) p.floor ∧
      t.accepts (t.stateAfter .backward p.input (stop - 1) j) = true} last) :
    IsLeast (p.Starts t stop) (stop - last) := by
  refine ⟨(mem_starts_iff h hlow hordered hhigh).2 hlast.1, fun i hi => ?_⟩
  rcases exists_count_of_mem_starts hi with ⟨count, rfl⟩
  -- An index below it would be reached by more bytes than the last acceptance.
  have hle : count ≤ last := hlast.2 ((mem_starts_iff h hlow hordered hhigh).1 hi)
  omega

/-- The start is the least one, or there is none. -/
theorem locateStart_cases (h : Dfa.ofTable t props = .ok d) (hdir : props.direction = .backward)
    (hreporting : props.reporting = false) (hb : p.bundle.backward = some d.toAutomaton)
    (hlow : 0 ≤ p.origin) (hordered : p.origin ≤ stop) (hhigh : stop ≤ p.input.size) :
    ((p.locateStart stop).answer = .error (.contract .backwardRejected) ∧ p.Starts t stop = ∅) ∨
      ∃ i, (p.locateStart stop).answer = .ok i ∧ IsLeast (p.Starts t stop) i := by
  have hsound := (Dfa.ofTable_eq_ok_iff.1 h).1
  have hfits : props.direction.Fits p.input.size (stop - 1) p.floor := by
    rw [hdir]
    exact fits_scanFloor hlow hordered hhigh p.bundle.forward.lookbehind
  have hscan := Dfa.scan_eq h hfits
  rw [hdir] at hscan
  cases hlast : t.lastAccepting .backward p.input (stop - 1)
      (Direction.backward.distance (stop - 1) p.floor) with
  | none =>
    rw [hlast] at hscan
    refine .inl ⟨answer_locateStart_of_noMatch hb hscan, ?_⟩
    refine Set.eq_empty_iff_forall_notMem.2 fun i hi => ?_
    rcases exists_count_of_mem_starts hi with ⟨count, rfl⟩
    rcases (mem_starts_iff hsound hlow hordered hhigh).1 hi with ⟨hcount, haccepts⟩
    rw [Table.lastAccepting_eq_none_iff.1 hlast count hcount] at haccepts
    cases haccepts
  | some last =>
    rw [hlast] at hscan
    -- A scan backward stands before the byte that it has read last, where the match starts.
    have hreports : t.answerAfter props p.input (stop - 1) last = stop - last - 1 := by
      rw [Table.answerAfter, hreporting, if_neg Bool.false_ne_true, hdir, Direction.after]
      omega
    simp only [hreports] at hscan
    exact .inr ⟨_, answer_locateStart hb hscan, isLeast_of_isGreatest hsound hlow hordered hhigh
      (Table.lastAccepting_eq_some_iff.1 hlast)⟩

/-- Let the backward automaton be laid out from a table, to scan backward for positions, and let a
match end at `stop`, at or after the place where the search began. The start that is found for it is
the least admissible index: one that the lookbehind and the input allow, and from which on the table
accepts. If there is none, the automata are found not to play their parts, and that is the only way
to fail. -/
theorem locateStart_leftmost (h : Dfa.ofTable t props = .ok d) (hdir : props.direction = .backward)
    (hreporting : props.reporting = false) (hb : p.bundle.backward = some d.toAutomaton)
    (hlow : 0 ≤ p.origin) (hordered : p.origin ≤ stop) (hhigh : stop ≤ p.input.size) :
    (∀ i, (p.locateStart stop).answer = .ok i ↔
      IsLeast {i | max 0 (p.origin - p.bundle.forward.lookbehind.toNat) ≤ i ∧ i ≤ stop ∧
        t.AdmitsStart p.input stop i} i) ∧
    ((∃ error, (p.locateStart stop).answer = .error (.contract error)) ↔
      ¬ ∃ i, max 0 (p.origin - p.bundle.forward.lookbehind.toNat) ≤ i ∧ i ≤ stop ∧
        t.AdmitsStart p.input stop i) ∧
    ∀ fault, (p.locateStart stop).answer = .error fault → fault = .contract .backwardRejected := by
  change (∀ i, _ ↔ IsLeast (p.Starts t stop) i) ∧ (_ ↔ ¬ ∃ i, i ∈ p.Starts t stop) ∧ _
  rcases locateStart_cases h hdir hreporting hb hlow hordered hhigh
    with ⟨hanswer, hnone⟩ | ⟨start, hanswer, hleast⟩
  · rw [hanswer, hnone]
    refine ⟨fun i => ⟨nofun, fun hi => absurd hi.1 (Set.notMem_empty i)⟩,
      ⟨fun _ => fun ⟨i, hi⟩ => Set.notMem_empty i hi, fun _ => ⟨_, rfl⟩⟩, ?_⟩
    rintro _ ⟨⟩
    rfl
  · rw [hanswer]
    refine ⟨fun i => ⟨?_, fun hi => congrArg _ (hleast.unique hi)⟩,
      ⟨nofun, fun hnone => absurd ⟨start, hleast.1⟩ hnone⟩, nofun⟩
    rintro ⟨⟩
    exact hleast

end Pending

/-- Automata that accept any bytes, of which the forward one looks at one byte before the search. -/
def lookbehindBundle : Bundle where
  forward := (Dfa.layOut anyBytesTable.toTable ⟨.forward, false, 1, false⟩).toAutomaton
  backward := some (Dfa.layOut anyBytesTable.toTable ⟨.backward, false, 0, false⟩).toAutomaton
  capture := none
  templates := #[]
  flags := 0
  sound := by simp [Parts.firstFault, Dfa.toAutomaton]

/-- All bytes are accepted, so a match that a search from 2 on finds starts one byte before. -/
theorem lookbehindBundle_locateStart :
    ∃ p : Pending, p.bundle = lookbehindBundle ∧ p.origin = 2 ∧ p.input = #[120, 121, 122] ∧
      (p.locateStart 3).answer = .ok 1 := by
  let p : Pending := ⟨lookbehindBundle, #[120, 121, 122], 2, false⟩
  have hsound : anyBytesTable.toTable.Sound := anyBytesTable_sound.toSound
  have hordered : p.origin ≤ 3 := by decide
  have hhigh : 3 ≤ (p.input.size : Int) := by decide
  have hd := Dfa.ofTable_of_sound hsound ⟨.backward, false, 0, false⟩
  rcases Pending.locateStart_leftmost hd rfl rfl rfl (by decide) hordered hhigh
    with ⟨hstart, -, -⟩
  refine ⟨p, rfl, rfl, rfl, (hstart 1).2 ⟨⟨by decide, by decide, ?_⟩, fun i hi => hi.1⟩⟩
  refine (hsound.admitsStart_iff (by decide) (by decide) (by decide)).2 ?_
  rw [anyBytesTable_stateAfter]
  decide

end LazyMatch
