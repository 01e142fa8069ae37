import LazyMatch.Proofs.Find.Fresh
import LazyMatch.Proofs.Find.Refinement

/-!
# Finding everything at once

An automaton that finds a match and its groups in one scan can stand in for a bundle if it reports
exactly the boundaries that a search on demand would find (`Automaton.Follows`). Then its result
gives the same answers as the result of that search (`Automaton.find_alike`), and goes on giving
them. An automaton that reports the finding which a bundle implements is such an automaton
(`Automaton.follows_of_implements`).
-/

namespace LazyMatch

namespace Result

variable {r r' : Result} {g : Array Int}

/-- Both match or neither does, and every question gets the same answer from both. -/
structure Alike (r r' : Result) : Prop where
  found : r.found = r'.found
  answer : ∀ a, (r.access a).answer = (r'.access a).answer

/-- What was asked before does not change the answer to a question. -/
def Steady (r : Result) : Prop :=
  ∀ (questions : List Accessor) (a : Accessor),
    ((r.after questions).access a).answer = (r.access a).answer

theorem Alike.refl (r : Result) : r.Alike r := ⟨rfl, fun _ => rfl⟩

theorem LeadsTo.steady {M : Finding} (h : r.LeadsTo M) : r.Steady := by
  intro questions a
  calc
    ((r.after questions).access a).answer = (M.told.access a).answer := h.answer_after questions a
    _ = (r.access a).answer := (h.access_spec a).1.symm

/-- Asked for one boundary after the other, the result gives these boundaries and no others. -/
structure Spells (r : Result) (g : Array Int) : Prop where
  size : g.size = 2 * r.groupCount.toNat
  start : ∀ index, index < r.groupCount →
    (r.startOfGroup index).answer = lookup g (index * 2).toNat
  stop : ∀ index, index < r.groupCount →
    (r.stopOfGroup index).answer = lookup g (index * 2 + 1).toNat

theorem Spells.groupCount_eq (h : r.Spells g) : (groups g).groupCount = r.groupCount := by
  rw [groupCount, h.size, Nat.mul_div_cancel_left _ (by decide), UInt32.ofNat_toNat]

theorem Answers.groupCount_pos (ha : r.Answers) : 0 < r.groupCount := by
  rcases ha.start with ⟨start, hstart⟩
  exact (lt_groupCount_of_withGroup (ha.startOfMatch.trans hstart)).1

theorem Spells.two_le_size (h : r.Spells g) (ha : r.Answers) : 2 ≤ g.size := by
  have hpos := UInt32.lt_iff_toNat_lt.1 ha.groupCount_pos
  have hsize := h.size
  simp only [UInt32.toNat_zero] at hpos
  omega

theorem withGroup_of_not_lt (hfound : r.found = true) {index : UInt32}
    (hindex : ¬ index < r.groupCount) (access : Result → Turn Result Int) :
    r.withGroup index access = .failed (.range (.group index r.groupCount)) r := by
  rw [withGroup, if_pos hfound, if_neg hindex]

/-- A match that spells out some boundaries answers as the result that knows them. -/
theorem Spells.answer_eq (h : r.Spells g) (hfound : r.found = true) (ha : r.Answers)
    (a : Accessor) : (r.access a).answer = ((groups g).access a).answer := by
  have hsize := h.two_le_size ha
  have hzero := ha.groupCount_pos
  cases a with
  | start =>
    -- The match is its group 0, and the boundaries are spelt out group by group.
    calc
      r.start.answer = (r.startOfGroup 0).answer := ha.startOfMatch.symm
      _ = lookup g 0 := h.start 0 hzero
      _ = .ok (matchStart g) := lookup_eq_getD (by omega)
  | stop =>
    calc
      r.stop.answer = (r.stopOfGroup 0).answer := ha.stopOfMatch.symm
      _ = lookup g 1 := h.stop 0 hzero
      _ = .ok (matchStop g) := lookup_eq_getD (by omega)
  | groupCount =>
    rw [access, access, Turn.answer_done, Turn.answer_done, h.groupCount_eq]
  | startOfGroup index =>
    refine Eq.trans ?_ (Finding.answer_withGroup_groups g index (index * 2)).symm
    rw [h.groupCount_eq]
    by_cases hindex : index < r.groupCount
    · rw [if_pos hindex]
      exact h.start index hindex
    · rw [if_neg hindex, access, startOfGroup, withGroup_of_not_lt hfound hindex]
      rfl
  | stopOfGroup index =>
    refine Eq.trans ?_ (Finding.answer_withGroup_groups g index (index * 2 + 1)).symm
    rw [h.groupCount_eq]
    by_cases hindex : index < r.groupCount
    · rw [if_pos hindex]
      exact h.stop index hindex
    · rw [if_neg hindex, access, stopOfGroup, withGroup_of_not_lt hfound hindex]
      rfl

end Result

/-! ## Automata that stand in for a bundle -/

namespace Automaton

variable {a : Automaton} {b : Bundle} {input : Input} {origin : Int} {r : Result}

/-- In this input the automaton finds at once what a search on demand finds: no match if that finds
none, and otherwise the boundaries that its result spells out. -/
def Follows (a : Automaton) (b : Bundle) (input : Input) (origin : Int) : Prop :=
  ∀ r, (b.find input origin).answer = .ok r →
    if r.found then
      ∃ g, a.scan input origin origin input.size = .ok (.groups g) ∧ r.Spells g
    else a.scan input origin origin input.size = .ok .noMatch

theorem find_of_scan {outcome : Outcome}
    (h : a.scan input origin origin input.size = .ok outcome) :
    (a.find input origin).answer =
      .ok (match outcome.boundaries? with | some g => .groups g | none => .noMatch) := by
  have hrun : (a.run .eager input origin origin input.size).answer = .ok outcome := h
  rw [find, Work.bind_of_ok hrun]
  cases outcome <;> rfl

/-- Finding everything at once gives the same answers as searching on demand, and keeps giving
them. -/
theorem find_alike (hfollows : a.Follows b input origin)
    (hfind : (b.find input origin).answer = .ok r) (ha : r.found = true → r.Answers) :
    ∃ found, (a.find input origin).answer = .ok found ∧ found.Alike r ∧ found.Steady := by
  have hscan := hfollows r hfind
  by_cases hfound : r.found = true
  · rw [if_pos hfound] at hscan
    rcases hscan with ⟨g, hscan, hspells⟩
    have hleads : (Result.groups g).LeadsTo (some g) := .groups (hspells.two_le_size (ha hfound))
    refine ⟨.groups g, find_of_scan hscan, ⟨hfound.symm, ?_⟩, hleads.steady⟩
    exact fun question => (hspells.answer_eq hfound (ha hfound) question).symm
  · rw [if_neg hfound] at hscan
    have hnone : r = .noMatch := Result.eq_noMatch_of_found (Bool.eq_false_iff.2 hfound)
    rw [hnone]
    exact ⟨.noMatch, find_of_scan hscan, .refl _, Result.LeadsTo.noMatch.steady⟩

end Automaton

/-- The result of a search on demand keeps giving its answers, if it answers at all and scans for
the groups report all of them. -/
theorem Bundle.Fresh.steady {b : Bundle} {input : Input} {origin : Int} {r : Result}
    (h : b.Fresh input origin r) (ha : r.found = true → r.Answers)
    (hreports : b.ReportsAllGroups) : r.Steady := by
  by_cases hfound : r.found = true
  · rcases h.exists_leadsTo hfound (ha hfound) hreports with ⟨g, hleads⟩
    exact hleads.steady
  · rw [Result.eq_noMatch_of_found (Bool.eq_false_iff.2 hfound)]
    exact Result.LeadsTo.noMatch.steady

/-! ## Standing in for a bundle that implements a finding -/

namespace Result

variable {r : Result} {g : Array Int}

theorem LeadsTo.spells (h : r.LeadsTo (some g)) (hsize : g.size = 2 * r.groupCount.toNat) :
    r.Spells g := by
  have hcount : (Result.groups g).groupCount = r.groupCount := h.groupCount_eq.symm
  refine ⟨hsize, ?_, ?_⟩
  · intro index hindex
    refine (h.access_spec (.startOfGroup index)).1.trans ?_
    exact (Finding.answer_withGroup_groups g index _).trans (if_pos (hcount.symm ▸ hindex))
  · intro index hindex
    refine (h.access_spec (.stopOfGroup index)).1.trans ?_
    exact (Finding.answer_withGroup_groups g index _).trans (if_pos (hcount.symm ▸ hindex))

/-- A result that leads to boundaries answers every question that is in order. -/
theorem LeadsTo.answers (h : r.LeadsTo (some g)) (hsize : g.size = 2 * r.groupCount.toNat)
    (hpos : 0 < r.groupCount) : r.Answers := by
  have hspells := h.spells hsize
  have hcount : (Result.groups g).groupCount = r.groupCount := h.groupCount_eq.symm
  have htwo : 2 ≤ g.size := by
    have hnat := UInt32.lt_iff_toNat_lt.1 hpos
    simp only [UInt32.toNat_zero] at hnat
    omega
  have hstart : r.start.answer = .ok (matchStart g) := (h.access_spec .start).1
  have hstop : r.stop.answer = .ok (matchStop g) := (h.access_spec .stop).1
  refine ⟨⟨_, hstart⟩, ⟨_, hstop⟩, ?_, ?_, ?_⟩
  · intro index hindex
    have hboth : (index * 2).toNat < g.size ∧ (index * 2 + 1).toNat < g.size :=
      LeadsTo.boundary_lt_size (hcount.symm ▸ hindex)
    exact ⟨⟨_, (hspells.start index hindex).trans (lookup_of_lt hboth.1)⟩,
      ⟨_, (hspells.stop index hindex).trans (lookup_of_lt hboth.2)⟩⟩
  · calc
      (r.startOfGroup 0).answer = lookup g 0 := hspells.start 0 hpos
      _ = .ok (matchStart g) := lookup_eq_getD (by omega)
      _ = r.start.answer := hstart.symm
  · calc
      (r.stopOfGroup 0).answer = lookup g 1 := hspells.stop 0 hpos
      _ = .ok (matchStop g) := lookup_eq_getD (by omega)
      _ = r.stop.answer := hstop.symm

end Result

namespace Bundle

variable {b : Bundle} {input : Input} {origin : Int} {M : Finding} {r : Result}

theorem Admits.groupCount_pos {g : Array Int} (ha : b.Admits input origin g) (h0 : 0 ≤ origin) :
    0 < b.groupCount := by
  have hsize := ha.size
  have htwo := two_le_size_of_admits ha h0
  rw [UInt32.lt_iff_toNat_lt, UInt32.toNat_zero]
  omega

/-- Where the automata implement a finding, the results of searches on demand answer. -/
theorem Implements.answers (h : b.Implements input origin M) (hword : b.ReportsWord input origin M)
    (hM : ∀ g ∈ M, b.Admits input origin g) (h0 : 0 ≤ origin)
    (hfind : (b.find input origin).answer = .ok r) (hfound : r.found = true) :
    r.Answers ∧ ∃ g, M = some g ∧ r.Spells g := by
  rcases find_spec h hword hM h0 with ⟨r', hr', hleads⟩
  rw [hfind] at hr'
  cases hr'
  cases M with
  | none =>
    rw [hleads.found_eq] at hfound
    cases hfound
  | some g =>
    have hadmits := hM g rfl
    -- As many groups are found as the bundle promises, so none of them is missing.
    have hcount : r.groupCount = b.groupCount := by
      rw [hleads.groupCount_eq]
      exact ofNat_size_div_two hadmits
    have hsize : g.size = 2 * r.groupCount.toNat := by
      rw [hcount]
      exact hadmits.size
    have hpos : 0 < r.groupCount := by
      rw [hcount]
      exact hadmits.groupCount_pos h0
    exact ⟨hleads.answers hsize hpos, g, rfl, hleads.spells hsize⟩

end Bundle

/-- An automaton that reports at once what a bundle implements follows the bundle. -/
theorem Automaton.follows_of_implements {a : Automaton} {b : Bundle} {input : Input} {origin : Int}
    {M : Finding} (h : b.Implements input origin M) (hword : b.ReportsWord input origin M)
    (hM : ∀ g ∈ M, b.Admits input origin g) (h0 : 0 ≤ origin)
    (hscan : a.scan input origin origin input.size =
      .ok (match M with | some g => .groups g | none => .noMatch)) :
    a.Follows b input origin := by
  intro r hfind
  by_cases hfound : r.found = true
  · rw [if_pos hfound]
    rcases h.answers hword hM h0 hfind hfound with ⟨_, g, rfl, hspells⟩
    exact ⟨g, hscan, hspells⟩
  · rw [if_neg hfound]
    rcases Bundle.find_spec h hword hM h0 with ⟨r', hr', hleads⟩
    rw [hfind] at hr'
    cases hr'
    cases M with
    | none => exact hscan
    | some g => exact absurd hleads.found_eq hfound

/-! ## A pattern with an empty group -/

/-- Reports the position at which it begins to scan. -/
def Automaton.here : Automaton where
  anchored := false
  lookbehind := 0
  groupCount := 0
  scan _ _ start _ := .ok (.offset start)

/-- Reports an empty match with an empty group where it begins to scan. -/
def Automaton.emptyGroup : Automaton where
  anchored := false
  lookbehind := 0
  groupCount := 2
  scan _ _ start _ := .ok (.groups #[start, start, start, start])

/-- Automata for the pattern `()`, which matches wherever a search begins. -/
def emptyGroupBundle : Bundle where
  forward := .here
  backward := some .here
  capture := some .emptyGroup
  templates := #[]
  flags := 0
  sound := by simp [Parts.firstFault, Automaton.here, Automaton.emptyGroup]

theorem emptyGroupBundle_implements (input : Input) (origin : Int) :
    emptyGroupBundle.Implements input origin (some #[origin, origin, origin, origin]) where
  forward _ := by
    refine ⟨by simp [emptyGroupBundle, Automaton.here], ?_⟩
    rintro _ ⟨⟩
    rfl
  anchored := by
    rintro _ ⟨⟩ hanchored
    cases hanchored
  backward := by
    rintro _ ⟨⟩ _ ⟨⟩
    rfl
  start := by
    rintro _ _ ⟨⟩
    rfl
  template := by
    intro t ht
    cases ht
  capture := by
    rintro _ _ ⟨⟩ _ ⟨⟩
    rfl

theorem emptyGroupBundle_reportsWord (input : Input) (origin : Int) (M : Finding) :
    emptyGroupBundle.ReportsWord input origin M :=
  fun hmany => absurd hmany (by decide)

theorem emptyGroupBundle_admits {input : Input} {origin : Int} (hin : origin ≤ input.size) :
    ∀ g ∈ (some #[origin, origin, origin, origin] : Finding),
      emptyGroupBundle.Admits input origin g := by
  rintro _ ⟨⟩
  exact ⟨rfl, Int.le_refl origin, Int.le_refl origin, hin⟩

theorem emptyGroupBundle_find {input : Input} {origin : Int} (hin : Inside input origin) :
    ∃ r, (emptyGroupBundle.find input origin).answer = .ok r ∧ (r.found = true → r.Answers) := by
  have himplements := emptyGroupBundle_implements input origin
  have hword := emptyGroupBundle_reportsWord input origin (some #[origin, origin, origin, origin])
  rcases Bundle.find_spec himplements hword (emptyGroupBundle_admits hin.2) hin.1 with ⟨r, hr, _⟩
  exact ⟨r, hr, fun hfound =>
    (himplements.answers hword (emptyGroupBundle_admits hin.2) hin.1 hr hfound).1⟩

theorem emptyGroup_follows {input : Input} {origin : Int} (hin : Inside input origin) :
    Automaton.emptyGroup.Follows emptyGroupBundle input origin :=
  Automaton.follows_of_implements (emptyGroupBundle_implements input origin)
    (emptyGroupBundle_reportsWord input origin _) (emptyGroupBundle_admits hin.2) hin.1 rfl

theorem emptyGroupBundle_reportsAllGroups : emptyGroupBundle.ReportsAllGroups := by
  rintro _ ⟨⟩ _ _ _ _ _ ⟨⟩
  rfl

end LazyMatch
