import LazyMatch.Proofs.Find.AtOnce
import LazyMatch.Proofs.Find.Events
import LazyMatch.Proofs.Result.Resolution
import LazyMatch.Proofs.Table
import Mathlib.Data.UInt

/-!
# Accepted templates

Distances are accepted as a template exactly if they come in pairs, begin with the whole match, and
put every further group inside it or leave both of its distances unset (`Template.Placed`). The
result made from a template is the template moved to where the match is (`Template.Shows`): nothing
is left to be found, a group that takes part lies inside the match, one that takes no part is unset,
and it makes no difference from which end of the match the result is made
(`Template.accepted_iff_placed`).
-/

namespace LazyMatch

namespace Template

variable {length : UInt32} {t : Template} {start : Int}

/-! ## What is accepted -/

/-- The distances of a group that takes no part in the match, or lies inside it. -/
def InsideOrUnset (length : UInt32) (low high : Int) : Prop :=
  (low = unset ∧ high = unset) ∨ (0 ≤ low ∧ low ≤ high ∧ high ≤ length.toNat)

/-- Distances in pairs, of which the first is the whole match and the others lie inside it or are
unset. -/
structure Placed (distances : Array Int) (length : UInt32) : Prop where
  paired : distances.size % 2 = 0
  whole : distances[0]? = some 0 ∧ distances[1]? = some (length.toNat : Int)
  inside : ∀ i low high, 1 ≤ i → distances[2 * i]? = some low → distances[2 * i + 1]? = some high →
    InsideOrUnset length low high

theorem groupFault_eq_none_iff {i : Nat} {low high : Int} :
    groupFault length i low high = none ↔ InsideOrUnset length low high := by
  unfold groupFault InsideOrUnset
  by_cases hunset : low = unset ∧ high = unset
  · simp [hunset]
  · rw [if_neg hunset, ite_some_eq_none_iff, or_iff_right hunset, and_iff_left rfl, not_or, not_or,
      Int.not_lt, Int.not_lt, Int.not_lt]

/-- The groups pass their check if each pair of distances does. -/
theorem groupsFault_eq_none_iff {i : Nat} {distances : List Int} :
    groupsFault length i distances = none ↔
      ∀ j low high, distances[2 * j]? = some low → distances[2 * j + 1]? = some high →
        InsideOrUnset length low high := by
  fun_induction groupsFault length i distances with
  | case1 i low high rest error hfault =>
    -- The first pair is refused, and stands at 0.
    refine iff_of_false nofun fun hall => ?_
    rw [groupFault_eq_none_iff.2 (hall 0 low high rfl rfl)] at hfault
    cases hfault
  | case2 i low high rest hfault ih =>
    rw [ih]
    constructor
    · intro hrest j low' high' hlow hhigh
      cases j with
      | zero =>
        cases hlow
        cases hhigh
        exact groupFault_eq_none_iff.1 hfault
      | succ j => exact hrest j low' high' hlow hhigh
    · intro hall j low' high' hlow hhigh
      exact hall (j + 1) low' high' hlow hhigh
  | case3 distances i hshort =>
    refine iff_of_true rfl fun j low high hlow hhigh => ?_
    -- Without two distances there is no pair.
    cases distances with
    | nil => cases hlow
    | cons first rest =>
      cases rest with
      | nil => cases hhigh
      | cons second rest => exact (hshort first second rest rfl).elim

theorem firstFault_eq_none_iff {distances : Array Int} :
    firstFault length distances.toList = none ↔ Placed distances length := by
  obtain ⟨l⟩ := distances
  match l with
  | [] => exact iff_of_false nofun fun h => nomatch h.whole.1
  | [_] => exact iff_of_false nofun fun h => nomatch h.whole.2
  | low :: high :: rest =>
    have hrest (k : Nat) : (Array.mk (low :: high :: rest))[k + 2]? = rest[k]? :=
      List.getElem?_toArray
    rw [firstFault, ite_some_eq_none_iff, ite_some_eq_none_iff, groupsFault_eq_none_iff]
    constructor
    · rintro ⟨hpaired, hwhole, hinside⟩
      refine ⟨?_, ?_, fun i low' high' hi hlow hhigh => ?_⟩
      · simp only [List.size_toArray, List.length_cons]
        omega
      · rw [not_or, Decidable.not_not, Decidable.not_not] at hwhole
        exact ⟨congrArg some hwhole.1, congrArg some hwhole.2⟩
      · obtain ⟨j, rfl⟩ := Nat.exists_eq_add_of_le' hi
        exact hinside j low' high' ((hrest _).symm.trans hlow) ((hrest _).symm.trans hhigh)
    · intro h
      refine ⟨?_, ?_, fun j low' high' hlow hhigh => ?_⟩
      · have hpaired := h.paired
        simp only [List.size_toArray, List.length_cons] at hpaired
        omega
      · rw [not_or, Decidable.not_not, Decidable.not_not]
        exact ⟨Option.some.inj h.whole.1, Option.some.inj h.whole.2⟩
      · exact h.inside (j + 1) low' high' (Nat.le_add_left 1 j) ((hrest _).trans hlow)
          ((hrest _).trans hhigh)

theorem ofDistances_of_placed {distances : Array Int} (h : Placed distances length) :
    ∃ t, ofDistances distances length = .ok t ∧ t.distances = distances ∧ t.length = length := by
  have hnone := firstFault_eq_none_iff.2 h
  unfold ofDistances
  split
  · exact ⟨_, rfl, rfl, rfl⟩
  · next error herror => cases hnone.symm.trans herror

theorem placed_of_ofDistances {distances : Array Int} (h : ofDistances distances length = .ok t) :
    Placed distances length := by
  unfold ofDistances at h
  split at h
  · next hnone => exact firstFault_eq_none_iff.1 hnone
  · cases h

theorem placed (t : Template) : Placed t.distances t.length := firstFault_eq_none_iff.1 t.sound

end Template

/-! ## What a template shows -/

namespace Result

variable {r : Result}

/-- Whatever is asked, nothing is scanned and nothing changes. -/
def Settled (r : Result) : Prop := ∀ a, (r.access a).events = [] ∧ (r.access a).next = r

theorem settled_of_pending? (h : r.pending? = none) : r.Settled := by
  have hknown : (r.start.events = [] ∧ r.start.next = r) ∧
      (r.boundaries.events = [] ∧ r.boundaries.next = r) := by
    cases r with
    | noMatch => exact ⟨⟨rfl, rfl⟩, rfl, rfl⟩
    | single start stop => exact ⟨⟨rfl, rfl⟩, rfl, rfl⟩
    | lateStart p stop start? => cases h
    | groups g => exact ⟨⟨rfl, rfl⟩, rfl, rfl⟩
    | lateGroups p stop start? groups? => cases h
    | lateTemplate p stop start? groups? => cases h
  intro a
  exact access_induction (P := fun next events => events = [] ∧ next = r) r a ⟨rfl, rfl⟩ hknown.1
    hknown.2

/-- Group `i` stands at this place among all boundaries, and is told when it is asked for. -/
structure PutsGroup (r : Result) (i : Nat) (low high : Int) : Prop where
  boundaries : ∃ g, r.boundaries.answer = .ok g ∧ g[2 * i]? = some low ∧ g[2 * i + 1]? = some high
  asked : ∀ index : UInt32, index.toNat = i →
    (r.access (.startOfGroup index)).answer = .ok low ∧
      (r.access (.stopOfGroup index)).answer = .ok high

/-- A group of a finding is told if not more than `2 ^ 32` boundaries are to be numbered. -/
theorem LeadsTo.putsGroup {g : Array Int} {i : Nat} {low high : Int} (h : r.LeadsTo (some g))
    (hsize : g.size ≤ 2 ^ 32) (hlow : g[2 * i]? = some low) (hhigh : g[2 * i + 1]? = some high) :
    r.PutsGroup i low high := by
  refine ⟨⟨g, h.boundaries_spec.1, hlow, hhigh⟩, ?_⟩
  rintro index rfl
  have htold (a : Accessor) : (r.access a).answer = Finding.answer (some g) a := by
    calc
      (r.access a).answer = ((Finding.told (some g)).access a).answer := (h.access_spec a).1
      _ = Finding.answer (some g) a := Finding.answer_told (by rintro _ ⟨⟩; exact hsize) a
  have hthere : index.toNat < Finding.groupCount (some g) := by
    have hlast := (Array.getElem?_eq_some_iff.1 hhigh).1
    rw [Finding.groupCount]
    omega
  rw [htold, htold, Finding.answer, Finding.answer, Finding.ofGroup, Finding.ofGroup,
    if_pos hthere, if_pos hthere, lookup, lookup, hlow, hhigh]
  exact ⟨rfl, rfl⟩

end Result

namespace Template

variable {length : UInt32} {t : Template} {start : Int}

/-- The result is the template, moved to a match that begins at `start`. -/
structure Shows (t : Template) (start : Int) (r : Result) : Prop where
  settled : r.Settled
  start_eq : r.start? = some start
  stop_eq : r.stop? = some (start + t.length.toNat)
  groupCount_eq : r.groupCount.toNat = t.distances.size / 2
  boundaries : ∃ g, r.boundaries.answer = .ok g ∧ g.size = t.distances.size
  groups : ∀ i low high, t.distances[2 * i]? = some low → t.distances[2 * i + 1]? = some high →
    (low = unset ∧ high = unset ∧ r.PutsGroup i unset unset) ∨
      (unset < low ∧ unset < start + low ∧ r.PutsGroup i (start + low) (start + high) ∧
        start ≤ start + low ∧ start + low ≤ start + high ∧
          start + high ≤ start + t.length.toNat)
  /-- A match whose only group is the match answers as if it had that group. -/
  alike : r.Alike (.groups (t.boundaries start))

theorem getElem?_boundaries (t : Template) (start : Int) (i : Nat) :
    (t.boundaries start)[i]? = t.distances[i]?.map (shift start) := by
  rw [boundaries, Array.getElem?_map]

/-- Every group of an accepted template, the whole match included, lies inside it or is unset. -/
theorem insideOrUnset (t : Template) {i : Nat} {low high : Int}
    (hlow : t.distances[2 * i]? = some low) (hhigh : t.distances[2 * i + 1]? = some high) :
    InsideOrUnset t.length low high := by
  cases i with
  | zero =>
    cases hlow.symm.trans t.placed.whole.1
    cases hhigh.symm.trans t.placed.whole.2
    exact .inr ⟨Int.le_refl 0, Int.natCast_nonneg _, Int.le_refl _⟩
  | succ i => exact t.placed.inside (i + 1) low high (Nat.le_add_left 1 i) hlow hhigh

theorem stop?_resultFromStart (t : Template) (start : Int) :
    (t.resultFromStart start).stop? = some (start + t.length.toNat) := by
  unfold resultFromStart
  split
  · rfl
  · exact congrArg some (t.matchStop_boundaries start)

theorem shows_resultFromStart (t : Template) (hfew : t.distances.size ≤ 2 ^ 32)
    (hstart : 0 ≤ start) : t.Shows start (t.resultFromStart start) := by
  have hleads := t.resultFromStart_leadsTo start
  have hsize : 2 ≤ (t.boundaries start).size := t.boundaries_size start ▸ t.two_le_size
  have hgroups : (Result.groups (t.boundaries start)).LeadsTo (some (t.boundaries start)) :=
    .groups hsize
  have hboundaries : (t.boundaries start).size ≤ 2 ^ 32 := t.boundaries_size start ▸ hfew
  refine {
    settled := Result.settled_of_pending? (t.pending?_resultFromStart start)
    start_eq := ?_
    stop_eq := t.stop?_resultFromStart start
    groupCount_eq := ?_
    boundaries := ⟨_, hleads.boundaries_spec.1, t.boundaries_size start⟩
    groups := fun i low high hlow hhigh => ?_
    alike := ⟨hleads.found_eq.trans hgroups.found_eq.symm,
      fun a => (hleads.access_spec a).1.trans (hgroups.access_spec a).1.symm⟩ }
  · unfold resultFromStart
    split
    · rfl
    · exact congrArg some (t.matchStart_boundaries start)
  · rw [hleads.groupCount_eq]
    refine (UInt32.toNat_ofNat_of_lt' ?_).trans (by rw [boundaries_size])
    simp only [UInt32.size]
    omega
  · have hfirst := t.getElem?_boundaries start (2 * i)
    have hsecond := t.getElem?_boundaries start (2 * i + 1)
    rw [hlow, Option.map_some] at hfirst
    rw [hhigh, Option.map_some] at hsecond
    rcases t.insideOrUnset hlow hhigh with ⟨rfl, rfl⟩ | ⟨hset, horder, hinside⟩
    · exact .inl ⟨rfl, rfl, hleads.putsGroup hboundaries hfirst hsecond⟩
    · rw [shift_of_nonneg hset, Int.add_comm] at hfirst
      rw [shift_of_nonneg (Int.le_trans hset horder), Int.add_comm] at hsecond
      -- Positions count from 0, so the group cannot be taken for an unset one.
      have hunset : unset < 0 := by decide
      exact .inr ⟨by omega, by omega, hleads.putsGroup hboundaries hfirst hsecond, by omega,
        by omega, by omega⟩

/-- Distances and a length are accepted exactly if they come in pairs, begin with the whole match,
and put every further group inside it or leave it unset. The result from the end of a match is the
one from the start that lies as far before it as the match is long, so both ends of a match give the
same result. If the template has at most `2 ^ 31` groups, the result shows the template where the
match is, with nothing left to find. -/
theorem accepted_iff_placed :
    (∀ (distances : Array Int) (length : UInt32),
      ((∃ t, ofDistances distances length = .ok t) ↔ Placed distances length) ∧
        ∀ t, ofDistances distances length = .ok t →
          t.distances = distances ∧ t.length = length) ∧
    ∀ t : Template,
      (∀ start stop, (t.resultFromStart start).stop? = some stop →
        t.resultFromStop stop = t.resultFromStart start) ∧
      (∀ stop, t.resultFromStop stop = t.resultFromStart (stop - t.length.toNat)) ∧
      (t.distances.size / 2 ≤ 2 ^ 31 →
        (∀ start, 0 ≤ start → t.Shows start (t.resultFromStart start)) ∧
          ∀ stop, (t.length.toNat : Int) ≤ stop →
            t.Shows (stop - t.length.toNat) (t.resultFromStop stop)) := by
  refine ⟨fun distances length => ⟨⟨fun ⟨t, ht⟩ => placed_of_ofDistances ht, fun h => ?_⟩,
    fun t ht => ?_⟩, fun t => ⟨fun start stop hstop => ?_, fun stop => rfl, fun hgroups => ?_⟩⟩
  · rcases ofDistances_of_placed h with ⟨t, ht, -⟩
    exact ⟨t, ht⟩
  · rcases ofDistances_of_placed (placed_of_ofDistances ht) with ⟨t', ht', hkept⟩
    cases ht.symm.trans ht'
    exact hkept
  · cases (t.stop?_resultFromStart start).symm.trans hstop
    rw [resultFromStop, Int.add_sub_cancel]
  · have hfew : t.distances.size ≤ 2 ^ 32 := by
      have hpaired := t.placed.paired
      omega
    exact ⟨fun start hstart => t.shows_resultFromStart hfew hstart,
      fun stop hstop => t.shows_resultFromStart hfew (Int.sub_nonneg_of_le hstop)⟩

/-- What a match of two bytes looks like of which the first group takes no part, and the second is
the last byte. -/
def lastOnly : Template where
  distances := #[0, 2, -1, -1, 1, 2]
  length := 2
  sound := by decide

/-- A group of which only one distance is unset is refused. Moved to 3, the template shows its unset
group and its set one, whichever end of the match it is made from. -/
theorem lastOnly_shows :
    (∃ t, ofDistances #[0, 2, -1, -1, 1, 2] 2 = .ok t) ∧
      (¬ ∃ t, ofDistances #[0, 2, -1, 1] 2 = .ok t) ∧
      lastOnly.resultFromStop 5 = lastOnly.resultFromStart 3 ∧
      lastOnly.distances.size / 2 ≤ 2 ^ 31 ∧ (2 : Int) ≤ 5 ∧
      lastOnly.Shows 3 (lastOnly.resultFromStop 5) ∧ (0 : Int) ≤ 3 ∧
      (lastOnly.resultFromStart 3).PutsGroup 1 (-1) (-1) ∧
      (lastOnly.resultFromStart 3).PutsGroup 2 4 5 := by
  rcases accepted_iff_placed with ⟨haccepted, hshown⟩
  rcases hshown lastOnly with ⟨hends, -, hfew⟩
  have hgroups : lastOnly.distances.size / 2 ≤ 2 ^ 31 := by decide
  rcases hfew hgroups with ⟨hstart, hstop⟩
  have hfromStart := hstart 3 (by decide)
  refine ⟨(haccepted _ 2).1.2 lastOnly.placed, ?_, hends 3 5 hfromStart.stop_eq, hgroups,
    by decide, hstop 5 (by decide), by decide, ?_, ?_⟩
  · intro hrefused
    have hinside := ((haccepted _ 2).1.1 hrefused).inside 1 (-1) 1 (by decide) rfl rfl
    rcases hinside with ⟨-, hhigh⟩ | ⟨hlow, -, -⟩
    · exact absurd hhigh (by decide)
    · exact absurd hlow (by decide)
  · rcases hfromStart.groups 1 (-1) (-1) rfl rfl with ⟨-, -, hputs⟩ | ⟨hset, -⟩
    · exact hputs
    · exact absurd hset (by decide)
  · rcases hfromStart.groups 2 1 2 rfl rfl with ⟨hunset, -⟩ | ⟨-, -, hputs, -⟩
    · exact absurd hunset (by decide)
    · exact hputs

/-- With more than `2 ^ 31` groups, an accepted template is not shown: a group that takes no part is
told to start with the match. Nor is a result of one group said to know its groups, although they
are told without a scan. -/
theorem accepted_not_shown :
    (∃ (distances : Array Int) (t : Template) (index : UInt32),
      ofDistances distances 1 = .ok t ∧ distances[2 * index.toNat]? = some unset ∧
        distances[2 * index.toNat + 1]? = some unset ∧
          ((t.resultFromStart 0).access (.startOfGroup index)).answer = .ok 0) ∧
    ∃ t : Template, ofDistances #[0, 2] 2 = .ok t ∧ (t.resultFromStart 3).Settled ∧
      (t.resultFromStart 3).groups? = none := by
  refine ⟨?_, ⟨_, rfl, Result.settled_of_pending? rfl, rfl⟩⟩
  -- The size is kept as a variable, so that no step counts up to it.
  obtain ⟨n, hn⟩ : ∃ n, n = 2 ^ 32 := ⟨_, rfl⟩
  rcases crowd_spec n with ⟨hsize, hstart, hstop⟩
  have hunset (i : Nat) (hlow : 2 ≤ i) (hhigh : i < n + 2) : (crowd n)[i]? = some unset := by
    rw [crowd, Array.getElem?_append_right hlow]
    exact Array.getElem?_replicate.trans (if_pos (by change i - 2 < n; omega))
  have hplaced : Placed (crowd n) 1 := by
    refine ⟨by omega, getElem?_crowd n, fun i low high hi hlow hhigh => ?_⟩
    have hlast := (Array.getElem?_eq_some_iff.1 hhigh).1
    cases (hunset (2 * i) (by omega) (by omega)).symm.trans hlow
    cases (hunset (2 * i + 1) (by omega) (by omega)).symm.trans hhigh
    exact .inl ⟨rfl, rfl⟩
  rcases ofDistances_of_placed hplaced with ⟨t, ht, hdistances, -⟩
  have hindex : (2147483648 : UInt32).toNat = 2147483648 := rfl
  refine ⟨crowd n, t, 2147483648, ht, hunset _ (by omega) (by omega),
    hunset _ (by omega) (by omega), ?_⟩
  have hboundaries : (t.boundaries 0).size = n + 2 := by
    rw [t.boundaries_size, hdistances, hsize]
  have hthere : (2147483648 : UInt32) < (Result.groups (t.boundaries 0)).groupCount := by
    rw [Result.groupCount, hboundaries, hn, UInt32.lt_iff_toNat_lt]
    simp
  calc
    ((t.resultFromStart 0).access (.startOfGroup 2147483648)).answer
        = ((Result.groups (t.boundaries 0)).access (.startOfGroup 2147483648)).answer :=
      ((t.resultFromStart_leadsTo 0).access_spec _).1
    _ = lookup (t.boundaries 0) 0 :=
      (Finding.answer_withGroup_groups _ _ _).trans (if_pos hthere)
    _ = .ok 0 := by
      rw [lookup_eq_getD (by omega)]
      exact congrArg Except.ok (t.matchStart_boundaries 0)

end Template

end LazyMatch
