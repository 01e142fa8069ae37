import LazyMatch.Proofs.Result.Finding

/-!
# Matches described by templates

A template that passes its checks begins with the whole match, so its boundaries start where it is
shifted to and end one length later. The result made from it, from either end of the match, is known
at once and shows exactly these boundaries.
-/

namespace LazyMatch

namespace Template

/-- A template begins with the distances of the whole match. -/
theorem exists_distances_eq (t : Template) :
    ∃ rest, t.distances.toList = 0 :: (t.length.toNat : Int) :: rest := by
  have h := t.sound
  cases hlist : t.distances.toList with
  | nil => simp [hlist, firstFault] at h
  | cons low tail =>
    cases tail with
    | nil => simp [hlist, firstFault] at h
    | cons high rest =>
      rw [hlist, firstFault] at h
      by_cases hpair : rest.length % 2 ≠ 0
      · simp [hpair] at h
      · rw [if_neg hpair] at h
        by_cases hspan : low ≠ 0 ∨ high ≠ (t.length.toNat : Int)
        · simp [hspan] at h
        · rw [not_or, Decidable.not_not, Decidable.not_not] at hspan
          exact ⟨rest, by rw [hspan.1, hspan.2]⟩

theorem shift_of_nonneg {distance : Int} (h : 0 ≤ distance) (start : Int) :
    shift start distance = distance + start := by
  have hset : distance ≠ unset := by
    rw [unset]
    omega
  rw [shift, if_neg hset]

theorem exists_boundaries_eq (t : Template) (start : Int) :
    ∃ rest, (t.boundaries start).toList = start :: (start + t.length.toNat) :: rest := by
  rcases t.exists_distances_eq with ⟨rest, hlist⟩
  -- Neither of the first two distances is unset, so both are shifted.
  refine ⟨rest.map (shift start), ?_⟩
  have hlength : (0 : Int) ≤ t.length.toNat := Int.natCast_nonneg _
  rw [boundaries, Array.toList_map, hlist, List.map_cons, List.map_cons,
    shift_of_nonneg (Int.le_refl 0), shift_of_nonneg hlength, Int.zero_add, Int.add_comm]

theorem matchStart_boundaries (t : Template) (start : Int) :
    matchStart (t.boundaries start) = start := by
  rcases t.exists_boundaries_eq start with ⟨rest, hlist⟩
  simp [matchStart, ← Array.getElem?_toList, hlist]

theorem matchStop_boundaries (t : Template) (start : Int) :
    matchStop (t.boundaries start) = start + t.length.toNat := by
  rcases t.exists_boundaries_eq start with ⟨rest, hlist⟩
  simp [matchStop, ← Array.getElem?_toList, hlist]

theorem resultFromStart_leadsTo (t : Template) (start : Int) :
    (t.resultFromStart start).LeadsTo (some (t.boundaries start)) := by
  by_cases hsize : t.distances.size = 2
  · -- A template of two distances is the whole match alone.
    have hpair : t.boundaries start = #[start, start + t.length.toNat] := by
      rcases t.exists_boundaries_eq start with ⟨rest, hlist⟩
      have hlength := congrArg List.length hlist
      rw [Array.length_toList, boundaries_size, hsize] at hlength
      have hrest : rest = [] := by
        simpa using hlength
      rw [hrest] at hlist
      exact Array.toList_inj.1 hlist
    rw [resultFromStart, if_pos hsize, hpair]
    exact .single _ _
  · rw [resultFromStart, if_neg hsize]
    refine .groups ?_
    rw [boundaries_size]
    exact t.two_le_size

/-- The result from the end of a match shows the template shifted to the start of the match. -/
theorem resultFromStop_leadsTo (t : Template) (start : Int) :
    (t.resultFromStop (matchStop (t.boundaries start))).LeadsTo (some (t.boundaries start)) := by
  have hstart : matchStop (t.boundaries start) - t.length.toNat = start := by
    rw [matchStop_boundaries]
    omega
  rw [resultFromStop, hstart]
  exact t.resultFromStart_leadsTo start

end Template

end LazyMatch
