import LazyMatch.Proofs.Bundle
import LazyMatch.Proofs.Template

/-!
# Groups asked for one by one

Where one of several templates applies to a match, the groups of the result that the template
describes may be asked for one after the other, and their answers be kept. Groups are counted, and
their boundaries numbered, in 32-bit words; so for very many groups some of these answers are those
of earlier groups. But the match numbers them in the same words when it is asked, and there is no
question by which the copy could be told from the boundaries of the template themselves
(`Result.copied_alike`).
-/

namespace LazyMatch

namespace Result

variable {r : Result} {g copied : Array Int}

/-! ## What is copied -/

/-- Each boundary that a group is asked for is the same in both. -/
structure ReadsAlike (count : UInt32) (copied g : Array Int) : Prop where
  start : matchStart copied = matchStart g
  low : ∀ index < count, lookup copied (index * 2).toNat = lookup g (index * 2).toNat
  high : ∀ index < count, lookup copied (index * 2 + 1).toNat = lookup g (index * 2 + 1).toNat

/-- The boundaries at the places of the first `n` groups are those that the groups are asked for. -/
structure Copies (n : Nat) (copied g : Array Int) : Prop where
  size : copied.size = 2 * n
  low : ∀ i < n, copied[2 * i]? = g[(UInt32.ofNat i * 2).toNat]?
  high : ∀ i < n, copied[2 * i + 1]? = g[(UInt32.ofNat i * 2 + 1).toNat]?

theorem Copies.push {n : Nat} (h : Copies n copied g) {low high : Int}
    (hlow : g[(UInt32.ofNat n * 2).toNat]? = some low)
    (hhigh : g[(UInt32.ofNat n * 2 + 1).toNat]? = some high) :
    Copies (n + 1) ((copied.push low).push high) g := by
  have hsize := h.size
  refine ⟨?_, ?_, ?_⟩
  · rw [Array.size_push, Array.size_push]
    omega
  · intro i hi
    rcases Nat.lt_succ_iff_lt_or_eq.1 hi with hbefore | rfl
    · rw [← h.low i hbefore, Array.getElem?_push, Array.getElem?_push]
      simp only [Array.size_push]
      rw [if_neg (by omega), if_neg (by omega)]
    · rw [hlow, Array.getElem?_push, Array.getElem?_push]
      simp only [Array.size_push]
      rw [if_neg (by omega), if_pos (by omega)]
  · intro i hi
    rcases Nat.lt_succ_iff_lt_or_eq.1 hi with hbefore | rfl
    · rw [← h.high i hbefore, Array.getElem?_push, Array.getElem?_push]
      simp only [Array.size_push]
      rw [if_neg (by omega), if_neg (by omega)]
    · rw [hhigh, Array.getElem?_push]
      simp only [Array.size_push]
      rw [if_pos (by omega)]

/-- Every group that there is can be copied. -/
theorem exists_copyGroups (h : r.LeadsTo (some g)) :
    ∃ copied, r.copyGroups = .ok copied ∧ Copies r.groupCount.toNat copied g := by
  have hcount : r.groupCount = (Result.groups g).groupCount := h.groupCount_eq
  -- The loop has copied the groups that it has counted.
  have hloop : ∀ n ≤ r.groupCount.toNat, ∃ copied,
      (List.range n).foldlM (fun copied i => do
        let low ← (r.startOfGroup (UInt32.ofNat i)).answer
        let high ← (r.stopOfGroup (UInt32.ofNat i)).answer
        return (copied.push low).push high) #[] = .ok copied ∧ Copies n copied g := by
    intro n
    induction n with
    | zero => exact fun _ => ⟨#[], rfl, rfl, nofun, nofun⟩
    | succ n ih =>
      intro hn
      rcases ih (Nat.le_of_succ_le hn) with ⟨copied, hcopied, hcopies⟩
      have hindex : UInt32.ofNat n < (Result.groups g).groupCount := by
        rw [← hcount, UInt32.lt_iff_toNat_lt]
        exact Nat.lt_of_le_of_lt (Nat.mod_le _ _) hn
      have hinside := LeadsTo.boundary_lt_size hindex
      have hlow : (r.startOfGroup (UInt32.ofNat n)).answer = .ok g[(UInt32.ofNat n * 2).toNat] := by
        refine (h.access_spec (.startOfGroup (UInt32.ofNat n))).1.trans ?_
        exact (Finding.answer_withGroup_groups g _ _).trans
          ((if_pos hindex).trans (lookup_of_lt hinside.1))
      have hhigh : (r.stopOfGroup (UInt32.ofNat n)).answer =
          .ok g[(UInt32.ofNat n * 2 + 1).toNat] := by
        refine (h.access_spec (.stopOfGroup (UInt32.ofNat n))).1.trans ?_
        exact (Finding.answer_withGroup_groups g _ _).trans
          ((if_pos hindex).trans (lookup_of_lt hinside.2))
      refine ⟨_, ?_, hcopies.push (Array.getElem?_eq_getElem hinside.1)
        (Array.getElem?_eq_getElem hinside.2)⟩
      rw [List.range_succ, List.foldlM_append, hcopied]
      simp only [List.foldlM_cons, List.foldlM_nil, hlow, hhigh]
      rfl
  exact hloop _ (Nat.le_refl _)

theorem Copies.readsAlike {count : UInt32} (h : Copies count.toNat copied g) (hpos : 0 < count) :
    ReadsAlike count copied g := by
  have hdouble (index : UInt32) : (index * 2).toNat = 2 * (index.toNat % 2 ^ 31) := by
    rw [UInt32.toNat_mul]
    simp only [UInt32.reduceToNat]
    omega
  have hnext (index : UInt32) : (index * 2 + 1).toNat = 2 * (index.toNat % 2 ^ 31) + 1 := by
    rw [UInt32.toNat_add, hdouble]
    simp only [UInt32.reduceToNat]
    omega
  -- Numbers below 2 ^ 31 are doubled without a wrap, and wrapped ones come down to these.
  have hword (i : Nat) : (UInt32.ofNat (i % 2 ^ 31)).toNat % 2 ^ 31 = i % 2 ^ 31 := by
    rw [UInt32.toNat_ofNat']
    omega
  have hbelow {index : UInt32} (hindex : index < count) : index.toNat % 2 ^ 31 < count.toNat :=
    Nat.lt_of_le_of_lt (Nat.mod_le _ _) (UInt32.lt_iff_toNat_lt.1 hindex)
  refine ⟨?_, ?_, ?_⟩
  · have hfirst := h.low 0 (UInt32.lt_iff_toNat_lt.1 hpos)
    rw [matchStart, matchStart, Array.getD_eq_getD_getElem?, Array.getD_eq_getD_getElem?]
    exact congrArg (Option.getD · unset) hfirst
  · intro index hindex
    have hsame := h.low _ (hbelow hindex)
    rw [hdouble, hword] at hsame
    rw [lookup, lookup, hdouble, hsame]
  · intro index hindex
    have hsame := h.high _ (hbelow hindex)
    rw [hnext, hword] at hsame
    rw [lookup, lookup, hnext, hsame]

/-! ## Results that keep a copy -/

variable {p : Pending}

/-- A match that keeps a copy and one that keeps the boundaries take every question alike, and it
leaves both with the same start. -/
theorem ReadsAlike.access (h : ReadsAlike p.bundle.groupCount copied g) (stop : Int)
    (start? : Option Int) (a : Accessor) :
    ∃ answer later?, (lateTemplate p stop start? (some copied)).access a =
        ⟨answer, lateTemplate p stop later? (some copied), []⟩ ∧
      (lateTemplate p stop start? (some g)).access a =
        ⟨answer, lateTemplate p stop later? (some g), []⟩ := by
  have hgroup (index number : UInt32)
      (hread : index < p.bundle.groupCount → lookup copied number.toNat = lookup g number.toNat) :
      ∃ answer later?, (lateTemplate p stop start? (some copied)).withGroup index
          (fun r => r.boundary number) = ⟨answer, lateTemplate p stop later? (some copied), []⟩ ∧
        (lateTemplate p stop start? (some g)).withGroup index (fun r => r.boundary number) =
          ⟨answer, lateTemplate p stop later? (some g), []⟩ := by
    by_cases hindex : index < p.bundle.groupCount
    · refine ⟨lookup g number.toNat, start?, ?_, ?_⟩
      · rw [← hread hindex]
        exact if_pos hindex
      · exact if_pos hindex
    · exact ⟨_, start?, if_neg hindex, if_neg hindex⟩
  cases a with
  | start =>
    cases start? with
    | some start => exact ⟨_, some start, rfl, rfl⟩
    | none =>
      refine ⟨.ok (matchStart g), some (matchStart g), ?_, rfl⟩
      rw [← h.start]
      rfl
  | stop => exact ⟨_, start?, rfl, rfl⟩
  | groupCount => exact ⟨_, start?, rfl, rfl⟩
  | startOfGroup index => exact hgroup index _ (h.low index)
  | stopOfGroup index => exact hgroup index _ (h.high index)

theorem ReadsAlike.after (h : ReadsAlike p.bundle.groupCount copied g) (stop : Int)
    (start? : Option Int) (questions : List Accessor) :
    ∃ later?, (lateTemplate p stop start? (some copied)).after questions =
        lateTemplate p stop later? (some copied) ∧
      (lateTemplate p stop start? (some g)).after questions =
        lateTemplate p stop later? (some g) := by
  induction questions generalizing start? with
  | nil => exact ⟨start?, rfl, rfl⟩
  | cons a questions ih =>
    rcases h.access stop start? a with ⟨answer, later?, hcopied, hg⟩
    rw [after_cons, after_cons, hcopied, hg]
    exact ih later?

/-- Let the groups of a template that applies to a match be asked for one by one, and copied: that
succeeds, and nothing that can be asked of the match tells the copy from the boundaries. -/
theorem copied_alike (p : Pending) (stop : Int) (start? : Option Int) {t : Template}
    (ht : t ∈ p.bundle.templates) (hpos : 0 < t.groupCount) :
    ∃ copied, (t.resultFromStop stop).copyGroups = .ok copied ∧
      ∀ (questions : List Accessor) (a : Accessor),
        let r := (lateTemplate p stop start? (some copied)).after questions
        let r' := (lateTemplate p stop start?
          (some (t.boundaries (stop - t.length.toNat)))).after questions
        (r.access a).answer = (r'.access a).answer ∧ (r.access a).events = (r'.access a).events ∧
          r.start? = r'.start? ∧ r.groups?.isSome = r'.groups?.isSome := by
  have hleads := t.resultFromStart_leadsTo (stop - t.length.toNat)
  rcases exists_copyGroups hleads with ⟨copied, hcopied, hcopies⟩
  have hcount : (t.resultFromStart (stop - t.length.toNat)).groupCount = p.bundle.groupCount := by
    rw [hleads.groupCount_eq, ← Bundle.groupCount_of_mem_templates ht]
    simp [Finding.told, groupCount, Template.groupCount, Template.boundaries_size]
  rw [hcount] at hcopies
  have hreads := hcopies.readsAlike (Bundle.groupCount_of_mem_templates ht ▸ hpos)
  refine ⟨copied, hcopied, fun questions a => ?_⟩
  rcases hreads.after stop start? questions with ⟨later?, hafter, hafter'⟩
  rcases hreads.access stop later? a with ⟨answer, _, haccess, haccess'⟩
  intro r r'
  have hr : r = lateTemplate p stop later? (some copied) := hafter
  have hr' : r' = lateTemplate p stop later? _ := hafter'
  rw [hr, hr', haccess, haccess']
  exact ⟨rfl, rfl, rfl, rfl⟩

end Result

end LazyMatch
