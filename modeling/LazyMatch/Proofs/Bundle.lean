import LazyMatch.Bundle

/-!
# The check of bundles

The first rules of the check are about roles and numbers of groups (`Parts.RolesFit`). Parts that
keep them are refused for want of a backward automaton, or not at all
(`Parts.firstFault_of_rolesFit`), and bundles keep them.
-/

namespace LazyMatch

namespace Parts

variable {p : Parts}

/-- The automata report what their parts call for, and the numbers of groups agree. -/
structure RolesFit (p : Parts) : Prop where
  backward : ∀ backward ∈ p.backward, backward.groupCount = 0
  capture : ∀ capture ∈ p.capture, capture.groupCount ≠ 0
  templates : ∀ t ∈ p.templates, ∀ t' ∈ p.templates, t.groupCount = t'.groupCount
  agree : ∀ t ∈ p.templates, ∀ capture ∈ p.capture, t.groupCount = capture.groupCount

theorem disagrees_eq_true_iff {t : Template} :
    p.disagrees t = true ↔
      (∃ first ∈ p.templates[0]?, t.groupCount ≠ first.groupCount) ∨
        ∃ capture ∈ p.capture, t.groupCount ≠ capture.groupCount := by
  simp [disagrees, Option.any_eq_true]

/-- The rules about roles and numbers of groups, as they are checked. -/
theorem rolesFit_iff :
    p.RolesFit ↔
      ¬ (p.backward.any fun backward => backward.groupCount ≠ 0) = true ∧
        ¬ (p.capture.any fun capture => capture.groupCount = 0) = true ∧
        ¬ p.templates.any p.disagrees = true := by
  rw [Option.any_eq_true, Option.any_eq_true, Array.any_eq_true']
  constructor
  · intro h
    refine ⟨?_, ?_, ?_⟩
    · rintro ⟨backward, hb, hcount⟩
      exact of_decide_eq_true hcount (h.backward backward hb)
    · rintro ⟨capture, hc, hcount⟩
      exact h.capture capture hc (of_decide_eq_true hcount)
    · rintro ⟨t, ht, hdisagrees⟩
      rcases disagrees_eq_true_iff.1 hdisagrees with ⟨first, hfirst, hcount⟩ | ⟨capture, hc, hcount⟩
      · exact hcount (h.templates t ht first (Array.mem_of_getElem? hfirst))
      · exact hcount (h.agree t ht capture hc)
  · rintro ⟨hbackward, hcapture, htemplates⟩
    have hagrees (t : Template) (ht : t ∈ p.templates) :
        (∀ first ∈ p.templates[0]?, t.groupCount = first.groupCount) ∧
          ∀ capture ∈ p.capture, t.groupCount = capture.groupCount := by
      constructor
      · intro first hfirst
        refine Decidable.byContradiction fun hcount => ?_
        exact htemplates ⟨t, ht, disagrees_eq_true_iff.2 (.inl ⟨first, hfirst, hcount⟩)⟩
      · intro capture hc
        refine Decidable.byContradiction fun hcount => ?_
        exact htemplates ⟨t, ht, disagrees_eq_true_iff.2 (.inr ⟨capture, hc, hcount⟩)⟩
    refine ⟨?_, ?_, ?_, fun t ht => (hagrees t ht).2⟩
    · intro backward hb
      refine Decidable.byContradiction fun hcount => ?_
      exact hbackward ⟨backward, hb, decide_eq_true hcount⟩
    · intro capture hc hcount
      exact hcapture ⟨capture, hc, decide_eq_true hcount⟩
    · intro t ht t' ht'
      -- Both have as many groups as the first template.
      have hsome : 0 < p.templates.size := Array.size_pos_of_mem ht
      have hfirst : p.templates[0]? = some p.templates[0] := Array.getElem?_eq_getElem hsome
      exact ((hagrees t ht).1 _ hfirst).trans ((hagrees t' ht').1 _ hfirst).symm

/-- Automata that fit are refused for want of a backward automaton, or not at all. -/
theorem firstFault_of_rolesFit (h : p.RolesFit) :
    p.firstFault =
      if p.backward.isNone && p.needsBackward then some .backwardRequired else none := by
  rcases rolesFit_iff.1 h with ⟨hbackward, hcapture, htemplates⟩
  rw [firstFault, if_neg hbackward, if_neg hcapture, if_neg htemplates]

theorem needsBackward_of_single (h : p.templates.size = 1) : p.needsBackward = false := by
  simp [needsBackward, singleTemplate, h]

theorem needsBackward_of_many (h : 1 < p.templates.size) : p.needsBackward = true := by
  have hsize : p.templates.size ≠ 1 := by omega
  simp [needsBackward, singleTemplate, manyTemplates, h, hsize]

theorem needsBackward_of_empty (h : p.templates = #[]) :
    p.needsBackward =
      if p.capture.isNone then !(p.forward.anchored || p.sticky) else !p.startsAtOrigin := by
  simp [needsBackward, singleTemplate, manyTemplates, h]

end Parts

namespace Bundle

variable {b : Bundle}

/-- The automata of a bundle fit. -/
theorem rolesFit (b : Bundle) : b.RolesFit := by
  have hsound := b.sound
  unfold Parts.firstFault at hsound
  split at hsound
  · cases hsound
  · next hbackward =>
    split at hsound
    · cases hsound
    · next hcapture =>
      split at hsound
      · cases hsound
      · next htemplates => exact Parts.rolesFit_iff.2 ⟨hbackward, hcapture, htemplates⟩

theorem exists_backward (b : Bundle) (h : b.needsBackward = true) :
    ∃ backward, b.backward = some backward := by
  cases hb : b.backward with
  | some backward => exact ⟨backward, rfl⟩
  | none =>
    have hsound := b.sound
    rw [Parts.firstFault_of_rolesFit b.rolesFit, hb, h] at hsound
    cases hsound

theorem groupCount_of_mem_templates {t : Template} (ht : t ∈ b.templates) :
    t.groupCount = b.groupCount := by
  have hsome : 0 < b.templates.size := Array.size_pos_of_mem ht
  have hcount : b.groupCount = b.templates[0].groupCount := by
    simp [Parts.groupCount, hsome]
  rw [hcount]
  exact b.rolesFit.templates t ht _ (Array.getElem_mem hsome)

/-- Without a backward automaton, automata that fit are refused exactly if they need one. -/
theorem assemble_error_iff {p : Parts} (hfit : p.RolesFit) :
    (∃ error, assemble (some p.forward) none p.capture p.templates p.flags = .error error) ↔
      p.needsBackward = true := by
  let q : Parts := { p with backward := none }
  have hq : q.RolesFit := ⟨by rintro _ ⟨⟩, hfit.capture, hfit.templates, hfit.agree⟩
  have hfault : q.firstFault = if p.needsBackward then some .backwardRequired else none :=
    q.firstFault_of_rolesFit hq
  constructor
  · rintro ⟨error, herror⟩
    have hsome := (ofParts_eq_error_iff q error).1 herror
    rw [hfault] at hsome
    split at hsome
    · next hneeds => exact hneeds
    · cases hsome
  · intro hneeds
    rw [if_pos hneeds] at hfault
    exact ⟨_, (ofParts_eq_error_iff q _).2 hfault⟩

end Bundle

end LazyMatch
