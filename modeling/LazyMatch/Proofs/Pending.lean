import LazyMatch.Result.Access

/-!
# What pending scans amount to

Each pending scan is one run of one automaton, and what it answers is read off what that run
reports.
-/

namespace LazyMatch

namespace Pending

variable (p : Pending)

theorem backwardValue_of_none (h : p.bundle.backward = none) (stop : Int) :
    p.backwardValue stop = .fail (.contract .noBackward) := by
  simp only [backwardValue, h]

theorem backwardValue_eq {backward : Automaton} (h : p.bundle.backward = some backward)
    (stop : Int) :
    p.backwardValue stop =
      ⟨(backward.scan p.input 0 (stop - 1) p.floor).bind fun outcome =>
          if outcome.found then .ok outcome.value else .error (.contract .backwardRejected),
        [.run ⟨.backward, 0, stop - 1, p.floor, backward.scan p.input 0 (stop - 1) p.floor⟩]⟩ := by
  simp only [backwardValue, h]
  rw [Automaton.run_bind]
  · congr 2
    funext outcome
    split <;> rfl
  · intro outcome
    split <;> rfl

/-- Where there is a value, the backward automaton was run and found it. -/
theorem exists_scan_of_backwardValue {p : Pending} {stop value : Int}
    (h : (p.backwardValue stop).answer = .ok value) :
    ∃ backward outcome, p.bundle.backward = some backward ∧
      backward.scan p.input 0 (stop - 1) p.floor = .ok outcome ∧ outcome.found = true ∧
        outcome.value = value := by
  cases hb : p.bundle.backward with
  | none =>
    rw [p.backwardValue_of_none hb] at h
    cases h
  | some backward =>
    rw [p.backwardValue_eq hb] at h
    rcases exists_of_bind_eq_ok h with ⟨outcome, hscan, hvalue⟩
    split at hvalue
    · next hfound =>
      cases hvalue
      exact ⟨backward, outcome, rfl, hscan, hfound, rfl⟩
    · cases hvalue

theorem locateStart_eq (stop : Int) :
    p.locateStart stop =
      ⟨(p.backwardValue stop).answer.map fun value => value + 1,
        (p.backwardValue stop).events⟩ := by
  unfold locateStart
  cases h : (p.backwardValue stop).answer with
  | ok value =>
    rw [Work.bind_of_ok h]
    simp [Except.map]
  | error fault =>
    rw [Work.bind_of_error h]
    rfl

/-- Of a bundle, only the backward automaton and the lookbehind matter for the start. -/
theorem answer_locateStart_congr {p p' : Pending} (hinput : p'.input = p.input)
    (hbackward : p'.bundle.backward = p.bundle.backward) (hfloor : p'.floor = p.floor)
    (stop : Int) : (p'.locateStart stop).answer = (p.locateStart stop).answer := by
  have hvalue : (p'.backwardValue stop).answer = (p.backwardValue stop).answer := by
    cases hb : p.bundle.backward with
    | none => simp [p.backwardValue_of_none hb, p'.backwardValue_of_none (hbackward.trans hb)]
    | some backward =>
      simp [p.backwardValue_eq hb, p'.backwardValue_eq (hbackward.trans hb), hinput, hfloor]
  simp [locateStart_eq, hvalue]

theorem backwardValue_of_locateStart {p : Pending} {stop start : Int}
    (h : (p.locateStart stop).answer = .ok start) :
    (p.backwardValue stop).answer = .ok (start - 1) := by
  rw [p.locateStart_eq] at h
  cases hvalue : (p.backwardValue stop).answer with
  | error fault =>
    rw [hvalue] at h
    cases h
  | ok value =>
    rw [hvalue] at h
    cases h
    rw [Int.add_sub_cancel]

/-- A number that the backward automaton reports is tested, and then cut to a word. -/
theorem answer_locateTemplate {p : Pending} {stop : Int} {i : Nat}
    (hi : i < p.bundle.templates.size) (hvalue : (p.backwardValue stop).answer = .ok i) :
    (p.locateTemplate stop).answer = .ok (narrow ⟨i, hi⟩) := by
  rw [locateTemplate, Work.bind_of_ok hvalue, p.bundle.templateNumber_of_lt hi]
  rfl

theorem templateBoundaries_eq (stop : Int) :
    p.templateBoundaries stop =
      ⟨(p.backwardValue stop).answer.bind fun value =>
          (p.bundle.templateNumber value).map fun number =>
            let template := p.bundle.template (narrow number)
            template.boundaries (stop - template.length.toNat),
        (p.backwardValue stop).events⟩ := by
  unfold templateBoundaries locateTemplate
  cases h : (p.backwardValue stop).answer with
  | ok value =>
    rw [Work.bind_of_ok h]
    cases hnumber : p.bundle.templateNumber value with
    | ok number =>
      rw [Work.bind_of_ok rfl]
      simp [hnumber, Except.map, Except.bind]
    | error fault =>
      rw [Work.bind_of_error rfl]
      simp [hnumber, Except.map, Except.bind]
  | error fault =>
    rw [Work.bind_of_error h]
    rfl

/-- Boundaries of a template are found from a template of the bundle. -/
theorem exists_template_of_templateBoundaries {p : Pending} {stop : Int} {g : Array Int}
    (h : (p.templateBoundaries stop).answer = .ok g) :
    ∃ t ∈ p.bundle.templates, g = t.boundaries (stop - t.length.toNat) := by
  rw [p.templateBoundaries_eq] at h
  rcases exists_of_bind_eq_ok h with ⟨value, -, h⟩
  cases hnumber : p.bundle.templateNumber value with
  | error fault =>
    rw [hnumber] at h
    cases h
  | ok number =>
    rw [hnumber] at h
    cases h
    exact ⟨_, p.bundle.template_mem _, rfl⟩

theorem locateGroups_of_none (h : p.bundle.capture = none) (start stop : Int) :
    p.locateGroups start stop = .fail (.contract .noCapture) := by
  simp only [locateGroups, h]

theorem locateGroups_eq {capture : Automaton} (h : p.bundle.capture = some capture)
    (start stop : Int) :
    p.locateGroups start stop =
      ⟨(capture.scan p.input p.origin start stop).bind fun outcome =>
          match outcome.boundaries? with
          | some boundaries => .ok boundaries
          | none => .error (.contract .captureRejected),
        p.noteAccess.events ++
          [.run ⟨.capture, p.origin, start, stop, capture.scan p.input p.origin start stop⟩]⟩ := by
  have hnoted : p.noteAccess.answer = .ok () := by
    unfold noteAccess
    split <;> rfl
  simp only [locateGroups, h]
  rw [Work.bind_of_ok hnoted, Automaton.run_bind]
  · dsimp only
    congr 2
    funext outcome
    cases outcome.boundaries? <;> rfl
  · intro outcome
    split <;> rfl

/-- Where there are groups, the automaton for the groups was run and reported them as groups. -/
theorem exists_scan_of_locateGroups {p : Pending} {start stop : Int} {g : Array Int}
    (h : (p.locateGroups start stop).answer = .ok g) :
    ∃ capture, p.bundle.capture = some capture ∧
      capture.scan p.input p.origin start stop = .ok (.groups g) := by
  cases hc : p.bundle.capture with
  | none =>
    rw [p.locateGroups_of_none hc] at h
    cases h
  | some capture =>
    rw [p.locateGroups_eq hc] at h
    rcases exists_of_bind_eq_ok h with ⟨outcome, hscan, h⟩
    cases outcome with
    | noMatch => cases h
    | offset value => cases h
    | groups boundaries =>
      cases h
      exact ⟨capture, rfl, hscan⟩

end Pending

end LazyMatch
