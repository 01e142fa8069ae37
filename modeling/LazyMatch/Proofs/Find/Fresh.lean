import LazyMatch.Find
import LazyMatch.Proofs.Bundle
import LazyMatch.Proofs.Pending
import LazyMatch.Proofs.Template

/-!
# Results of searches on demand

A search on demand makes results of a few shapes (`Bundle.Fresh`). Nothing that they leave pending
has been found yet, except for a start that is known from the outset. If every question to such a
result is answered and its group 0 is the match, then it leads to a finding
(`Bundle.Fresh.exists_leadsTo`).
-/

namespace LazyMatch

/-- Whether a position lies in the input or at its end. -/
def Inside (input : Input) (origin : Int) : Prop :=
  0 ≤ origin ∧ origin ≤ input.size

theorem inside_iff {input : Input} {origin : Int} :
    Inside input origin ↔ ¬ (origin < 0 ∨ (input.size : Int) < origin) := by
  unfold Inside
  omega

namespace Bundle

variable {b : Bundle} {input : Input} {origin stop : Int} {r : Result}

/-! ## The run of a search -/

/-- A search takes one of two routes. -/
theorem find_route (b : Bundle) (input : Input) (origin : Int) :
    (∃ backward, b.backward = some backward ∧ backward.anchored = true ∧
        b.find input origin = b.findBackward backward input origin) ∨
      (∀ backward ∈ b.backward, backward.anchored = false) ∧
        b.find input origin = b.findForward input origin := by
  unfold find
  cases hb : b.backward with
  | none =>
    refine .inr ⟨?_, rfl⟩
    rintro _ ⟨⟩
  | some backward =>
    cases hanchored : backward.anchored with
    | true => exact .inl ⟨backward, rfl, hanchored, if_pos hanchored⟩
    | false =>
      refine .inr ⟨?_, if_neg (Bool.eq_false_iff.1 hanchored)⟩
      rintro _ ⟨⟩
      exact hanchored

/-- A search forward is one run, and its result is read off what the run reports. -/
theorem findForward_eq (b : Bundle) (input : Input) (origin : Int) :
    b.findForward input origin =
      ⟨(b.forward.scan input origin origin input.size).bind fun outcome =>
          .ok (if outcome.found then b.resultFromStop input origin outcome.value else .noMatch),
        [.run ⟨.forward, origin, origin, input.size,
          b.forward.scan input origin origin input.size⟩]⟩ := by
  rw [findForward, Automaton.run_bind]
  · congr 2
    funext outcome
    split <;> rfl
  · intro outcome
    split <;> rfl

/-- A search backward is one run, and its result is read off what the run reports. -/
theorem findBackward_eq (b : Bundle) (backward : Automaton) (input : Input) (origin : Int) :
    b.findBackward backward input origin =
      ⟨(backward.scan input 0 (input.size - 1) (b.pending input origin).floor).bind fun outcome =>
          if outcome.found then b.resultFromValue input origin outcome.value else .ok .noMatch,
        [.run ⟨.backward, 0, input.size - 1, (b.pending input origin).floor,
          backward.scan input 0 (input.size - 1) (b.pending input origin).floor⟩]⟩ := by
  rw [findBackward, Automaton.run_bind]
  · congr 2
    funext outcome
    split <;> rfl
  · intro outcome
    split <;> rfl

theorem answer_find_of_forward (hroute : ∀ backward ∈ b.backward, backward.anchored = false)
    {outcome : Outcome} (hscan : b.forward.scan input origin origin input.size = .ok outcome)
    (hfound : outcome.found = true) :
    (b.find input origin).answer = .ok (b.resultFromStop input origin outcome.value) := by
  rcases b.find_route input origin with ⟨backward, hsome, hroute', -⟩ | ⟨-, hfind⟩
  · cases hroute'.symm.trans (hroute backward hsome)
  · rw [hfind, findForward_eq, hscan]
    exact congrArg Except.ok (if_pos hfound)

theorem answer_find_of_backward {backward : Automaton} (hb : b.backward = some backward)
    (hroute : backward.anchored = true) {outcome : Outcome}
    (hscan : backward.scan input 0 (input.size - 1) (b.pending input origin).floor = .ok outcome)
    (hfound : outcome.found = true) :
    (b.find input origin).answer = b.resultFromValue input origin outcome.value := by
  rcases b.find_route input origin with ⟨backward', hb', -, hfind⟩ | ⟨hforward, -⟩
  · cases hb.symm.trans hb'
    rw [hfind, findBackward_eq, hscan]
    exact if_pos hfound
  · cases hroute.symm.trans (hforward backward hb)

theorem answer_find_of_forward_noMatch (hroute : ∀ backward ∈ b.backward, backward.anchored = false)
    (hscan : b.forward.scan input origin origin input.size = .ok .noMatch) :
    (b.find input origin).answer = .ok .noMatch := by
  rcases b.find_route input origin with ⟨backward, hsome, hroute', -⟩ | ⟨-, hfind⟩
  · cases hroute'.symm.trans (hroute backward hsome)
  · rw [hfind, findForward_eq, hscan]
    rfl

theorem answer_find_of_backward_noMatch {backward : Automaton} (hb : b.backward = some backward)
    (hroute : backward.anchored = true)
    (hscan : backward.scan input 0 (input.size - 1) (b.pending input origin).floor = .ok .noMatch) :
    (b.find input origin).answer = .ok .noMatch := by
  rcases b.find_route input origin with ⟨backward', hb', -, hfind⟩ | ⟨hforward, -⟩
  · cases hb.symm.trans hb'
    rw [hfind, findBackward_eq, hscan]
    rfl
  · cases hroute.symm.trans (hforward backward hb)

/-- Where a search has a result, nothing was found, or the forward automaton found the end of the
match, or the backward automaton reported on a match at the end of the input. -/
theorem find_cases (h : (b.find input origin).answer = .ok r) :
    r = .noMatch ∨ (∃ stop, r = b.resultFromStop input origin stop) ∨
      ∃ backward value, b.backward = some backward ∧
        b.resultFromValue input origin value = .ok r := by
  rcases b.find_route input origin with ⟨backward, hb, -, hfind⟩ | ⟨-, hfind⟩
  · rw [hfind, findBackward_eq] at h
    cases hscan : backward.scan input 0 (input.size - 1) (b.pending input origin).floor with
    | error fault =>
      rw [hscan] at h
      cases h
    | ok outcome =>
      simp only [hscan, Except.bind] at h
      split at h
      · exact .inr (.inr ⟨backward, outcome.value, hb, h⟩)
      · cases h
        exact .inl rfl
  · rw [hfind, findForward_eq] at h
    cases hscan : b.forward.scan input origin origin input.size with
    | error fault =>
      rw [hscan] at h
      cases h
    | ok outcome =>
      rw [hscan] at h
      cases h
      split
      · exact .inr (.inl ⟨outcome.value, rfl⟩)
      · exact .inl rfl

/-! ## The results of a search -/

theorem templates_eq_empty (ht : b.templates[0]? = none) : b.templates = #[] := by
  have hsize : b.templates.size ≤ 0 := Array.getElem?_eq_none_iff.1 ht
  exact Array.size_eq_zero_iff.1 (Nat.le_zero.1 hsize)

theorem resultFromStop_of_single {t : Template} (h : b.templates = #[t]) :
    b.resultFromStop input origin stop = t.resultFromStop stop := by
  simp [resultFromStop, Parts.singleTemplate, h]

theorem resultFromStop_of_many (h : 1 < b.templates.size) :
    b.resultFromStop input origin stop = .lateTemplate (b.pending input origin) stop none none := by
  have hsome : 0 < b.templates.size := by omega
  have hsize : b.templates.size ≠ 1 := by omega
  simp [resultFromStop, Parts.singleTemplate, hsome, hsize]

theorem resultFromStop_of_empty (h : b.templates = #[]) :
    b.resultFromStop input origin stop =
      if b.capture.isNone then
        if stop = origin then .single stop stop
        else if b.forward.anchored || b.sticky then .single origin stop
        else .lateStart (b.pending input origin) stop none
      else if b.startsAtOrigin then
        .lateGroups (b.pending input origin) stop (some origin) none
      else .lateGroups (b.pending input origin) stop none none := by
  simp [resultFromStop, h]

theorem stop?_resultFromStop (hnone : b.templates = #[]) :
    (b.resultFromStop input origin stop).stop? = some stop := by
  rw [resultFromStop_of_empty hnone]
  split
  · split
    · rfl
    · split <;> rfl
  · split <;> rfl

theorem resultFromValue_of_empty (h : b.templates = #[]) (value : Int) :
    b.resultFromValue input origin value = .ok
      (if b.capture.isSome then
        .lateGroups (b.pending input origin) input.size (some (value + 1)) none
      else .single (value + 1) input.size) := by
  cases hc : b.capture <;> simp [resultFromValue, Parts.manyTemplates, h, hc]

theorem stop?_of_resultFromValue {value : Int} (hnone : b.templates = #[])
    (hr : b.resultFromValue input origin value = .ok r) : r.stop? = some input.size := by
  rw [resultFromValue_of_empty hnone] at hr
  cases hr
  split <;> rfl

/-- From the end of a match, either a template gives the rest, or it is left open which template
will, or there are no templates. -/
theorem resultFromStop_cases (b : Bundle) (input : Input) (origin stop : Int) :
    (∃ t ∈ b.templates, ∃ start, b.resultFromStop input origin stop = t.resultFromStart start) ∨
      (b.templates ≠ #[] ∧ b.resultFromStop input origin stop =
        .lateTemplate (b.pending input origin) stop none none) ∨
      b.templates = #[] := by
  unfold resultFromStop
  split
  · next t ht =>
    have hmem : t ∈ b.templates := Array.mem_of_getElem? ht
    split
    · exact .inl ⟨t, hmem, _, rfl⟩
    · exact .inr (.inl ⟨Array.ne_empty_of_mem hmem, rfl⟩)
  · next ht => exact .inr (.inr (templates_eq_empty ht))

/-- From the value of a backward run, either a template gives the match, or there are no
templates and the match starts one after the value. -/
theorem resultFromValue_cases {value : Int} (h : b.resultFromValue input origin value = .ok r) :
    (∃ t ∈ b.templates, ∃ start, r = t.resultFromStart start) ∨
      b.templates = #[] ∧ r =
        if b.capture.isSome then
          .lateGroups (b.pending input origin) input.size (some (value + 1)) none
        else .single (value + 1) input.size := by
  unfold resultFromValue at h
  split at h
  · cases hnumber : b.templateNumber value with
    | error fault =>
      rw [hnumber] at h
      cases h
    | ok number =>
      rw [hnumber] at h
      cases h
      exact .inl ⟨_, Array.getElem_mem _, _, rfl⟩
  · split at h
    · next t ht =>
      cases h
      exact .inl ⟨t, Array.mem_of_getElem? ht, _, rfl⟩
    · next ht =>
      refine .inr ⟨templates_eq_empty ht, ?_⟩
      split at h <;> cases h <;> simp [*]

/-- The results that a search on demand can make. -/
inductive Fresh (b : Bundle) (input : Input) (origin : Int) : Result → Prop
  | noMatch : Fresh b input origin .noMatch
  | single (start stop : Int) : Fresh b input origin (.single start stop)
  | lateStart (stop : Int) : Fresh b input origin (.lateStart (b.pending input origin) stop none)
  | template (t : Template) (start : Int) : Fresh b input origin (t.resultFromStart start)
  | lateGroups (stop : Int) (start? : Option Int) :
      Fresh b input origin (.lateGroups (b.pending input origin) stop start? none)
  | lateTemplate (stop : Int) :
      Fresh b input origin (.lateTemplate (b.pending input origin) stop none none)

theorem fresh_resultFromStop (b : Bundle) (input : Input) (origin stop : Int) :
    b.Fresh input origin (b.resultFromStop input origin stop) := by
  rcases b.resultFromStop_cases input origin stop with ⟨t, -, start, hr⟩ | ⟨-, hr⟩ | hnone
  · rw [hr]
    exact .template t start
  · rw [hr]
    exact .lateTemplate stop
  · rw [resultFromStop_of_empty hnone]
    split
    · split
      · exact .single stop stop
      · split
        · exact .single origin stop
        · exact .lateStart stop
    · split
      · exact .lateGroups stop _
      · exact .lateGroups stop _

theorem fresh_of_resultFromValue {value : Int}
    (h : b.resultFromValue input origin value = .ok r) : b.Fresh input origin r := by
  rcases resultFromValue_cases h with ⟨t, -, start, rfl⟩ | ⟨-, rfl⟩
  · exact .template t start
  · split
    · exact .lateGroups _ _
    · exact .single _ _

theorem fresh_of_find (h : (b.find input origin).answer = .ok r) : b.Fresh input origin r := by
  rcases find_cases h with rfl | ⟨stop, rfl⟩ | ⟨backward, value, -, hvalue⟩
  · exact .noMatch
  · exact b.fresh_resultFromStop input origin stop
  · exact fresh_of_resultFromValue hvalue

end Bundle

/-! ## Results that answer -/

namespace Result

/-- Every question that is in order is answered, and group 0 is the match. -/
structure Answers (r : Result) : Prop where
  start : ∃ position, r.start.answer = .ok position
  stop : ∃ position, r.stop.answer = .ok position
  group : ∀ index, index < r.groupCount →
    (∃ position, (r.startOfGroup index).answer = .ok position) ∧
      ∃ position, (r.stopOfGroup index).answer = .ok position
  startOfMatch : (r.startOfGroup 0).answer = r.start.answer
  stopOfMatch : (r.stopOfGroup 0).answer = r.stop.answer

theorem lt_groupCount_of_withGroup {r : Result} {index : UInt32} {access : Result → Turn Result Int}
    {position : Int} (h : (r.withGroup index access).answer = .ok position) :
    index < r.groupCount ∧ (access r).answer = .ok position := by
  unfold withGroup at h
  split at h
  · split at h
    · next hindex => exact ⟨hindex, h⟩
    · cases h
  · cases h

theorem lt_size_of_lookup {g : Array Int} {i : Nat} {position : Int}
    (h : lookup g i = .ok position) : i < g.size := by
  unfold lookup at h
  split at h
  · next entry hentry =>
    rcases Array.getElem?_eq_some_iff.1 hentry with ⟨hi, _⟩
    exact hi
  · cases h

/-- A result that answers, and reads what is asked from all its boundaries, has these boundaries. -/
theorem Answers.exists_boundaries {r : Result} (ha : r.Answers)
    (hread : ∀ number : UInt32, r.boundary number
      = r.boundaries.andThen fun g known => ⟨lookup g number.toNat, known, []⟩) :
    ∃ g, r.boundaries.answer = .ok g ∧ 2 ≤ g.size ∧ r.start.answer = .ok (matchStart g) ∧
      r.stop.answer = .ok (matchStop g) := by
  rcases ha.start with ⟨start, hstart⟩
  rcases ha.stop with ⟨stop, hstop⟩
  -- Start and end are read as boundaries 0 and 1 of group 0, so there are at least these two.
  have hfirst := (lt_groupCount_of_withGroup (ha.startOfMatch.trans hstart)).2
  have hsecond := (lt_groupCount_of_withGroup (ha.stopOfMatch.trans hstop)).2
  rw [hread] at hfirst hsecond
  rcases Turn.exists_of_andThen_eq_ok hfirst with ⟨g, hg, hlow⟩
  rcases Turn.exists_of_andThen_eq_ok hsecond with ⟨g', hg', hhigh⟩
  rw [hg] at hg'
  cases hg'
  have hsize : 2 ≤ g.size := lt_size_of_lookup hhigh
  refine ⟨g, hg, hsize, ?_, ?_⟩
  · calc
      r.start.answer = .ok start := hstart
      _ = lookup g 0 := hlow.symm
      _ = .ok (matchStart g) := lookup_eq_getD (by omega)
  · calc
      r.stop.answer = .ok stop := hstop
      _ = lookup g 1 := hhigh.symm
      _ = .ok (matchStop g) := lookup_eq_getD (by omega)

end Result

/-! ## Results that lead to a finding -/

namespace Bundle

variable {b : Bundle} {input : Input} {origin : Int} {r : Result}

/-- A scan for the groups that succeeds reports as many groups as matches are said to have. -/
def ReportsAllGroups (b : Bundle) : Prop :=
  ∀ capture ∈ b.capture, ∀ (input : Input) (origin start stop : Int) (g : Array Int),
    capture.scan input origin start stop = .ok (.groups g) → g.size = 2 * b.groupCount.toNat

theorem size_of_locateGroups {p : Pending} (hreports : p.bundle.ReportsAllGroups) {start stop : Int}
    {g : Array Int} (h : (p.locateGroups start stop).answer = .ok g) :
    g.size = 2 * p.bundle.groupCount.toNat := by
  rcases Pending.exists_scan_of_locateGroups h with ⟨capture, hcapture, hscan⟩
  exact hreports capture hcapture _ _ _ _ _ hscan

/-- Scans that report all groups find as many as matches are said to have. -/
theorem count_of_locateGroups {p : Pending} (hreports : p.bundle.ReportsAllGroups)
    {start stop : Int} {g : Array Int} (h : (p.locateGroups start stop).answer = .ok g) :
    UInt32.ofNat (g.size / 2) = p.bundle.groupCount := by
  rw [size_of_locateGroups hreports h, Nat.mul_div_cancel_left _ (by decide), UInt32.ofNat_toNat]

theorem count_of_templateBoundaries {stop : Int} {g : Array Int}
    (h : ((b.pending input origin).templateBoundaries stop).answer = .ok g) :
    UInt32.ofNat (g.size / 2) = b.groupCount := by
  rcases Pending.exists_template_of_templateBoundaries h with ⟨t, ht, rfl⟩
  rw [Template.boundaries_size]
  exact b.groupCount_of_mem_templates ht

/-- A match that answers every question leads to a finding. -/
theorem Fresh.exists_leadsTo (h : b.Fresh input origin r) (hfound : r.found = true)
    (ha : r.Answers) (hreports : b.ReportsAllGroups) : ∃ g, r.LeadsTo (some g) := by
  cases h with
  | noMatch => cases hfound
  | single start stop => exact ⟨_, .single start stop⟩
  | lateStart stop =>
    rcases ha.start with ⟨start, hstart⟩
    exact ⟨_, .lateStart (.pending ((Work.answer_onto _ _ _).symm.trans hstart))⟩
  | template t start => exact ⟨_, t.resultFromStart_leadsTo start⟩
  | lateGroups stop start? =>
    rcases ha.exists_boundaries fun _ => rfl with ⟨g, hg, hsize, hstart, hstop⟩
    cases hstop
    -- Finding the groups found the start first, and that is the start that the result gives.
    rcases Turn.exists_of_andThen_eq_ok hg with ⟨start, hstart', hgroups⟩
    rw [hstart] at hstart'
    cases hstart'
    rw [Work.answer_onto] at hgroups
    have hcount : UInt32.ofNat (g.size / 2) = b.groupCount :=
      count_of_locateGroups (p := b.pending input origin) hreports hgroups
    refine ⟨g, .lateGroups hsize hcount ?_ (.pending hgroups)⟩
    cases start? with
    | some start =>
      cases hstart
      exact .known
    | none => exact .pending ((Work.answer_onto _ _ _).symm.trans hstart)
  | lateTemplate stop =>
    rcases ha.exists_boundaries fun _ => rfl with ⟨g, hg, hsize, hstart, hstop⟩
    cases hstop
    have hlocated := (Work.answer_onto _ _ _).symm.trans hg
    exact ⟨g, .lateTemplate hsize (count_of_templateBoundaries hlocated) (.inl rfl)
      (.pending hlocated)⟩

end Bundle

end LazyMatch
