import LazyMatch.Proofs.Pending
import LazyMatch.Proofs.Result.Resolution
import LazyMatch.Result.Text

/-!
# How often a result scans

A result scans for its start, or for its template, until it has found it, and likewise for its
groups: what it still has to find and the scans that succeeded always add up to the same number
(`Result.served_access`). So each kind of scan succeeds once at most, in whatever order the result
is asked (`Result.served_le_one`). An automaton by which nothing is left to find is never run
(`Result.without_of_toFind_eq_zero`).
-/

namespace LazyMatch

namespace Result

variable {r r' : Result} {p : Pending}

/-! ## Scans that succeed -/

/-- Whether a backward run reports what the result needs: the number of a template if it looks for
one, and any position otherwise. -/
def accepts : Result → Outcome → Bool
  | lateTemplate p _ _ _, outcome =>
    outcome.found && (p.bundle.templateNumber outcome.value).isOk
  | _, outcome => outcome.found

/-- Whether an event is the run of an automaton in this role by which a deferred scan of the result
succeeds. -/
def servedBy (r : Result) (role : Role) : Event → Bool
  | .run ⟨.backward, _, _, _, .ok outcome⟩ => role = .backward && r.accepts outcome
  | .run ⟨.capture, _, _, _, .ok outcome⟩ => role = .capture && outcome.boundaries?.isSome
  | _ => false

/-- How many scans in a role may still succeed. -/
def toFind : Result → Role → Nat
  | lateStart _ _ none, .backward => 1
  | lateGroups _ _ none _, .backward => 1
  | lateGroups _ _ _ none, .capture => 1
  | lateTemplate _ _ _ none, .backward => 1
  | _, _ => 0

theorem toFind_le_one (r : Result) (role : Role) : r.toFind role ≤ 1 := by
  unfold toFind
  split <;> decide

/-- A scan for the start fails, or makes the one run by which it succeeds. -/
theorem served_locateStart (hr : ∀ outcome, r.accepts outcome = outcome.found) (role : Role)
    (stop : Int) :
    (p.locateStart stop).events.countP (r.servedBy role) =
      if (p.locateStart stop).answer.isOk ∧ role = .backward then 1 else 0 := by
  rw [p.locateStart_eq]
  cases hb : p.bundle.backward with
  | none =>
    rw [p.backwardValue_of_none hb]
    rfl
  | some backward =>
    rw [p.backwardValue_eq hb]
    cases backward.scan p.input 0 (stop - 1) p.floor with
    | error fault => simp [servedBy, Except.bind, Except.map, Except.isOk, Except.toBool]
    | ok outcome =>
      cases hfound : outcome.found <;>
        simp [servedBy, hr, hfound, Except.bind, Except.map, Except.isOk, Except.toBool]

/-- A scan for a template fails, or makes the one run by which it succeeds. -/
theorem served_templateBoundaries
    (hr : ∀ outcome, r.accepts outcome =
      (outcome.found && (p.bundle.templateNumber outcome.value).isOk))
    (role : Role) (stop : Int) :
    (p.templateBoundaries stop).events.countP (r.servedBy role) =
      if (p.templateBoundaries stop).answer.isOk ∧ role = .backward then 1 else 0 := by
  rw [p.templateBoundaries_eq]
  cases hb : p.bundle.backward with
  | none =>
    rw [p.backwardValue_of_none hb]
    rfl
  | some backward =>
    rw [p.backwardValue_eq hb]
    cases backward.scan p.input 0 (stop - 1) p.floor with
    | error fault => simp [servedBy, Except.bind, Except.isOk, Except.toBool]
    | ok outcome =>
      cases hfound : outcome.found with
      | false => simp [servedBy, hr, hfound, Except.bind, Except.isOk, Except.toBool]
      | true =>
        cases hnumber : p.bundle.templateNumber outcome.value <;>
          simp [servedBy, hr, hfound, hnumber, Except.bind, Except.map, Except.isOk, Except.toBool]

/-- A scan for the groups fails, or makes the one run by which it succeeds. -/
theorem served_locateGroups (r : Result) (role : Role) (start stop : Int) :
    (p.locateGroups start stop).events.countP (r.servedBy role) =
      if (p.locateGroups start stop).answer.isOk ∧ role = .capture then 1 else 0 := by
  cases hc : p.bundle.capture with
  | none =>
    rw [p.locateGroups_of_none hc]
    rfl
  | some capture =>
    rw [p.locateGroups_eq hc]
    have hnoted : p.noteAccess.events.countP (r.servedBy role) = 0 := by
      unfold Pending.noteAccess
      split <;> rfl
    rw [List.countP_append, hnoted]
    cases capture.scan p.input p.origin start stop with
    | error fault => simp [servedBy, Except.bind, Except.isOk, Except.toBool]
    | ok outcome =>
      cases outcome <;>
        simp [servedBy, Outcome.boundaries?, Except.bind, Except.isOk, Except.toBool]

/-! ## What is still to find -/

/-- Work that succeeds by one run in a role takes one scan in that role from those still to come. -/
theorem served_onto {α : Type} {work : Work α} {value : Result} {update : α → Result}
    {role scanned : Role}
    (hwork : work.events.countP (r.servedBy role) =
      if work.answer.isOk ∧ role = scanned then 1 else 0)
    (hupdate : ∀ a,
      (update a).toFind role + (if role = scanned then 1 else 0) = value.toFind role) :
    (work.onto value update).events.countP (r.servedBy role) +
      (work.onto value update).next.toFind role = value.toFind role := by
  rw [Work.events_onto, hwork]
  cases h : work.answer with
  | ok a =>
    have hafter := hupdate a
    rw [Work.next_onto_of_ok h]
    simp only [Except.isOk, Except.toBool, true_and]
    omega
  | error fault =>
    rw [Work.next_onto_of_error h]
    simp [Except.isOk, Except.toBool]

theorem served_start (r : Result) (role : Role) :
    r.start.events.countP (r.servedBy role) + r.start.next.toFind role = r.toFind role := by
  cases r with
  | noMatch => exact Nat.zero_add _
  | single start stop => exact Nat.zero_add _
  | lateStart p stop start? =>
    cases start? with
    | some start => exact Nat.zero_add _
    | none =>
      refine served_onto (served_locateStart (fun _ => rfl) role stop) ?_
      intro start
      cases role <;> rfl
  | groups g => exact Nat.zero_add _
  | lateGroups p stop start? groups? =>
    cases start? with
    | some start => exact Nat.zero_add _
    | none =>
      refine served_onto (served_locateStart (fun _ => rfl) role stop) ?_
      intro start
      cases role <;> cases groups? <;> rfl
  | lateTemplate p stop start? groups? =>
    cases start? with
    | some start => exact Nat.zero_add _
    | none =>
      cases groups? with
      | some g => exact (Nat.zero_add _).trans (by cases role <;> rfl)
      | none =>
        rw [Result.start, Turn.events_map, Turn.next_map]
        refine served_onto (served_templateBoundaries (fun _ => rfl) role stop) ?_
        intro g
        cases role <;> rfl

/-- Once the start is known, the scan for the groups takes what is left to find. -/
theorem served_groups (r : Result) (role : Role) (start stop : Int) :
    ((p.locateGroups start stop).onto (Result.lateGroups p stop (some start) none) fun g =>
        .lateGroups p stop (some start) (some g)).events.countP (r.servedBy role) +
      ((p.locateGroups start stop).onto (Result.lateGroups p stop (some start) none) fun g =>
        .lateGroups p stop (some start) (some g)).next.toFind role =
      (Result.lateGroups p stop (some start) none).toFind role := by
  refine served_onto (served_locateGroups r role start stop) ?_
  intro g
  cases role <;> rfl

theorem served_boundaries (r : Result) (role : Role) :
    r.boundaries.events.countP (r.servedBy role) + r.boundaries.next.toFind role =
      r.toFind role := by
  cases r with
  | noMatch => exact Nat.zero_add _
  | single start stop => exact Nat.zero_add _
  | lateStart p stop start? => exact served_start (.lateStart p stop start?) role
  | groups g => exact Nat.zero_add _
  | lateGroups p stop start? groups? =>
    cases groups? with
    | some g => exact Nat.zero_add _
    | none =>
      have hstarted := served_start (.lateGroups p stop start? none) role
      rw [Result.boundaries]
      cases h : (Result.lateGroups p stop start? none).start.answer with
      | error fault =>
        rw [Turn.andThen_of_error h]
        exact hstarted
      | ok start =>
        -- The scan for the start takes its share, and the scan for the groups what is left.
        have hgroups := served_groups (p := p) (.lateGroups p stop start? none) role start stop
        rw [next_start_of_lateGroups h] at hstarted
        rw [Turn.andThen_of_ok h, next_start_of_lateGroups h, List.countP_append]
        dsimp only
        omega
  | lateTemplate p stop start? groups? =>
    cases groups? with
    | some g => exact Nat.zero_add _
    | none =>
      rw [Result.boundaries]
      refine served_onto (served_templateBoundaries (fun _ => rfl) role stop) ?_
      intro g
      cases role <;> rfl

/-- Whatever is asked, scans that succeed and scans still to come add up to the same number. -/
theorem served_access (r : Result) (a : Accessor) (role : Role) :
    (r.access a).events.countP (r.servedBy role) + (r.access a).next.toFind role =
      r.toFind role :=
  access_induction
    (P := fun next events => events.countP (r.servedBy role) + next.toFind role = r.toFind role) r a
    (Nat.zero_add _) (r.served_start role) (r.served_boundaries role)

theorem Finds.accepts_eq (h : Finds r r') : r'.accepts = r.accepts := by
  cases h <;> rfl

theorem servedBy_access (r : Result) (a : Accessor) (role : Role) :
    (r.access a).next.servedBy role = r.servedBy role := by
  have haccepts : (r.access a).next.accepts = r.accepts :=
    finds_preserves (P := fun later => later.accepts = r.accepts)
      (fun hstep h => hstep.accepts_eq.trans h) rfl (r.access_finds a)
  funext event
  unfold servedBy
  rw [haccepts]

/-! ## Questions in any order -/

/-- What the questions cause, one after the other. -/
def eventsOf (r : Result) : List Accessor → List Event
  | [] => []
  | a :: questions => (r.access a).events ++ (r.access a).next.eventsOf questions

theorem served_eventsOf (r : Result) (questions : List Accessor) (role : Role) :
    (r.eventsOf questions).countP (r.servedBy role) + (r.after questions).toFind role =
      r.toFind role := by
  induction questions generalizing r with
  | nil => exact Nat.zero_add _
  | cons a questions ih =>
    have hfirst := r.served_access a role
    have hrest := ih (r.access a).next
    rw [servedBy_access] at hrest
    rw [eventsOf, List.countP_append, after_cons]
    omega

/-- In whatever order a result is asked, each kind of scan succeeds once at most. -/
theorem served_le_one (r : Result) (questions : List Accessor) (role : Role) :
    (r.eventsOf questions).countP (r.servedBy role) ≤ 1 := by
  have htotal := r.served_eventsOf questions role
  have hone := r.toFind_le_one role
  omega

end Result

/-! ## The runs that questions cause -/

namespace Pending

variable {p : Pending} {made : Run}

theorem eq_of_run_mem_backwardValue {stop : Int}
    (h : Event.run made ∈ (p.backwardValue stop).events) :
    ∃ backward, p.bundle.backward = some backward ∧
      made = ⟨.backward, 0, stop - 1, p.floor, backward.scan p.input 0 (stop - 1) p.floor⟩ := by
  cases hb : p.bundle.backward with
  | none =>
    rw [p.backwardValue_of_none hb] at h
    cases h
  | some backward =>
    rw [p.backwardValue_eq hb] at h
    cases List.mem_singleton.1 h
    exact ⟨backward, rfl, rfl⟩

theorem eq_of_run_mem_locateGroups {start stop : Int}
    (h : Event.run made ∈ (p.locateGroups start stop).events) :
    ∃ capture, p.bundle.capture = some capture ∧
      made = ⟨.capture, p.origin, start, stop, capture.scan p.input p.origin start stop⟩ := by
  cases hc : p.bundle.capture with
  | none =>
    rw [p.locateGroups_of_none hc] at h
    cases h
  | some capture =>
    rw [p.locateGroups_eq hc] at h
    rcases List.mem_append.1 h with hnoted | hrun
    · unfold noteAccess at hnoted
      split at hnoted
      · cases List.mem_singleton.1 hnoted
      · cases hnoted
    · cases List.mem_singleton.1 hrun
      exact ⟨capture, rfl, rfl⟩

end Pending

namespace Result

variable {r r' : Result} {role : Role} {made : Run}

/-- The runs that a result makes in the state in which it is: back from the end of the match as long
as something is to be found by that, and between start and end to find the groups. -/
inductive Scans (r : Result) : Run → Prop
  | backward {p : Pending} {stop : Int} {backward : Automaton} (hpending : r.pending? = some p)
      (hstop : r.stop? = some stop) (hleft : r.toFind .backward ≠ 0)
      (hb : p.bundle.backward = some backward) :
      Scans r ⟨.backward, 0, stop - 1, p.floor, backward.scan p.input 0 (stop - 1) p.floor⟩
  | groups {p : Pending} {start stop : Int} {capture : Automaton} (hpending : r.pending? = some p)
      (hstart : r.start? = some start) (hstop : r.stop? = some stop)
      (hleft : r.toFind .capture ≠ 0) (hc : p.bundle.capture = some capture) :
      Scans r ⟨.capture, p.origin, start, stop, capture.scan p.input p.origin start stop⟩

theorem scans_of_run_mem_start (h : Event.run made ∈ r.start.events) : r.Scans made := by
  cases r with
  | noMatch => cases h
  | single start stop => cases h
  | lateStart p stop start? =>
    cases start? with
    | some start => cases h
    | none =>
      rw [Result.start, Work.events_onto, p.locateStart_eq] at h
      rcases Pending.eq_of_run_mem_backwardValue h with ⟨backward, hb, rfl⟩
      exact .backward rfl rfl Nat.one_ne_zero hb
  | groups g => cases h
  | lateGroups p stop start? groups? =>
    cases start? with
    | some start => cases h
    | none =>
      rw [Result.start, Work.events_onto, p.locateStart_eq] at h
      rcases Pending.eq_of_run_mem_backwardValue h with ⟨backward, hb, rfl⟩
      exact .backward rfl rfl (by cases groups? <;> exact Nat.one_ne_zero) hb
  | lateTemplate p stop start? groups? =>
    cases start? with
    | some start => cases h
    | none =>
      cases groups? with
      | some g => cases h
      | none =>
        rw [Result.start, Turn.events_map, Work.events_onto, p.templateBoundaries_eq] at h
        rcases Pending.eq_of_run_mem_backwardValue h with ⟨backward, hb, rfl⟩
        exact .backward rfl rfl Nat.one_ne_zero hb

/-- Finding all boundaries may find the start first, so the runs are those of the result as it is or
as it is then. -/
theorem exists_scans_of_run_mem_boundaries (h : Event.run made ∈ r.boundaries.events) :
    ∃ later, Relation.ReflTransGen Finds r later ∧ later.Scans made := by
  cases r with
  | noMatch => cases h
  | single start stop => cases h
  | lateStart p stop start? => exact ⟨_, .refl, scans_of_run_mem_start h⟩
  | groups g => cases h
  | lateGroups p stop start? groups? =>
    cases groups? with
    | some g => cases h
    | none =>
      rw [Result.boundaries] at h
      cases hstart : (Result.lateGroups p stop start? none).start.answer with
      | error fault =>
        rw [Turn.andThen_of_error hstart] at h
        exact ⟨_, .refl, scans_of_run_mem_start h⟩
      | ok start =>
        have hstarted := start_finds (.lateGroups p stop start? none)
        rw [next_start_of_lateGroups hstart] at hstarted
        rw [Turn.andThen_of_ok hstart, Work.events_onto] at h
        rcases List.mem_append.1 h with hfirst | hsecond
        · exact ⟨_, .refl, scans_of_run_mem_start hfirst⟩
        · rcases Pending.eq_of_run_mem_locateGroups hsecond with ⟨capture, hc, rfl⟩
          exact ⟨_, hstarted, .groups rfl rfl rfl Nat.one_ne_zero hc⟩
  | lateTemplate p stop start? groups? =>
    cases groups? with
    | some g => cases h
    | none =>
      rw [Result.boundaries, Work.events_onto, p.templateBoundaries_eq] at h
      rcases Pending.eq_of_run_mem_backwardValue h with ⟨backward, hb, rfl⟩
      exact ⟨_, .refl, .backward rfl rfl (by cases start? <;> exact Nat.one_ne_zero) hb⟩

/-- Every run that questions cause is one that the result makes in some state on the way. -/
theorem exists_scans_of_run_mem_eventsOf {questions : List Accessor}
    (h : Event.run made ∈ r.eventsOf questions) :
    ∃ later, Relation.ReflTransGen Finds r later ∧ later.Scans made := by
  induction questions generalizing r with
  | nil => cases h
  | cons a questions ih =>
    rcases List.mem_append.1 h with hfirst | hrest
    · have haccess : Event.run made ∈ (r.access a).events →
          ∃ later, Relation.ReflTransGen Finds r later ∧ later.Scans made :=
        access_induction
          (P := fun _ events => Event.run made ∈ events →
            ∃ later, Relation.ReflTransGen Finds r later ∧ later.Scans made) r a nofun
          (fun h => ⟨r, .refl, scans_of_run_mem_start h⟩) exists_scans_of_run_mem_boundaries
      exact haccess hfirst
    · rcases ih hrest with ⟨later, hlearnt, hscans⟩
      exact ⟨later, (r.access_finds a).trans hlearnt, hscans⟩

/-- What holds of a result, and stays true with every piece that it learns, holds of it whenever
it makes a run. -/
theorem exists_scans_of_preserves {P : Result → Prop}
    (hfinds : ∀ {r r' : Result}, Finds r r' → P r → P r') (hr : P r) {questions : List Accessor}
    (h : Event.run made ∈ r.eventsOf questions) : ∃ later, P later ∧ later.Scans made := by
  rcases exists_scans_of_run_mem_eventsOf h with ⟨later, hlearnt, hscans⟩
  exact ⟨later, finds_preserves hfinds hr hlearnt, hscans⟩

end Result

/-! ## Scans that are not made -/

/-- No automaton is run in this role. -/
def Without (role : Role) (events : List Event) : Prop :=
  ∀ made, Event.run made ∈ events → made.role ≠ role

theorem Quiet.without {events : List Event} (h : Quiet events) : Without .capture events := by
  intro made hmade
  rcases h _ hmade with ⟨run, hrun, hrole⟩
  cases hrun
  exact hrole

namespace Result

variable {r r' : Result} {role : Role} {made : Run}

/-- A result makes runs only in roles by which it has something left to find. -/
theorem Scans.toFind_ne_zero (h : r.Scans made) : r.toFind made.role ≠ 0 := by
  cases h with
  | backward _ _ hleft => exact hleft
  | groups _ _ _ hleft => exact hleft

theorem Finds.toFind_le (h : Finds r r') (role : Role) : r'.toFind role ≤ r.toFind role := by
  cases h with
  | start => exact Nat.zero_le _
  | @startOfGroups p stop start groups? => cases role <;> cases groups? <;> simp [toFind]
  | groups => exact Nat.zero_le _
  | template => exact Nat.zero_le _
  | startOfTemplate => exact Nat.zero_le _

/-- What a result has nothing left to find by is not run, whatever the result is asked. -/
theorem without_of_toFind_eq_zero (h : r.toFind role = 0) (questions : List Accessor) :
    Without role (r.eventsOf questions) := by
  rintro made hmade rfl
  rcases exists_scans_of_preserves (P := fun r => r.toFind made.role = 0)
    (fun hstep hnone => Nat.le_zero.1 (hnone ▸ hstep.toFind_le made.role)) h hmade
    with ⟨later, hnone, hscans⟩
  exact hscans.toFind_ne_zero hnone

/-- A template gives its start only after it has been found. -/
def Tidy : Result → Prop
  | lateTemplate _ _ (some _) none => False
  | _ => True

theorem Finds.tidy (h : Finds r r') (htidy : r.Tidy) : r'.Tidy := by
  cases h with
  | start => trivial
  | startOfGroups => trivial
  | groups => trivial
  | @template p stop start? g => cases start? <;> trivial
  | startOfTemplate => trivial

/-- A result that knows its start has nothing left to find by the backward automaton. -/
theorem toFind_of_start? (htidy : r.Tidy) (h : r.start?.isSome = true) :
    r.toFind .backward = 0 := by
  cases r with
  | noMatch => rfl
  | single start stop => rfl
  | lateStart p stop start? => cases start? with | some start => rfl | none => cases h
  | groups g => rfl
  | lateGroups p stop start? groups? =>
    cases start? with
    | some start => cases groups? <;> rfl
    | none => cases h
  | lateTemplate p stop start? groups? =>
    cases groups? with
    | some g => cases start? <;> rfl
    | none => cases start? with | some start => exact htidy.elim | none => cases h

end Result

end LazyMatch
