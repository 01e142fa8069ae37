import LazyMatch.Proofs.Pending
import LazyMatch.Proofs.Result.Finding

/-!
# What asking a result costs

An access to a result runs the backward automaton, the automaton for the groups, or both, and the
latter at most once. Where the result counts towards the usage of its pattern, an access notes that
groups are asked for exactly if it runs the automaton for the groups. No access calls a compiler,
and none changes what the result has pending (`Result.access_keeps`).
-/

namespace LazyMatch

namespace Event

def isGroupScan : Event → Bool
  | run made => made.role = .capture
  | groupAccess => false
  | compile => false
  | compileEager => false

def isEagerCompilation : Event → Bool
  | run _ => false
  | groupAccess => false
  | compile => false
  | compileEager => true

def isCompilation : Event → Bool
  | run _ => false
  | groupAccess => false
  | compile => true
  | compileEager => false

end Event

/-- Only runs, and none of the automaton for the groups. -/
def Quiet (events : List Event) : Prop :=
  ∀ e ∈ events, ∃ run, e = .run run ∧ run.role ≠ .capture

namespace Quiet

variable {events : List Event}

theorem nil : Quiet [] := by
  intro e he
  cases he

theorem singleton {run : Run} (h : run.role ≠ .capture) : Quiet [.run run] := by
  intro e he
  exact ⟨run, List.mem_singleton.1 he, h⟩

/-- What no such run is does not occur. -/
theorem countP_eq_zero {kind : Event → Bool} (h : Quiet events)
    (hkind : ∀ run : Run, run.role ≠ .capture → kind (.run run) = false) :
    events.countP kind = 0 := by
  refine List.countP_eq_zero.2 ?_
  intro e he
  rcases h e he with ⟨run, rfl, hrole⟩
  simp [hkind run hrole]

theorem countP_isGroupAccess (h : Quiet events) : events.countP Event.isGroupAccess = 0 :=
  h.countP_eq_zero fun _ _ => rfl

theorem countP_isGroupScan (h : Quiet events) : events.countP Event.isGroupScan = 0 :=
  h.countP_eq_zero fun _ hrole => by simpa [Event.isGroupScan] using hrole

theorem countP_isEagerCompilation (h : Quiet events) :
    events.countP Event.isEagerCompilation = 0 :=
  h.countP_eq_zero fun _ _ => rfl

end Quiet

/-- At most one scan for the groups, noted as often as it is made where that counts, and no compiler
called. -/
structure Balanced (counted : Prop) (events : List Event) : Prop where
  noted : counted → events.countP Event.isGroupAccess = events.countP Event.isGroupScan
  once : events.countP Event.isGroupScan ≤ 1
  uncompiled : events.countP Event.isEagerCompilation = 0

namespace Balanced

variable {counted : Prop} {events rest : List Event}

theorem of_quiet (h : Quiet events) : Balanced counted events where
  noted _ := h.countP_isGroupAccess.trans h.countP_isGroupScan.symm
  once := by
    rw [h.countP_isGroupScan]
    exact Nat.zero_le 1
  uncompiled := h.countP_isEagerCompilation

theorem quiet_append (h : Quiet events) (hrest : Balanced counted rest) :
    Balanced counted (events ++ rest) where
  noted := by
    intro hcounted
    rw [List.countP_append, List.countP_append, h.countP_isGroupAccess, h.countP_isGroupScan,
      hrest.noted hcounted]
  once := by
    rw [List.countP_append, h.countP_isGroupScan, Nat.zero_add]
    exact hrest.once
  uncompiled := by
    rw [List.countP_append, h.countP_isEagerCompilation, hrest.uncompiled]

end Balanced

/-! ## Pending scans -/

namespace Pending

variable (p : Pending)

theorem quiet_backwardValue (stop : Int) : Quiet (p.backwardValue stop).events := by
  cases hb : p.bundle.backward with
  | none =>
    rw [p.backwardValue_of_none hb]
    exact .nil
  | some backward =>
    rw [p.backwardValue_eq hb]
    exact .singleton (by simp)

theorem quiet_locateStart (stop : Int) : Quiet (p.locateStart stop).events := by
  rw [p.locateStart_eq]
  exact p.quiet_backwardValue stop

theorem quiet_templateBoundaries (stop : Int) : Quiet (p.templateBoundaries stop).events := by
  rw [p.templateBoundaries_eq]
  exact p.quiet_backwardValue stop

/-- The groups are noted and then scanned for, unless there is no automaton for them. -/
theorem balanced_locateGroups (start stop : Int) :
    Balanced (p.counted = true) (p.locateGroups start stop).events := by
  cases hc : p.bundle.capture with
  | none =>
    rw [p.locateGroups_of_none hc]
    exact .of_quiet .nil
  | some capture =>
    rw [p.locateGroups_eq hc, noteAccess]
    by_cases hp : p.counted = true
    · rw [if_pos hp]
      exact ⟨fun _ => rfl, Nat.le_refl 1, rfl⟩
    · rw [if_neg hp]
      exact ⟨fun hcounted => absurd hcounted hp, Nat.le_refl 1, rfl⟩

end Pending

/-! ## Accesses -/

namespace Result

/-- What a result keeps in order to find the rest later. -/
def pending? : Result → Option Pending
  | noMatch => none
  | single .. => none
  | lateStart p _ _ => some p
  | groups _ => none
  | lateGroups p _ _ _ => some p
  | lateTemplate p _ _ _ => some p

/-- Whether asking for the groups of the result counts towards the usage of the pattern. -/
def Counted (r : Result) : Prop := ∀ p ∈ r.pending?, p.counted = true

/-- Work done on behalf of a result keeps what is pending if every way to go on does. -/
theorem pending?_onto {α : Type} {work : Work α} {value : Result} {update : α → Result}
    {p? : Option Pending} (hvalue : value.pending? = p?) (hupdate : ∀ a, (update a).pending? = p?) :
    (work.onto value update).next.pending? = p? := by
  cases h : work.answer with
  | ok a =>
    rw [Work.next_onto_of_ok h]
    exact hupdate a
  | error fault =>
    rw [Work.next_onto_of_error h]
    exact hvalue

theorem start_keeps (r : Result) :
    Quiet r.start.events ∧ r.start.next.pending? = r.pending? := by
  cases r with
  | noMatch => exact ⟨.nil, rfl⟩
  | single start stop => exact ⟨.nil, rfl⟩
  | lateStart p stop start? =>
    cases start? with
    | some start => exact ⟨.nil, rfl⟩
    | none =>
      refine ⟨?_, pending?_onto rfl fun _ => rfl⟩
      rw [Result.start, Work.events_onto]
      exact p.quiet_locateStart stop
  | groups g => exact ⟨.nil, rfl⟩
  | lateGroups p stop start? groups? =>
    cases start? with
    | some start => exact ⟨.nil, rfl⟩
    | none =>
      refine ⟨?_, pending?_onto rfl fun _ => rfl⟩
      rw [Result.start, Work.events_onto]
      exact p.quiet_locateStart stop
  | lateTemplate p stop start? groups? =>
    cases start? with
    | some start => exact ⟨.nil, rfl⟩
    | none =>
      cases groups? with
      | some g => exact ⟨.nil, rfl⟩
      | none =>
        rw [Result.start, Turn.events_map, Turn.next_map, Work.events_onto]
        exact ⟨p.quiet_templateBoundaries stop, pending?_onto rfl fun _ => rfl⟩

/-- Asking for all boundaries scans for the groups at most once, and keeps what is pending. -/
theorem boundaries_keeps (r : Result) :
    Balanced r.Counted r.boundaries.events ∧ r.boundaries.next.pending? = r.pending? := by
  cases r with
  | noMatch => exact ⟨.of_quiet .nil, rfl⟩
  | single start stop => exact ⟨.of_quiet .nil, rfl⟩
  | lateStart p stop start? =>
    rcases start_keeps (.lateStart p stop start?) with ⟨hquiet, hkept⟩
    exact ⟨.of_quiet hquiet, hkept⟩
  | groups g => exact ⟨.of_quiet .nil, rfl⟩
  | lateGroups p stop start? groups? =>
    cases groups? with
    | some g => exact ⟨.of_quiet .nil, rfl⟩
    | none =>
      rcases start_keeps (.lateGroups p stop start? none) with ⟨hquiet, hkept⟩
      rw [Result.boundaries]
      cases hstart : (Result.lateGroups p stop start? none).start.answer with
      | ok start =>
        rw [Turn.andThen_of_ok hstart, Work.events_onto]
        -- The scan for the start is quiet, so only the scan for the groups counts.
        have hgroups := p.balanced_locateGroups start stop
        refine ⟨.quiet_append hquiet ⟨?_, hgroups.once, hgroups.uncompiled⟩,
          pending?_onto hkept fun _ => rfl⟩
        intro hcounted
        exact hgroups.noted (hcounted p rfl)
      | error fault =>
        rw [Turn.andThen_of_error hstart]
        exact ⟨.of_quiet hquiet, hkept⟩
  | lateTemplate p stop start? groups? =>
    cases groups? with
    | some g => exact ⟨.of_quiet .nil, rfl⟩
    | none =>
      rw [Result.boundaries, Work.events_onto]
      exact ⟨.of_quiet (p.quiet_templateBoundaries stop), pending?_onto rfl fun _ => rfl⟩

theorem andThen_lookup_keeps (turn : Turn Result (Array Int)) (i : Nat) :
    let read : Turn Result Int := turn.andThen fun g known => ⟨lookup g i, known, []⟩
    read.events = turn.events ∧ read.next = turn.next := by
  cases h : turn.answer with
  | ok g =>
    rw [Turn.andThen_of_ok h]
    exact ⟨List.append_nil _, rfl⟩
  | error fault =>
    rw [Turn.andThen_of_error h]
    exact ⟨rfl, rfl⟩

theorem boundary_keeps (r : Result) (number : UInt32) :
    Balanced r.Counted (r.boundary number).events ∧
      (r.boundary number).next.pending? = r.pending? := by
  have hall := boundaries_keeps r
  rcases andThen_lookup_keeps r.boundaries number.toNat with ⟨hevents, hnext⟩
  rw [← hevents, ← hnext] at hall
  cases r with
  | single start stop => exact ⟨.of_quiet .nil, rfl⟩
  | lateStart p stop start? =>
    -- The end of such a match is read without finding its start.
    by_cases hzero : number = 0
    · rcases start_keeps (.lateStart p stop start?) with ⟨hquiet, hkept⟩
      simp only [Result.boundary, if_pos hzero]
      exact ⟨.of_quiet hquiet, hkept⟩
    · simp only [Result.boundary, if_neg hzero]
      exact ⟨.of_quiet .nil, rfl⟩
  | noMatch => exact hall
  | groups g => exact hall
  | lateGroups p stop start? groups? => exact hall
  | lateTemplate p stop start? groups? => exact hall

theorem withGroup_keeps (r : Result) (index number : UInt32) :
    let turn := r.withGroup index fun r => r.boundary number
    Balanced r.Counted turn.events ∧ turn.next.pending? = r.pending? := by
  intro turn
  simp only [turn, withGroup]
  split
  · split
    · exact boundary_keeps r number
    · exact ⟨.of_quiet .nil, rfl⟩
  · exact ⟨.of_quiet .nil, rfl⟩

/-- An access scans for the groups at most once, notes that they are asked for exactly if it does
and that counts, calls no compiler, and keeps what is pending. -/
theorem access_keeps (r : Result) (a : Accessor) :
    Balanced r.Counted (r.access a).events ∧ (r.access a).next.pending? = r.pending? := by
  cases a with
  | start =>
    rcases start_keeps r with ⟨hquiet, hkept⟩
    exact ⟨.of_quiet hquiet, hkept⟩
  | stop =>
    rw [access, next_stop, Result.stop]
    refine ⟨?_, rfl⟩
    split <;> exact .of_quiet .nil
  | groupCount => exact ⟨.of_quiet .nil, rfl⟩
  | startOfGroup index => exact withGroup_keeps r index _
  | stopOfGroup index => exact withGroup_keeps r index _

theorem Counted.access {r : Result} (h : r.Counted) (a : Accessor) :
    (r.access a).next.Counted := by
  intro p hp
  rw [(access_keeps r a).2] at hp
  exact h p hp

end Result

end LazyMatch
