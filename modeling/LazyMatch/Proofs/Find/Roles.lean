import LazyMatch.Proofs.Find.Provision
import LazyMatch.Proofs.Scan.Dfa
import LazyMatch.Proofs.Scan.TaggedDfa

/-!
# Which outcomes are read in which role

What the forward and the backward automaton find is read as an offset, whichever kind of outcome it
is. A bundle is refused if its backward automaton follows groups, so backward runs are never
misread, and neither are the runs for the groups, of which only groups are read. Nothing refuses a
forward automaton that follows groups. Its runs are misread, by every search that makes one and
finds something, and by no other (`Bundle.misread_iff`): the match then ends at 0.
-/

namespace LazyMatch

/-- The run was to report an offset, and what it found is none. -/
def Run.Misread (made : Run) : Prop :=
  (made.role = .forward ∨ made.role = .backward) ∧
    ∃ outcome, made.answer = .ok outcome ∧ outcome.found = true ∧ ∀ value, outcome ≠ .offset value

/-- Plain automata report offsets, so their runs are not misread. -/
theorem Automaton.Plain.not_misread {a : Automaton} {dir : Direction} {reporting : Bool}
    (h : a.Plain dir reporting) {input : Input} {role : Role} {origin origin' start limit : Int} :
    ¬ (Run.mk role origin start limit (a.scan input origin' start limit)).Misread := by
  rintro ⟨-, outcome, hscan, hfound, hoffset⟩
  rcases h.noMatch_or_offset hscan with rfl | ⟨value, rfl⟩
  · cases hfound
  · exact hoffset value rfl

namespace Bundle

/-- The automata of which offsets are asked are laid out from tables. The backward automaton is plain;
the forward automaton is plain and reports positions, or follows groups. -/
structure InRoles (b : Bundle) : Prop where
  forward : b.forward.Plain .forward false ∨ b.forward.Tagged
  backward : ∀ backward ∈ b.backward, ∃ reporting, backward.Plain .backward reporting

/-- Boundaries that one of the templates describes, or that the automaton for the groups has
reported as groups. -/
def Vouches (b : Bundle) (input : Input) (origin : Int) (g : Array Int) : Prop :=
  (∃ t ∈ b.templates, ∃ start, g = t.boundaries start) ∨
    ∃ capture ∈ b.capture, ∃ start stop, capture.scan input origin start stop = .ok (.groups g)

variable {b : Bundle} {input : Input} {origin stop : Int} {r r' : Result}

/-! ## The run of a search -/

/-- A search misreads its run exactly if it searches forward, by an automaton that follows groups,
and finds something. -/
theorem misread_find_iff (hb : b.InRoles) :
    (∃ made, Event.run made ∈ (b.find input origin).events ∧ made.Misread) ↔
      (∀ backward ∈ b.backward, backward.anchored = false) ∧ b.forward.groupCount ≠ 0 ∧
        ∃ outcome, b.forward.scan input origin origin input.size = .ok outcome ∧
          outcome.found = true := by
  rcases b.find_route input origin with ⟨backward, hsome, hroute, hfind⟩ | ⟨hroute, hfind⟩
  · rw [hfind, findBackward_eq]
    rcases hb.backward backward hsome with ⟨reporting, hplain⟩
    constructor
    · rintro ⟨made, hmade, hmisread⟩
      cases List.mem_singleton.1 hmade
      exact absurd hmisread hplain.not_misread
    · rintro ⟨hforward, -⟩
      cases hroute.symm.trans (hforward backward hsome)
  · rw [hfind, findForward_eq]
    rcases hb.forward with hplain | htagged
    · constructor
      · rintro ⟨made, hmade, hmisread⟩
        cases List.mem_singleton.1 hmade
        exact absurd hmisread hplain.not_misread
      · rintro ⟨-, hgroups, -⟩
        exact absurd hplain.groupCount_eq hgroups
    · constructor
      · rintro ⟨made, hmade, -, outcome, hscan, hfound, -⟩
        cases List.mem_singleton.1 hmade
        exact ⟨hroute, htagged.groupCount_ne_zero, outcome, hscan, hfound⟩
      · rintro ⟨-, -, outcome, hscan, hfound⟩
        refine ⟨_, List.mem_singleton.2 rfl, .inl rfl, outcome, hscan, hfound, ?_⟩
        rintro value rfl
        rcases htagged.noMatch_or_groups hscan with hnone | ⟨boundaries, hgroups⟩
        · cases hnone
        · cases hgroups

/-! ## The runs of its result -/

/-- Questions never misread a run. -/
theorem not_misread_of_mem_eventsOf (hb : b.InRoles)
    (hpending : ∀ p ∈ r.pending?, p = b.pending input origin) {questions : List Accessor}
    {made : Run} (hmade : Event.run made ∈ r.eventsOf questions) : ¬ made.Misread := by
  rcases Result.exists_scans_of_preserves
    (P := fun r => ∀ p ∈ r.pending?, p = b.pending input origin)
    (fun hstep h => hstep.pending?_eq ▸ h) hpending hmade with ⟨later, hpending, hscans⟩
  cases hscans with
  | backward hp _ _ hsome =>
    cases hpending _ hp
    rcases hb.backward _ hsome with ⟨reporting, hplain⟩
    exact hplain.not_misread
  | groups => rintro ⟨hrole | hrole, -⟩ <;> cases hrole

/-! ## The groups of its result -/

theorem eq_boundaries_of_groups?_resultFromStart {t : Template} {start : Int} {g : Array Int}
    (h : g ∈ (t.resultFromStart start).groups?) : g = t.boundaries start := by
  unfold Template.resultFromStart at h
  split at h
  · cases h
  · exact (Option.some.inj h).symm

theorem vouches_of_find (hr : (b.find input origin).answer = .ok r) :
    ∀ g ∈ r.groups?, b.Vouches input origin g := by
  intro g hg
  rcases find_cases hr with rfl | ⟨stop, rfl⟩ | ⟨backward, value, -, hvalue⟩
  · cases hg
  · rcases b.resultFromStop_cases input origin stop with ⟨t, ht, start, hr⟩ | ⟨-, hr⟩ | hnone
    · rw [hr] at hg
      exact .inl ⟨t, ht, start, eq_boundaries_of_groups?_resultFromStart hg⟩
    · rw [hr] at hg
      cases hg
    · rw [resultFromStop_of_empty hnone] at hg
      repeat' split at hg
      all_goals cases hg
  · rcases resultFromValue_cases hvalue with ⟨t, ht, start, rfl⟩ | ⟨-, rfl⟩
    · exact .inl ⟨t, ht, start, eq_boundaries_of_groups?_resultFromStart hg⟩
    · split at hg <;> cases hg

/-- Whatever a result learns of the groups has been reported as groups, or is that of a template. -/
theorem vouches_of_finds (hstep : Result.Finds r r')
    (hpending : ∀ p ∈ r.pending?, p = b.pending input origin)
    (hvouches : ∀ g ∈ r.groups?, b.Vouches input origin g) :
    ∀ g ∈ r'.groups?, b.Vouches input origin g := by
  intro g hg
  cases hstep with
  | start => cases hg
  | startOfGroups => exact hvouches g hg
  | groups hgroups =>
    cases hg
    cases hpending _ rfl
    rcases Pending.exists_scan_of_locateGroups hgroups with ⟨capture, hcapture, hscan⟩
    exact .inr ⟨capture, hcapture, _, _, hscan⟩
  | template htemplate =>
    cases hg
    cases hpending _ rfl
    rcases Pending.exists_template_of_templateBoundaries htemplate with ⟨t, ht, hboundaries⟩
    exact .inl ⟨t, ht, _, hboundaries⟩
  | startOfTemplate => exact hvouches g hg

theorem vouches_after (hpending : ∀ p ∈ r.pending?, p = b.pending input origin)
    (hvouches : ∀ g ∈ r.groups?, b.Vouches input origin g) (questions : List Accessor) :
    ∀ g ∈ (r.after questions).groups?, b.Vouches input origin g :=
  (Result.after_preserves
    (P := fun r => (∀ p ∈ r.pending?, p = b.pending input origin) ∧
      ∀ g ∈ r.groups?, b.Vouches input origin g)
    (fun hstep h => ⟨hstep.pending?_eq ▸ h.1, vouches_of_finds hstep h.1 h.2⟩)
    ⟨hpending, hvouches⟩ questions).2

/-! ## The end of a match -/

/-- Of automata in their roles, let the forward one be plain or follow groups. A search misreads its
run exactly if it searches forward by an automaton that follows groups, and that run finds
something; no question to a result ever misreads a run, and what is known of the groups was reported
as groups or is that of a template. Where a search forward without templates finds something, the
match ends, whatever was asked before, at 0 if the forward automaton follows groups, and after the
last state that accepts if it is plain. -/
theorem misread_iff (hb : b.InRoles) (hin : Inside input origin) :
    ((∃ made, Event.run made ∈ (b.find input origin).events ∧ made.Misread) ↔
        (∀ backward ∈ b.backward, backward.anchored = false) ∧ b.forward.groupCount ≠ 0 ∧
          ∃ outcome, b.forward.scan input origin origin input.size = .ok outcome ∧
            outcome.found = true) ∧
      (∀ r, (b.find input origin).answer = .ok r → ∀ questions : List Accessor,
        (∀ made, Event.run made ∈ r.eventsOf questions → ¬ made.Misread) ∧
          ∀ g ∈ (r.after questions).groups?, b.Vouches input origin g) ∧
      ((∀ backward ∈ b.backward, backward.anchored = false) → b.templates = #[] →
        ∀ outcome, b.forward.scan input origin origin input.size = .ok outcome →
          outcome.found = true →
          ∃ r, (b.find input origin).answer = .ok r ∧ r.found = true ∧
            ∀ questions : List Accessor,
              (b.forward.groupCount ≠ 0 → ((r.after questions).access .stop).answer = .ok 0) ∧
                ∀ (t : Table) (props : ScanProps) (d : Dfa), Dfa.ofTable t props = .ok d →
                  b.forward = d.toAutomaton → props.direction = .forward →
                  props.reporting = false →
                  ∃ last : Nat, ((r.after questions).access .stop).answer = .ok (origin + last) ∧
                    IsGreatest {j | j ≤ Direction.forward.distance origin input.size ∧
                      t.accepts (t.stateAfter .forward input origin j) = true} last) := by
  refine ⟨misread_find_iff hb, ?_, ?_⟩
  · intro r hr questions
    have hpending := (fresh_of_find hr).eq_pending
    exact ⟨fun made hmade => not_misread_of_mem_eventsOf hb hpending hmade,
      vouches_after hpending (vouches_of_find hr) questions⟩
  · intro hroute hnone outcome hscan hfound
    have hknown : (b.resultFromStop input origin outcome.value).stop? = some outcome.value :=
      stop?_resultFromStop hnone
    have hstop := Result.answer_stop_after hknown
    refine ⟨_, answer_find_of_forward hroute hscan hfound, ?_, fun questions => ⟨?_, ?_⟩⟩
    · rw [Result.found_eq_isSome, hknown, Option.isSome_some]
    · intro hgroups
      -- Groups have the value 0, and that is taken for the end.
      rw [hstop]
      rcases hb.forward with hplain | htagged
      · exact absurd hplain.groupCount_eq hgroups
      · rcases htagged.noMatch_or_groups hscan with rfl | ⟨boundaries, rfl⟩ <;> rfl
    · intro t props d hd hforward hdir hreporting
      rw [hforward] at hscan
      have hfits : props.direction.Fits input.size origin input.size := by
        rw [hdir]
        exact ⟨hin.1, hin.2, Int.le_refl _⟩
      rcases Dfa.exists_isGreatest_of_scan hd hreporting hfits hscan hfound
        with ⟨last, rfl, hlast⟩
      rw [hdir] at hlast
      refine ⟨last, ?_, hlast⟩
      rw [hstop, hdir]
      rfl

end Bundle

/-! ## A forward automaton that follows groups -/

/-- A table by which one byte is a match, and is the group of the whole match. -/
def oneByteTaggedTable : TaggedTable where
  toTable := oneByteTable
  groupCount := 1
  tags := #[.none 1, { onSymbol := #[[⟨0, false⟩]] },
    { onSymbol := #[[]], onAccept := [⟨1, false⟩] }]

/-- The automaton that is laid out from the table. -/
def oneByteTagged : TaggedDfa where
  props := { direction := .forward, anchored := true, lookbehind := 0, reporting := false }
  groupCount := 1
  alphabetSize := 1
  symbolOf := Vector.replicate 256 0
  successors := #[0, 2, 0]
  ops := #[⟨0, false⟩, ⟨1, false⟩]
  transitionOps := #[⟨0, 0⟩, ⟨0, 1⟩, ⟨1, 1⟩]
  accepting := #[false, false, true]
  acceptOps := #[⟨0, 0⟩, ⟨1, 1⟩, ⟨1, 2⟩]
  startAtEdge := 1
  startInside := 1

theorem oneByteTaggedTable_check : oneByteTaggedTable.check = .ok () := by
  have hsound : oneByteTable.firstFault = none :=
    (Table.check_eq_ok_iff _).1 ((Table.check_eq_ok_iff_sound _).2 oneByteTable_sound)
  rw [TaggedTable.check_eq_ok_iff, TaggedTable.firstFault,
    show oneByteTaggedTable.toTable.firstFault = none from hsound]
  decide

theorem oneByteTagged_tagged : oneByteTagged.toAutomaton.Tagged := by
  have hlaidOut : TaggedDfa.ofTable oneByteTaggedTable oneByteTagged.props = .ok oneByteTagged := by
    have hops : OpLayout.ofTags oneByteTaggedTable.tags = oneByteTagged.toOpLayout := by rfl
    rw [TaggedDfa.ofTable, oneByteTaggedTable_check, hops]
    simp [oneByteTagged, oneByteTaggedTable, oneByteTable, State.dead, deadState, bind, Except.bind,
      pure, Except.pure]
  exact .ofTable hlaidOut

/-- Automata of which the forward one follows groups. -/
def taggedBundle : Bundle where
  forward := oneByteTagged.toAutomaton
  backward := none
  capture := none
  templates := #[]
  flags := 0
  sound := by
    simp [Parts.firstFault, Parts.needsBackward_of_empty, TaggedDfa.toAutomaton, oneByteTagged]

theorem taggedBundle_inRoles : taggedBundle.InRoles where
  forward := .inr oneByteTagged_tagged
  backward := by rintro _ ⟨⟩

/-- The forward automaton reports that the match ends at 1, but the search takes it to end at 0. -/
theorem taggedBundle_misread :
    taggedBundle.forward.scan #[120] 0 0 1 = .ok (.groups #[0, 1]) ∧
      (∃ made, Event.run made ∈ (taggedBundle.find #[120] 0).events ∧ made.Misread) ∧
      ∃ r, (taggedBundle.find #[120] 0).answer = .ok r ∧ r.found = true ∧
        ((r.after []).access .stop).answer = .ok 0 := by
  have hscan : taggedBundle.forward.scan #[120] 0 0 1 = .ok (.groups #[0, 1]) := by rfl
  have hroute : ∀ backward ∈ taggedBundle.backward, backward.anchored = false := by rintro _ ⟨⟩
  have hin : Inside #[120] 0 := ⟨by decide, by decide⟩
  rcases Bundle.misread_iff taggedBundle_inRoles hin with ⟨hmisread, -, hends⟩
  rcases hends hroute rfl _ hscan rfl with ⟨r, hr, hfound, hstop⟩
  exact ⟨hscan, hmisread.2 ⟨hroute, by decide, _, hscan, rfl⟩, r, hr, hfound,
    (hstop []).1 (by decide)⟩

end LazyMatch
