import LazyMatch.Proofs.Find.Fresh
import LazyMatch.Proofs.Pending

/-!
# Searches on demand refine a reference

Let the automata of a bundle implement a finding on some input: each of them reports its part of it
(`Bundle.Implements`). Then the search gives a result that leads to this finding, whatever the route
it takes: forward, or backward from the end of the input; with no, one or several templates; with
or without an automaton for the groups; with the start known at once or found later. So the result
answers every question as the finding does, in any order of questions.
-/

namespace LazyMatch

namespace Bundle

/-- The lowest position of a backward scan for a search that began at `origin`. -/
def floor (b : Bundle) (origin : Int) : Int :=
  scanFloor origin b.forward.lookbehind

/-- Together the automata find `M` in the input from `origin` on. -/
structure Implements (b : Bundle) (input : Input) (origin : Int) (M : Finding) : Prop where
  /-- Unless searches run backward, the forward automaton finds where the match ends. -/
  forward : (∀ backward ∈ b.backward, backward.anchored = false) →
    (b.forward.scan input origin origin input.size = .ok .noMatch ↔ M = none) ∧
      ∀ g ∈ M, b.forward.scan input origin origin input.size = .ok (.offset (matchStop g))
  /-- Where searches run backward, matches touch the end of the input. -/
  anchored : ∀ backward ∈ b.backward, backward.anchored = true →
    (backward.scan input 0 (input.size - 1) (b.floor origin) = .ok .noMatch ↔ M = none) ∧
      ∀ g ∈ M, matchStop g = input.size
  /-- From the end of the match the backward automaton finds its start, if there is at most one
  template, and otherwise the number of a template that describes it. -/
  backward : ∀ g ∈ M, ∀ backward ∈ b.backward,
    if b.templates.size ≤ 1 then
      backward.scan input 0 (matchStop g - 1) (b.floor origin) = .ok (.offset (matchStart g - 1))
    else
      ∃ (i : Nat) (t : Template), b.templates[i]? = some t ∧ t.boundaries (matchStart g) = g ∧
        backward.scan input 0 (matchStop g - 1) (b.floor origin) = .ok (.offset i)
  /-- Matches that touch the edge, and matches of sticky patterns, start where the search began. -/
  start : b.forward.anchored = true ∨ b.sticky = true → ∀ g ∈ M, matchStart g = origin
  /-- A single template describes the match. -/
  template : ∀ t, b.templates = #[t] → ∀ g ∈ M, t.boundaries (matchStart g) = g
  /-- Without templates the automaton for the groups finds them between start and end. -/
  capture : b.templates = #[] → ∀ capture ∈ b.capture, ∀ g ∈ M,
    capture.scan input origin (matchStart g) (matchStop g) = .ok (.groups g)

/-- The number of one of several templates, which the backward automaton reports on demand, fits
into a 32-bit word. -/
def ReportsWord (b : Bundle) (input : Input) (origin : Int) (M : Finding) : Prop :=
  1 < b.templates.size → ∀ g ∈ M, ∀ backward ∈ b.backward, backward.anchored = false → ∀ i : Nat,
    backward.scan input 0 (matchStop g - 1) (b.floor origin) = .ok (.offset i) → i < 2 ^ 32

end Bundle

/-! ## Pending scans of automata that report their parts -/

namespace Pending

variable {p : Pending} {stop : Int} {backward : Automaton}

theorem answer_backwardValue {value : Int} (hb : p.bundle.backward = some backward)
    (hscan : backward.scan p.input 0 (stop - 1) p.floor = .ok (.offset value)) :
    (p.backwardValue stop).answer = .ok value := by
  rw [p.backwardValue_eq hb, hscan]
  rfl

theorem answer_locateStart {start : Int} (hb : p.bundle.backward = some backward)
    (hscan : backward.scan p.input 0 (stop - 1) p.floor = .ok (.offset (start - 1))) :
    (p.locateStart stop).answer = .ok start := by
  have hnext : start - 1 + 1 = start := by omega
  rw [p.locateStart_eq, answer_backwardValue hb hscan]
  simp [Except.map, hnext]

theorem answer_locateStart_of_noMatch (hb : p.bundle.backward = some backward)
    (hscan : backward.scan p.input 0 (stop - 1) p.floor = .ok .noMatch) :
    (p.locateStart stop).answer = .error (.contract .backwardRejected) := by
  rw [p.locateStart_eq, p.backwardValue_eq hb, hscan]
  rfl

theorem answer_templateBoundaries_of_number {number : Fin p.bundle.templates.size}
    (hnumber : (p.locateTemplate stop).answer = .ok number) :
    (p.templateBoundaries stop).answer =
      let template := p.bundle.template number
      .ok (template.boundaries (stop - template.length.toNat)) := by
  rw [templateBoundaries, Work.bind_of_ok hnumber]
  rfl

theorem answer_templateBoundaries_of_word {i : Nat} {t : Template}
    (ht : p.bundle.templates[i]? = some t) (hword : i < 2 ^ 32)
    (hvalue : (p.backwardValue stop).answer = .ok i) :
    (p.templateBoundaries stop).answer = .ok (t.boundaries (stop - t.length.toNat)) := by
  rcases Array.getElem?_eq_some_iff.1 ht with ⟨hi, -⟩
  have htemplate : p.bundle.template ⟨i, hi⟩ = t :=
    Option.some.inj ((p.bundle.getElem?_template ⟨i, hi⟩).symm.trans ht)
  have hsmall : i < UInt32.size := by simpa using hword
  have hnumber := answer_locateTemplate hi hvalue
  rw [narrow_of_lt hsmall] at hnumber
  rw [answer_templateBoundaries_of_number hnumber, htemplate]

theorem answer_templateBoundaries {i : Nat} {t : Template}
    (hb : p.bundle.backward = some backward) (ht : p.bundle.templates[i]? = some t)
    (hword : i < 2 ^ 32)
    (hscan : backward.scan p.input 0 (stop - 1) p.floor = .ok (.offset i)) :
    (p.templateBoundaries stop).answer = .ok (t.boundaries (stop - t.length.toNat)) :=
  answer_templateBoundaries_of_word ht hword (answer_backwardValue hb hscan)

theorem answer_locateGroups {start : Int} {capture : Automaton} {g : Array Int}
    (hc : p.bundle.capture = some capture)
    (hscan : capture.scan p.input p.origin start stop = .ok (.groups g)) :
    (p.locateGroups start stop).answer = .ok g := by
  rw [p.locateGroups_eq hc, hscan]
  rfl

end Pending

/-! ## Results of one run -/

namespace Bundle

variable {b : Bundle} {input : Input} {origin : Int} {g : Array Int} {M : Finding}

/-- Boundaries that a search from `origin` can have found. -/
structure Admits (b : Bundle) (input : Input) (origin : Int) (g : Array Int) : Prop where
  size : g.size = 2 * b.groupCount.toNat
  after : origin ≤ matchStart g
  ordered : matchStart g ≤ matchStop g
  inside : matchStop g ≤ input.size

theorem two_le_size_of_admits (ha : b.Admits input origin g) (h0 : 0 ≤ origin) : 2 ≤ g.size := by
  by_cases hempty : g.size = 0
  · -- Without boundaries the match would start before the input.
    have hstart : matchStart g = unset := by
      simp [matchStart, hempty]
    have hafter := ha.after
    rw [hstart, unset] at hafter
    omega
  · have hsize := ha.size
    omega

theorem eq_pair_of_size_eq_two (h : g.size = 2) : g = #[matchStart g, matchStop g] := by
  apply Array.ext
  · simpa using h
  · intro i hi _
    have hcases : i = 0 ∨ i = 1 := by omega
    rcases hcases with rfl | rfl <;> simp [matchStart, matchStop, h]

theorem ofNat_size_div_two (ha : b.Admits input origin g) :
    UInt32.ofNat (g.size / 2) = b.groupCount := by
  rw [ha.size, Nat.mul_div_cancel_left _ (by decide), UInt32.ofNat_toNat]

theorem size_eq_two (ha : b.Admits input origin g) (ht : b.templates = #[])
    (hc : b.capture = none) : g.size = 2 := by
  rw [ha.size]
  simp [Parts.groupCount, ht, hc]

theorem templateBoundaries_eq {t : Template} (h : t.boundaries (matchStart g) = g) :
    t.boundaries (matchStop g - t.length.toNat) = g := by
  have hstop : matchStop g = matchStart g + t.length.toNat := by
    rw [← t.matchStop_boundaries, h]
  have hstart : matchStop g - t.length.toNat = matchStart g := by omega
  rw [hstart, h]

theorem templates_eq_singleton {t : Template} (ht : b.templates[0]? = some t)
    (hsize : b.templates.size = 1) : b.templates = #[t] := by
  rcases Array.size_eq_one_iff.1 hsize with ⟨t', htemplates⟩
  rw [htemplates] at ht ⊢
  cases ht
  rfl

/-- With several templates the backward automaton will say which one describes the match. -/
theorem lateTemplate_leadsTo (h : b.Implements input origin (some g))
    (hword : b.ReportsWord input origin (some g)) (ha : b.Admits input origin g) (h0 : 0 ≤ origin)
    (hroute : ∀ backward ∈ b.backward, backward.anchored = false)
    (hmany : 1 < b.templates.size) :
    Result.LeadsTo (.lateTemplate (b.pending input origin) (matchStop g) none none) (some g) := by
  rcases b.exists_backward (Parts.needsBackward_of_many hmany) with ⟨backward, hb⟩
  have hback := h.backward g rfl backward hb
  rw [if_neg (by omega)] at hback
  rcases hback with ⟨i, t, ht, hbound, hscan⟩
  have hi : i < 2 ^ 32 := hword hmany g rfl backward hb (hroute backward hb) i hscan
  have hfound := Pending.answer_templateBoundaries (p := b.pending input origin) hb ht hi hscan
  rw [templateBoundaries_eq hbound] at hfound
  exact .lateTemplate (two_le_size_of_admits ha h0) (ofNat_size_div_two ha) (.inl rfl)
    (.pending hfound)

theorem answer_locateStart (h : b.Implements input origin (some g))
    (hfew : b.templates.size ≤ 1) (hneeds : b.needsBackward = true) :
    ((b.pending input origin).locateStart (matchStop g)).answer = .ok (matchStart g) := by
  rcases b.exists_backward hneeds with ⟨backward, hb⟩
  have hback := h.backward g rfl backward hb
  rw [if_pos hfew] at hback
  exact Pending.answer_locateStart (p := b.pending input origin) hb hback

/-- Without templates and groups of its own the match is a pair of positions. -/
theorem plainResult_leadsTo (h : b.Implements input origin (some g))
    (ha : b.Admits input origin g) (ht : b.templates = #[]) (hc : b.capture = none) :
    Result.LeadsTo
      (if matchStop g = origin then .single (matchStop g) (matchStop g)
        else if b.forward.anchored || b.sticky then .single origin (matchStop g)
        else .lateStart (b.pending input origin) (matchStop g) none)
      (some g) := by
  have hpair := eq_pair_of_size_eq_two (size_eq_two ha ht hc)
  split
  · next hempty =>
    -- An empty match leaves its start no other place.
    have hstart : matchStart g = matchStop g := by
      have hafter := ha.after
      have hordered := ha.ordered
      omega
    rw [hstart] at hpair
    rw [hpair]
    exact .single _ _
  · split
    · next hedge =>
      rw [Bool.or_eq_true] at hedge
      have hstart := h.start hedge g rfl
      rw [hstart] at hpair
      rw [hpair]
      exact .single _ _
    · next hfree =>
      have hneeds : b.needsBackward = true := by
        simp [Parts.needsBackward_of_empty ht, hc, hfree]
      have hfound := b.answer_locateStart h (by simp [ht]) hneeds
      rw [hpair]
      exact .lateStart (.pending hfound)

theorem lateGroups_leadsTo (h : b.Implements input origin (some g))
    (ha : b.Admits input origin g) (h0 : 0 ≤ origin) (ht : b.templates = #[])
    {capture : Automaton} (hc : b.capture = some capture) {start? : Option Int}
    (hstart : Obtainable ((b.pending input origin).locateStart (matchStop g)) (matchStart g)
      start?) :
    Result.LeadsTo (.lateGroups (b.pending input origin) (matchStop g) start? none) (some g) := by
  have hscan := h.capture ht capture hc g rfl
  have hgroups := Pending.answer_locateGroups (p := b.pending input origin) hc hscan
  exact .lateGroups (two_le_size_of_admits ha h0) (ofNat_size_div_two ha) hstart
    (.pending hgroups)

theorem edge_or_sticky (h : b.startsAtOrigin = true) :
    b.forward.anchored = true ∨ b.sticky = true := by
  rw [Parts.startsAtOrigin, Bool.or_eq_true, Bool.and_eq_true] at h
  rcases h with hedge | ⟨hsticky, _⟩
  · exact .inl hedge
  · exact .inr hsticky

/-- From the end of the match that the forward automaton found, the rest is known or can be
found. -/
theorem resultFromStop_leadsTo (h : b.Implements input origin (some g))
    (hword : b.ReportsWord input origin (some g)) (ha : b.Admits input origin g) (h0 : 0 ≤ origin)
    (hroute : ∀ backward ∈ b.backward, backward.anchored = false) :
    (b.resultFromStop input origin (matchStop g)).LeadsTo (some g) := by
  unfold resultFromStop
  split
  · next t ht =>
    have hsome : 0 < b.templates.size := (Array.getElem?_eq_some_iff.1 ht).1
    split
    · next hsingle =>
      have hbound := h.template t (templates_eq_singleton ht (of_decide_eq_true hsingle)) g rfl
      have hresult := t.resultFromStop_leadsTo (matchStart g)
      rwa [hbound] at hresult
    · next hsingle =>
      have hnot : b.templates.size ≠ 1 := fun hone => hsingle (decide_eq_true hone)
      exact lateTemplate_leadsTo h hword ha h0 hroute (by omega)
  · next ht =>
    have htemplates := templates_eq_empty ht
    split
    · next hc => exact plainResult_leadsTo h ha htemplates (Option.isNone_iff_eq_none.1 hc)
    · next hc =>
      rcases Option.ne_none_iff_exists'.1 (fun hnone => hc (Option.isNone_iff_eq_none.2 hnone))
        with ⟨capture, hcapture⟩
      split
      · next hedge =>
        -- The start is known from the outset, and later scans for the groups rely on it.
        have hstart : matchStart g = origin := h.start (edge_or_sticky hedge) g rfl
        have hknown : Obtainable ((b.pending input origin).locateStart (matchStop g))
            (matchStart g) (some origin) := by
          rw [hstart]
          exact .known
        exact lateGroups_leadsTo h ha h0 htemplates hcapture hknown
      · next hfree =>
        have hneeds : b.needsBackward = true := by
          simp [Parts.needsBackward_of_empty htemplates, hcapture, hfree]
        have hfound := b.answer_locateStart h (by simp [htemplates]) hneeds
        exact lateGroups_leadsTo h ha h0 htemplates hcapture (.pending hfound)

theorem manyTemplates_iff : b.manyTemplates = true ↔ 1 < b.templates.size :=
  decide_eq_true_iff

theorem resultFromValue_of_many {i : Nat} {t : Template} (hmany : 1 < b.templates.size)
    (ht : b.templates[i]? = some t) (hbound : t.boundaries (matchStart g) = g)
    (hstop : matchStop g = input.size) :
    ∃ r, b.resultFromValue input origin i = .ok r ∧ r.LeadsTo (some g) := by
  rcases Array.getElem?_eq_some_iff.1 ht with ⟨hi, rfl⟩
  refine ⟨b.templates[i].resultFromStop input.size, ?_, ?_⟩
  · rw [resultFromValue, if_pos (manyTemplates_iff.2 hmany), b.templateNumber_of_lt hi]
    rfl
  · have hresult := b.templates[i].resultFromStop_leadsTo (matchStart g)
    rwa [hbound, hstop] at hresult

theorem resultFromValue_of_few (h : b.Implements input origin (some g))
    (ha : b.Admits input origin g) (h0 : 0 ≤ origin) (hfew : b.templates.size ≤ 1)
    (hstop : matchStop g = input.size) :
    ∃ r, b.resultFromValue input origin (matchStart g - 1) = .ok r ∧ r.LeadsTo (some g) := by
  have hnot : ¬ b.manyTemplates = true := fun hmany => by
    have hsize := manyTemplates_iff.1 hmany
    omega
  have hnext : matchStart g - 1 + 1 = matchStart g := by omega
  rw [resultFromValue, if_neg hnot, hnext]
  cases ht : b.templates[0]? with
  | some t =>
    have hsome : 0 < b.templates.size := (Array.getElem?_eq_some_iff.1 ht).1
    have hbound := h.template t (templates_eq_singleton ht (by omega)) g rfl
    refine ⟨t.resultFromStart (matchStart g), rfl, ?_⟩
    have hresult := t.resultFromStart_leadsTo (matchStart g)
    rwa [hbound] at hresult
  | none =>
    have htemplates := templates_eq_empty ht
    cases hc : b.capture with
    | some capture =>
      refine ⟨_, rfl, ?_⟩
      have hresult := lateGroups_leadsTo h ha h0 htemplates hc .known
      rwa [hstop] at hresult
    | none =>
      refine ⟨_, rfl, ?_⟩
      have hpair := eq_pair_of_size_eq_two (size_eq_two ha htemplates hc)
      rw [hpair, ← hstop]
      exact .single _ _

/-! ## Both routes of a search -/

theorem findForward_spec (h : b.Implements input origin M) (hword : b.ReportsWord input origin M)
    (hM : ∀ g ∈ M, b.Admits input origin g) (h0 : 0 ≤ origin)
    (hroute : ∀ backward ∈ b.backward, backward.anchored = false) :
    ∃ r, (b.findForward input origin).answer = .ok r ∧ r.LeadsTo M := by
  rcases h.forward hroute with ⟨hnone, hsome⟩
  cases M with
  | none =>
    refine ⟨.noMatch, ?_, .noMatch⟩
    rw [findForward_eq, hnone.2 rfl]
    rfl
  | some g =>
    refine ⟨b.resultFromStop input origin (matchStop g), ?_,
      resultFromStop_leadsTo h hword (hM g rfl) h0 hroute⟩
    rw [findForward_eq, hsome g rfl]
    rfl

theorem findBackward_spec (h : b.Implements input origin M) (hM : ∀ g ∈ M, b.Admits input origin g)
    (h0 : 0 ≤ origin) {backward : Automaton} (hb : b.backward = some backward)
    (hroute : backward.anchored = true) :
    ∃ r, (b.findBackward backward input origin).answer = .ok r ∧ r.LeadsTo M := by
  rcases h.anchored backward hb hroute with ⟨hnone, hsome⟩
  cases M with
  | none =>
    have hscan : backward.scan input 0 (input.size - 1) (b.pending input origin).floor =
        .ok .noMatch := hnone.2 rfl
    refine ⟨.noMatch, ?_, .noMatch⟩
    rw [findBackward_eq, hscan]
    rfl
  | some g =>
    -- The match ends with the input, so the scan from there is the one from the end of the match.
    have hstop := hsome g rfl
    have hback := h.backward g rfl backward hb
    rw [hstop] at hback
    -- Both kinds of value that the scan can report lead to a result for the same match.
    have hreported : ∃ value r, backward.scan input 0 (input.size - 1) (b.floor origin)
        = .ok (.offset value) ∧ b.resultFromValue input origin value = .ok r ∧
          r.LeadsTo (some g) := by
      split at hback
      · next hfew =>
        rcases resultFromValue_of_few h (hM g rfl) h0 hfew hstop with ⟨r, hr, hleads⟩
        exact ⟨_, r, hback, hr, hleads⟩
      · next hmany =>
        rcases hback with ⟨i, t, ht, hbound, hscan⟩
        rcases resultFromValue_of_many (by omega) ht hbound hstop with ⟨r, hr, hleads⟩
        exact ⟨_, r, hscan, hr, hleads⟩
    rcases hreported with ⟨value, r, hscan, hr, hleads⟩
    have hscan' : backward.scan input 0 (input.size - 1) (b.pending input origin).floor =
        .ok (.offset value) := hscan
    refine ⟨r, ?_, hleads⟩
    rw [findBackward_eq, hscan']
    exact hr

/-- A search on demand gives a result that leads to what the automata together find. -/
theorem find_spec (h : b.Implements input origin M) (hword : b.ReportsWord input origin M)
    (hM : ∀ g ∈ M, b.Admits input origin g) (h0 : 0 ≤ origin) :
    ∃ r, (b.find input origin).answer = .ok r ∧ r.LeadsTo M := by
  rcases b.find_route input origin with ⟨backward, hb, hroute, hfind⟩ | ⟨hroute, hfind⟩
  · rw [hfind]
    exact findBackward_spec h hM h0 hb hroute
  · rw [hfind]
    exact findForward_spec h hword hM h0 hroute

/-- A search on demand over automata that implement a finding succeeds, matches exactly if there is
something to find, and its result answers every question as the finding does, whatever was asked
before. For this the boundaries and the templates must be few enough to be numbered by 32-bit words:
there are at most `2 ^ 31` groups, and the number of a template that is reported is below
`2 ^ 32`. -/
theorem find_answers_finding (b : Bundle) (input : Input) (origin : Int) (M : Finding)
    (h0 : 0 ≤ origin) (hM : ∀ g ∈ M, b.Admits input origin g)
    (h : b.Implements input origin M) (hgroups : b.groupCount.toNat ≤ 2 ^ 31)
    (hword : b.ReportsWord input origin M) :
    ∃ r, (b.find input origin).answer = .ok r ∧ r.found = M.isSome ∧
      ∀ (questions : List Accessor) (a : Accessor),
        ((r.after questions).access a).answer = M.answer a := by
  have hsize : ∀ g ∈ M, g.size ≤ 2 ^ 32 := by
    intro g hg
    have hboundaries := (hM g hg).size
    omega
  rcases find_spec h hword hM h0 with ⟨r, hr, hleads⟩
  refine ⟨r, hr, hleads.found_eq, fun questions a => ?_⟩
  calc
    ((r.after questions).access a).answer = (M.told.access a).answer :=
      hleads.answer_after questions a
    _ = M.answer a := Finding.answer_told hsize a

end Bundle

/-! ## A pattern with one group -/

/-- An automaton that answers every scan alike. -/
def Automaton.always (groupCount : UInt32) (outcome : Outcome) : Automaton where
  anchored := false
  lookbehind := 0
  groupCount
  scan _ _ _ _ := .ok outcome

/-- The text in which the pattern `a(b)?c` is found from 1 to 4, and its group from 2 to 3. -/
def sampleInput : Input := #[120, 97, 98, 99]

/-- Automata that report what `a(b)?c` finds in the sample input. -/
def sampleBundle : Bundle where
  forward := .always 0 (.offset 4)
  backward := some (.always 0 (.offset 0))
  capture := some (.always 2 (.groups #[1, 4, 2, 3]))
  templates := #[]
  flags := 0
  sound := by simp [Parts.firstFault, Automaton.always]

theorem sampleBundle_implements :
    sampleBundle.Implements sampleInput 0 (some #[1, 4, 2, 3]) where
  forward _ := ⟨by simp [sampleBundle, Automaton.always], by rintro _ ⟨⟩; rfl⟩
  anchored := by
    rintro _ ⟨⟩ hanchored
    cases hanchored
  backward := by
    rintro _ ⟨⟩ _ ⟨⟩
    rfl
  start := by
    rintro (hanchored | hsticky)
    · cases hanchored
    · revert hsticky
      decide
  template := by
    intro t ht
    cases ht
  capture := by
    rintro _ _ ⟨⟩ _ ⟨⟩
    rfl

theorem sampleBundle_admits : sampleBundle.Admits sampleInput 0 #[1, 4, 2, 3] :=
  ⟨rfl, by decide, by decide, by decide⟩

theorem sampleBundle_find_answers :
    ∃ r, (sampleBundle.find sampleInput 0).answer = .ok r ∧ r.found = true ∧
      ∀ (questions : List Accessor) (a : Accessor),
        ((r.after questions).access a).answer = Finding.answer (some #[1, 4, 2, 3]) a :=
  Bundle.find_answers_finding sampleBundle sampleInput 0 (some #[1, 4, 2, 3]) (by decide)
    (by rintro _ ⟨⟩; exact sampleBundle_admits) sampleBundle_implements (by decide)
    (fun hmany => absurd hmany (by decide))

/-! ## Numbers that do not fit into words -/

/-- Automata that find the first byte of the input, and then report these boundaries. -/
def firstByteBundle (count : UInt32) (hcount : count ≠ 0) (boundaries : Array Int) : Bundle where
  forward := { Automaton.always 0 (.offset 1) with anchored := true }
  backward := none
  capture := some (.always count (.groups boundaries))
  templates := #[]
  flags := 0
  sound := by
    simp [Parts.firstFault, Parts.needsBackward, Parts.singleTemplate, Parts.manyTemplates,
      Parts.startsAtOrigin, Automaton.always, hcount]

theorem firstByteBundle_implements {count : UInt32} (hcount : count ≠ 0) {g : Array Int}
    (hstart : matchStart g = 0) (hstop : matchStop g = 1) :
    (firstByteBundle count hcount g).Implements #[120] 0 (some g) where
  forward _ := by
    refine ⟨by simp [firstByteBundle, Automaton.always], ?_⟩
    rintro _ ⟨⟩
    rw [hstop]
    rfl
  anchored := by
    rintro _ ⟨⟩
  backward := by
    rintro _ _ _ ⟨⟩
  start := by
    rintro _ _ ⟨⟩
    exact hstart
  template := by
    intro t ht
    cases ht
  capture := by
    rintro _ _ ⟨⟩ _ ⟨⟩
    rfl

/-- A match of one byte, and groups without number that take no part in it. -/
def crowd (n : Nat) : Array Int := #[0, 1] ++ Array.replicate n unset

theorem getElem?_crowd (n : Nat) : (crowd n)[0]? = some 0 ∧ (crowd n)[1]? = some 1 :=
  ⟨Array.getElem?_append_left (by decide), Array.getElem?_append_left (by decide)⟩

theorem crowd_spec (n : Nat) :
    (crowd n).size = n + 2 ∧ matchStart (crowd n) = 0 ∧ matchStop (crowd n) = 1 := by
  rcases getElem?_crowd n with ⟨hstart, hstop⟩
  refine ⟨?_, ?_, ?_⟩
  · simp [crowd, Nat.add_comm]
  · simp [matchStart, hstart]
  · simp [matchStop, hstop]

theorem lookup_crowd {n i : Nat} (hlow : 2 ≤ i) (hhigh : i < n + 2) :
    lookup (crowd n) i = .ok unset := by
  have hi : i < (crowd n).size := (crowd_spec n).1 ▸ hhigh
  rw [lookup_eq_getD hi, crowd, Array.getD_eq_getD_getElem?, Array.getElem?_append_right hlow]
  simp [show i - 2 < n by omega]

/-- Describes matches of a length, without groups of their own. -/
def Template.ofLength (length : UInt32) : Template where
  distances := #[0, length.toNat]
  length
  sound := by simp [Template.firstFault, Template.groupsFault]

/-- Asked for the last of more than `2 ^ 31` groups, a result tells where the match starts. -/
theorem firstByteBundle_missed {n : Nat} (hn : n = 2 ^ 32) :
    ∃ (b : Bundle) (g : Array Int), b.Admits #[120] 0 g ∧ b.Implements #[120] 0 (some g) ∧
      b.ReportsWord #[120] 0 (some g) ∧ ∃ r a, (b.find #[120] 0).answer = .ok r ∧
        (r.access a).answer ≠ Finding.answer (some g) a := by
  have hcount : (2147483649 : UInt32) ≠ 0 := by decide
  rcases crowd_spec n with ⟨hsize, hstart, hstop⟩
  let b := firstByteBundle 2147483649 hcount (crowd n)
  have hadmits : b.Admits #[120] 0 (crowd n) := by
    refine ⟨?_, Int.le_of_eq hstart.symm, by rw [hstart, hstop]; decide, Int.le_of_eq hstop⟩
    have hgroups : b.groupCount = 2147483649 := rfl
    have hword : (2147483649 : UInt32).toNat = 2147483649 := rfl
    rw [hsize, hgroups, hword]
    omega
  have himplements : b.Implements #[120] 0 (some (crowd n)) :=
    firstByteBundle_implements hcount hstart hstop
  have hword : b.ReportsWord #[120] 0 (some (crowd n)) :=
    fun hmany => absurd hmany (by simp [b, firstByteBundle])
  rcases Bundle.find_spec himplements hword (by rintro _ ⟨⟩; exact hadmits) (Int.le_refl 0)
    with ⟨r, hr, hleads⟩
  refine ⟨b, crowd n, hadmits, himplements, hword, r, .startOfGroup 2147483648, hr, ?_⟩
  have hthere : (2147483648 : UInt32) < (Result.groups (crowd n)).groupCount := by
    rw [Result.groupCount, hsize, hn, UInt32.lt_iff_toNat_lt]
    simp
  have htold : (r.access (.startOfGroup 2147483648)).answer = lookup (crowd n) 0 := by
    refine (hleads.access_spec _).1.trans ?_
    exact (Finding.answer_withGroup_groups _ _ _).trans (if_pos hthere)
  have hzero : lookup (crowd n) 0 = .ok 0 := by
    rw [lookup_eq_getD (by omega)]
    exact congrArg Except.ok hstart
  have hfar : Finding.answer (some (crowd n)) (.startOfGroup 2147483648) = .ok unset := by
    have hindex : (2147483648 : UInt32).toNat = 2147483648 := rfl
    rw [Finding.answer, Finding.ofGroup, Finding.groupCount, hsize, hindex, if_pos (by omega)]
    exact lookup_crowd (by omega) (by omega)
  simp [htold, hzero, hfar, unset]

/-- Matches of no byte, and then a number of times matches of one byte. -/
def manyLengths (n : Nat) : Array Template :=
  #[.ofLength 0] ++ Array.replicate n (.ofLength 1)

theorem manyLengths_spec {n : Nat} (h : n ≠ 0) :
    (manyLengths n).size = n + 1 ∧ (manyLengths n)[0]? = some (.ofLength 0) ∧
      (manyLengths n)[n]? = some (.ofLength 1) := by
  refine ⟨?_, Array.getElem?_append_left (by decide), ?_⟩
  · simp [manyLengths, Nat.add_comm]
  · rw [manyLengths, Array.getElem?_append_right (Nat.pos_of_ne_zero h)]
    exact Array.getElem?_replicate.trans (if_pos (Nat.sub_lt (Nat.pos_of_ne_zero h) Nat.one_pos))

theorem groupCount_of_mem_manyLengths {n : Nat} {t : Template} (h : t ∈ manyLengths n) :
    t.groupCount = 1 := by
  simp only [manyLengths, Array.mem_append, List.mem_toArray, List.mem_singleton,
    Array.mem_replicate] at h
  rcases h with rfl | ⟨-, rfl⟩ <;> rfl

/-- Automata that find the first byte of the input, and the last template for it. -/
def manyLengthsBundle (n : Nat) (h : n ≠ 0) : Bundle where
  forward := .always 0 (.offset 1)
  backward := some (.always 0 (.offset n))
  capture := none
  templates := manyLengths n
  flags := 0
  sound := by
    have hagree : ∀ t ∈ manyLengths n, t.groupCount = 1 := fun t => groupCount_of_mem_manyLengths
    have hone : (Template.ofLength 0).groupCount = 1 := rfl
    simp only [Parts.firstFault]
    simp [Automaton.always, Parts.disagrees, (manyLengths_spec h).2.1, hone]
    exact fun i hi => hagree _ (Array.getElem_mem hi)

theorem manyLengthsBundle_implements {n : Nat} (h : n ≠ 0) :
    (manyLengthsBundle n h).Implements #[120] 0 (some #[0, 1]) where
  forward _ := ⟨by simp [manyLengthsBundle, Automaton.always], by rintro _ ⟨⟩; rfl⟩
  anchored := by
    rintro _ ⟨⟩ hanchored
    cases hanchored
  backward := by
    rintro _ ⟨⟩ _ ⟨⟩
    have hmany : ¬ (manyLengths n).size ≤ 1 := by
      rw [(manyLengths_spec h).1]
      omega
    have hbound : (Template.ofLength 1).boundaries (matchStart #[0, 1]) = #[0, 1] := by
      simp [Template.boundaries, Template.ofLength, Template.shift, matchStart, unset]
    exact (if_neg hmany).mpr ⟨n, .ofLength 1, (manyLengths_spec h).2.2, hbound, rfl⟩
  start := by
    rintro (hanchored | hsticky)
    · cases hanchored
    · revert hsticky
      simp [Parts.sticky, manyLengthsBundle]
  template := by
    intro t ht
    have hsize : (manyLengths n).size = 1 := congrArg Array.size ht
    rw [(manyLengths_spec h).1] at hsize
    omega
  capture := by
    rintro _ _ ⟨⟩

/-- The template with the number `2 ^ 32` is taken for the first one. -/
theorem manyLengthsBundle_missed {n : Nat} (hn : n = 2 ^ 32) :
    ∃ (b : Bundle) (g : Array Int), b.Admits #[120] 0 g ∧ b.Implements #[120] 0 (some g) ∧
      b.groupCount.toNat ≤ 2 ^ 31 ∧ ∃ r a, (b.find #[120] 0).answer = .ok r ∧
        (r.access a).answer ≠ Finding.answer (some g) a := by
  have hpos : n ≠ 0 := by omega
  let b := manyLengthsBundle n hpos
  rcases manyLengths_spec hpos with ⟨hsize, hfirst, -⟩
  have hgroups : b.groupCount = 1 := by
    have htemplate : b.templates[0]? = some (.ofLength 0) := hfirst
    rw [Parts.groupCount, htemplate]
    rfl
  have hadmits : b.Admits #[120] 0 #[0, 1] :=
    ⟨by rw [hgroups]; rfl, by decide, by decide, by decide⟩
  have hmany : 1 < b.templates.size := by
    change 1 < (manyLengths n).size
    omega
  have hfind : (b.find #[120] 0).answer = .ok (.lateTemplate (b.pending #[120] 0) 1 none none) := by
    have hscan : b.forward.scan #[120] 0 0 1 = .ok (.offset 1) := rfl
    rw [← b.resultFromStop_of_many hmany]
    refine b.answer_find_of_forward ?_ hscan rfl
    rintro _ ⟨⟩
    rfl
  let p := b.pending #[120] 0
  have hi : n < p.bundle.templates.size := by
    change n < (manyLengths n).size
    omega
  have hzero : p.bundle.template (Pending.narrow ⟨n, hi⟩) = .ofLength 0 := by
    have hnarrow : (Pending.narrow ⟨n, hi⟩ : Fin p.bundle.templates.size).val = 0 := by
      have hmod : n % 2 ^ 32 = 0 := by omega
      exact hmod
    refine Option.some.inj ((Array.getElem?_eq_getElem _).symm.trans ?_)
    rw [hnarrow]
    exact hfirst
  have hvalue : (p.backwardValue 1).answer = .ok n := rfl
  have hfound := Pending.answer_templateBoundaries_of_number
    (Pending.answer_locateTemplate hi hvalue)
  have hstart : ((Result.lateTemplate p 1 none none).access .start).answer = .ok 1 := by
    rw [Result.access, Result.start, Turn.answer_map, Work.answer_onto, hfound, hzero]
    exact congrArg Except.ok ((Template.ofLength 0).matchStart_boundaries 1)
  refine ⟨b, #[0, 1], hadmits, manyLengthsBundle_implements hpos, by rw [hgroups]; decide, _,
    .start, hfind, ?_⟩
  rw [hstart]
  simp [Finding.answer, matchStart]

/-- Searches on demand miss what the automata together find, if a boundary or a template has a
number that does not fit into a 32-bit word. They do not keep to one number of groups either, if the
boundaries are as many as twice the number of groups is in words. -/
theorem find_misses_finding :
    (∃ (b : Bundle) (g : Array Int), b.Admits #[120] 0 g ∧ b.Implements #[120] 0 (some g) ∧
      b.ReportsWord #[120] 0 (some g) ∧ ∃ r a, (b.find #[120] 0).answer = .ok r ∧
        (r.access a).answer ≠ Finding.answer (some g) a) ∧
    (∃ (b : Bundle) (g : Array Int), b.Admits #[120] 0 g ∧ b.Implements #[120] 0 (some g) ∧
      b.groupCount.toNat ≤ 2 ^ 31 ∧ ∃ r a, (b.find #[120] 0).answer = .ok r ∧
        (r.access a).answer ≠ Finding.answer (some g) a) ∧
    ∃ (b : Bundle) (g : Array Int), g.size = (2 * b.groupCount).toNat ∧
      b.Implements #[120] 0 (some g) ∧ ∃ r, (b.find #[120] 0).answer = .ok r ∧
        (r.access .groupCount).answer ≠
          ((r.after [.startOfGroup 0]).access .groupCount).answer := by
  refine ⟨firstByteBundle_missed rfl, manyLengthsBundle_missed rfl, ?_⟩
  have hcount : (2147483649 : UInt32) ≠ 0 := by decide
  let b := firstByteBundle 2147483649 hcount #[0, 1]
  let r : Result := .lateGroups (b.pending #[120] 0) 1 (some 0) none
  have hbefore : (r.access .groupCount).answer = .ok 2147483649 := rfl
  have hafter : ((r.after [.startOfGroup 0]).access .groupCount).answer = .ok 1 := rfl
  have hsize : (2 * (2147483649 : UInt32)).toNat = 2 := by decide
  refine ⟨b, #[0, 1], hsize.symm, firstByteBundle_implements hcount rfl rfl, r, rfl, ?_⟩
  rw [hbefore, hafter]
  simp

end LazyMatch
