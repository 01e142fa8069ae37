import LazyMatch.Proofs.Matcher.Search
import LazyMatch.Proofs.Find.AtOnce
import LazyMatch.Proofs.Result.Resolution
import LazyMatch.Result.Text
import Mathlib.Data.List.Induction

/-!
# Results do not seem to change

A result learns as it is asked, but nobody can tell by its answers: each piece that it learns is
what it would have answered anyway (`Result.Finds.alike`), and a question that fails goes on failing
in the same way. So however often, and in whatever order, a result and its copies are asked, printed
and copied again, every question gets the answer that it got at first
(`Result.constant_of_reports`).
-/

namespace LazyMatch

namespace Result

variable {r r' r'' : Result}

/-! ## What the answers depend on -/

/-- Whether the only group of the result is the match, with start and end for its boundaries. -/
def plain : Result → Bool
  | noMatch => false
  | single .. => true
  | lateStart .. => true
  | groups _ => false
  | lateGroups .. => false
  | lateTemplate .. => false

theorem answer_boundary (r : Result) (number : UInt32) :
    (r.boundary number).answer =
      if r.plain then (if number = 0 then r.start.answer else r.stop.answer)
      else r.boundaries.answer.bind fun g => lookup g number.toNat := by
  cases r with
  | noMatch => exact Turn.answer_andThen _ _
  | single start stop =>
    by_cases hzero : number = 0 <;> simp [boundary, plain, hzero, Result.start, Result.stop, stop?]
  | lateStart p stop start? =>
    by_cases hzero : number = 0 <;> simp [boundary, plain, hzero, Result.stop, stop?]
  | groups g => exact Turn.answer_andThen _ _
  | lateGroups p stop start? groups? => exact Turn.answer_andThen _ _
  | lateTemplate p stop start? groups? => exact Turn.answer_andThen _ _

theorem answer_boundaries_of_lateGroups (p : Pending) (stop : Int) (start? : Option Int) :
    let r := Result.lateGroups p stop start? none
    r.boundaries.answer = r.start.answer.bind fun start => (p.locateGroups start stop).answer := by
  intro r
  simp [r, Result.boundaries, Turn.answer_andThen]

/-- Two results of one kind with one end and as many groups answer alike if they find the same start
and the same boundaries. -/
theorem Alike.of_parts (hplain : r.plain = r'.plain) (hstop : r.stop? = r'.stop?)
    (hcount : r.groupCount = r'.groupCount) (hstart : r.start.answer = r'.start.answer)
    (hboundaries : r.boundaries.answer = r'.boundaries.answer) : r.Alike r' := by
  have hfound : r.found = r'.found := by
    simp [found_eq_isSome, hstop]
  have hend : r.stop.answer = r'.stop.answer := answer_stop_eq_of_stop? hstop
  have hboundary : ∀ number, (r.boundary number).answer = (r'.boundary number).answer := by
    intro number
    simp [answer_boundary, hplain, hstart, hend, hboundaries]
  have hgroup : ∀ index number,
      (r.withGroup index fun r => r.boundary number).answer =
        (r'.withGroup index fun r => r.boundary number).answer := by
    intro index number
    unfold withGroup
    rw [hfound, hcount]
    split
    · split
      · exact hboundary number
      · rfl
    · rfl
  refine ⟨hfound, ?_⟩
  intro a
  cases a with
  | start => exact hstart
  | stop => exact hend
  | groupCount => simp [access, hcount]
  | startOfGroup index => exact hgroup index _
  | stopOfGroup index => exact hgroup index _

theorem Alike.trans (h : r.Alike r') (h' : r'.Alike r'') : r.Alike r'' :=
  ⟨h.found.trans h'.found, fun a => (h.answer a).trans (h'.answer a)⟩

theorem Alike.symm (h : r.Alike r') : r'.Alike r :=
  ⟨h.found.symm, fun a => (h.answer a).symm⟩

/-! ## Learning changes no answer -/

/-- The scans for groups that the result may still make report as many as it promises. -/
def Reports (r : Result) : Prop := ∀ p ∈ r.pending?, p.bundle.ReportsAllGroups

/-- A result that has learnt something answers as before. -/
theorem Finds.alike (h : Finds r r') (hreports : r.Reports) : r'.Alike r := by
  have hstart := h.answer_start_eq
  cases h with
  | @start p stop start hfound =>
    refine .of_parts rfl rfl rfl hstart ?_
    simp [Result.boundaries, Result.start, hfound]
  | @startOfGroups p stop start groups? hfound =>
    cases groups? with
    | some g => exact .of_parts rfl rfl rfl hstart rfl
    | none =>
      refine .of_parts rfl rfl rfl hstart ?_
      rw [answer_boundaries_of_lateGroups, answer_boundaries_of_lateGroups, hstart]
  | @groups p stop start g hfound =>
    have hcount : UInt32.ofNat (g.size / 2) = p.bundle.groupCount :=
      Bundle.count_of_locateGroups (hreports p rfl) hfound
    refine .of_parts rfl rfl hcount rfl ?_
    rw [answer_boundaries_of_lateGroups]
    exact hfound.symm
  | @template p stop start? g hfound =>
    have hboundaries : (Result.lateTemplate p stop start? (some g)).boundaries.answer =
        (Result.lateTemplate p stop start? none).boundaries.answer := by
      simp [Result.boundaries, hfound]
    exact .of_parts rfl rfl rfl hstart hboundaries
  | startOfTemplate => exact .of_parts rfl rfl rfl rfl rfl

/-- Nothing that a result learns changes an answer. -/
theorem alike_of_finds (hreports : r.Reports) (h : Relation.ReflTransGen Finds r r') :
    r'.pending? = r.pending? ∧ r'.Alike r := by
  induction h with
  | refl => exact ⟨rfl, .refl r⟩
  | @tail known _ _ hstep ih =>
    rcases ih with ⟨hpending, halike⟩
    have hstill : known.Reports := by
      intro p hp
      exact hreports p (hpending ▸ hp)
    exact ⟨hstep.pending?_eq.trans hpending, (hstep.alike hstill).trans halike⟩

/-! ## Copies -/

/-- What the holder of some copies of a result does next to the copy in a place. -/
inductive Handling
  | ask (place : Nat) (accessor : Accessor)
  | print (place : Nat)
  /-- Makes another copy, of the result as it is by then. -/
  | copy (place : Nat)

/-- The copies afterwards. -/
def Handling.apply (copies : List Result) : Handling → List Result
  | ask place accessor => copies.modify place fun r => (r.access accessor).next
  | print place => copies.modify place fun r => r.print.next
  | copy place => copies ++ copies[place]?.toList

/-- The copies of a result, itself among them, after they have been handled. -/
def copiesAfter (r : Result) (handlings : List Handling) : List Result :=
  handlings.foldl Handling.apply [r]

theorem mem_modify {copies : List Result} {place : Nat} {f : Result → Result} {x : Result}
    (h : x ∈ copies.modify place f) : x ∈ copies ∨ ∃ y ∈ copies, x = f y := by
  rcases List.mem_iff_getElem?.1 h with ⟨i, hi⟩
  rw [List.getElem?_modify] at hi
  split at hi
  · rcases Option.map_eq_some_iff.1 hi with ⟨y, hy, hyx⟩
    exact .inr ⟨y, List.mem_of_getElem? hy, hyx.symm⟩
  · have hsame : copies[i]? = some x := by
      simpa using hi
    exact .inl (List.mem_of_getElem? hsame)

/-- What is true of some copies, and stays true when one of them is asked, stays true of all. -/
theorem Handling.apply_preserves {P : Result → Prop}
    (hask : ∀ r a, P r → P (r.access a).next) {copies : List Result} (h : ∀ x ∈ copies, P x)
    (handling : Handling) : ∀ x ∈ handling.apply copies, P x := by
  intro x hx
  cases handling with
  | ask place accessor =>
    rcases mem_modify hx with hold | ⟨y, hy, rfl⟩
    · exact h x hold
    · exact hask y accessor (h y hy)
  | print place =>
    rcases mem_modify hx with hold | ⟨y, hy, rfl⟩
    · exact h x hold
    · simpa [print_eq] using h y hy
  | copy place =>
    rcases List.mem_append.1 hx with hold | hnew
    · exact h x hold
    · simp only [Option.mem_toList] at hnew
      exact h x (List.mem_of_getElem? hnew)

theorem finds_of_mem_copiesAfter (r : Result) (handlings : List Handling) :
    ∀ x ∈ r.copiesAfter handlings, Relation.ReflTransGen Finds r x := by
  have hask : ∀ x a, Relation.ReflTransGen Finds r x →
      Relation.ReflTransGen Finds r (x.access a).next := by
    intro x a hlearnt
    exact hlearnt.trans (x.access_finds a)
  induction handlings using List.reverseRecOn with
  | nil =>
    intro x hx
    rw [List.mem_singleton.1 hx]
  | append_singleton handlings handling ih =>
    intro x hx
    rw [copiesAfter, List.foldl_append] at hx
    exact handling.apply_preserves hask ih x hx

/-- However the result and its copies are handled, in two ways, all copies match or none does, and
every question gets the same answer from each: a value, or a refusal or failure of one kind and
text. -/
def Constant (r : Result) : Prop :=
  ∀ first second : List Handling, ∀ x ∈ r.copiesAfter first, ∀ y ∈ r.copiesAfter second, x.Alike y

theorem Reports.constant (h : r.Reports) : r.Constant := by
  intro first second x hx y hy
  have hfirst := alike_of_finds h (r.finds_of_mem_copiesAfter first x hx)
  have hsecond := alike_of_finds h (r.finds_of_mem_copiesAfter second y hy)
  exact hfirst.2.trans hsecond.2.symm

/-- If its scans for groups report as many as it promises, no answer of a result ever changes; and
so it is with the results of searches, whatever strategy gave them, where the bundle is one whose
scans report as many groups as matches are said to have. -/
theorem constant_of_reports :
    (∀ r : Result, r.Reports → r.Constant) ∧
      ∀ (bundle : Bundle) (input : Input) (origin : Int) (r : Result), bundle.ReportsAllGroups →
        ((bundle.find input origin).answer = .ok r ∨
          ∃ m : Matcher, m.bundle = bundle ∧ (m.search input origin).answer = .ok r) →
        r.Constant := by
  refine ⟨fun r => Reports.constant, ?_⟩
  intro bundle input origin r hreports hsearched
  have hpending : ∀ p ∈ r.pending?, p = bundle.pending input origin := by
    rcases hsearched with hfind | ⟨m, rfl, hsearch⟩
    · exact (Bundle.fresh_of_find hfind).eq_pending
    · exact (m.search_cases input origin).pending_of_ok hsearch
  apply Reports.constant
  intro p hp
  rw [hpending p hp]
  exact hreports

end Result

/-! ## A match whose groups cannot be found -/

/-- Automata that find the match of `a(b)?c` in the sample input, but fail to find its groups. -/
def rejectingBundle : Bundle where
  forward := .always 0 (.offset 4)
  backward := some (.always 0 (.offset 0))
  capture := some (.always 2 .noMatch)
  templates := #[]
  flags := 0
  sound := by simp [Parts.firstFault, Automaton.always]

theorem rejectingBundle_reportsAllGroups : rejectingBundle.ReportsAllGroups := by
  rintro _ ⟨⟩ _ _ _ _ _ ⟨⟩

/-- Its result is asked for a group, in vain, and then copied; the copy is asked and printed. -/
def sampleHandlings : List Result.Handling :=
  [.ask 0 (.startOfGroup 1), .copy 0, .ask 1 .start, .print 1, .ask 0 (.stopOfGroup 7)]

/-- Though the result has found its start in the meantime, both copies answer as it did at first,
and so does a result made by hand that knows its start. -/
theorem rejectingBundle_find_constant :
    (∃ r x y, (rejectingBundle.find sampleInput 0).answer = .ok r ∧
        r.copiesAfter sampleHandlings = [x, y] ∧ r.start? = none ∧ x.start? = some 1 ∧
        x.Alike r ∧ y.Alike r ∧
        (x.startOfGroup 1).answer = .error (.contract .captureRejected)) ∧
      (Result.lateGroups (rejectingBundle.pending sampleInput 0) 4 (some 1) none).Constant := by
  rcases Result.constant_of_reports with ⟨hmade, hsearched⟩
  let r : Result := .lateGroups (rejectingBundle.pending sampleInput 0) 4 none none
  let x : Result := .lateGroups (rejectingBundle.pending sampleInput 0) 4 (some 1) none
  have hfind : (rejectingBundle.find sampleInput 0).answer = .ok r := by rfl
  have hcopies : r.copiesAfter sampleHandlings = [x, x] := by rfl
  have hconstant : r.Constant :=
    hsearched rejectingBundle sampleInput 0 r rejectingBundle_reportsAllGroups (.inl hfind)
  have halike : x.Alike r := by
    refine hconstant sampleHandlings [] x ?_ r (List.mem_singleton.2 rfl)
    simp [hcopies]
  have hreports : x.Reports := by
    rintro _ ⟨⟩
    exact rejectingBundle_reportsAllGroups
  exact ⟨⟨r, x, x, hfind, hcopies, rfl, rfl, halike, halike, rfl⟩, hmade x hreports⟩

end LazyMatch
