import LazyMatch.Proofs.Result.Events
import Mathlib.Logic.Relation

/-!
# How a result is resolved

Every access to a result tells what is known anyway, finds the start, or reads one boundary among
all of them (`Result.access_cases`). On the way the result learns what it had left pending, one
piece at a time, and `Result.Finds` lists the pieces: nothing is learned that the pending scans do
not find, and nothing that is known is ever lost (`Result.access_finds`).
-/

namespace LazyMatch

namespace Result

variable {r r' : Result}

theorem found_eq_isSome (r : Result) : r.found = r.stop?.isSome := by
  cases r <;> rfl

/-! ## What an access comes to -/

/-- What an access comes to. -/
inductive Accessed (r : Result) : Turn Result Int → Prop
  /-- It tells what is known anyway, or refuses what is not there. -/
  | told {answer : Except Fault Int}
      (hrefusal : ∀ fault, answer = .error fault → fault = .noMatch ∨ ∃ e, fault = .range e) :
      Accessed r ⟨answer, r, []⟩
  /-- It finds the start. -/
  | started : Accessed r r.start
  /-- It reads one boundary among all of them. -/
  | spelt (number : Nat) :
      Accessed r (r.boundaries.andThen fun g known => ⟨lookup g number, known, []⟩)

theorem told_ok (r : Result) (position : Int) : r.Accessed (.done position r) := by
  refine .told ?_
  intro fault h
  cases h

theorem boundary_cases (r : Result) (number : UInt32) : r.Accessed (r.boundary number) := by
  cases r with
  | noMatch => exact .spelt number.toNat
  | single start stop => exact told_ok _ _
  | lateStart p stop start? =>
    by_cases hzero : number = 0
    · simpa [boundary, hzero] using Accessed.started (r := .lateStart p stop start?)
    · simpa [boundary, hzero] using told_ok (.lateStart p stop start?) stop
  | groups g => exact .spelt number.toNat
  | lateGroups p stop start? groups? => exact .spelt number.toNat
  | lateTemplate p stop start? groups? => exact .spelt number.toNat

theorem withGroup_cases (r : Result) (index number : UInt32) :
    r.Accessed (r.withGroup index fun r => r.boundary number) := by
  unfold withGroup
  split
  · split
    · exact r.boundary_cases number
    · refine .told ?_
      rintro fault ⟨⟩
      exact .inr ⟨_, rfl⟩
  · refine .told ?_
    rintro fault ⟨⟩
    exact .inl rfl

/-- Every access comes to one of these things. -/
theorem access_cases (r : Result) (a : Accessor) : r.Accessed (r.access a) := by
  cases a with
  | start => exact .started
  | stop =>
    change r.Accessed r.stop
    unfold Result.stop
    split
    · exact told_ok r _
    · refine .told ?_
      rintro fault ⟨⟩
      exact .inl rfl
  | groupCount => exact told_ok r _
  | startOfGroup index => exact r.withGroup_cases index _
  | stopOfGroup index => exact r.withGroup_cases index _

/-- What is true of staying as it is, of finding the start and of finding all boundaries is true of
every access. -/
theorem access_induction {P : Result → List Event → Prop} (r : Result) (a : Accessor)
    (htold : P r []) (hstart : P r.start.next r.start.events)
    (hboundaries : P r.boundaries.next r.boundaries.events) :
    P (r.access a).next (r.access a).events := by
  have hcases := r.access_cases a
  generalize r.access a = turn at hcases ⊢
  cases hcases with
  | told => exact htold
  | started => exact hstart
  | spelt number =>
    rcases andThen_lookup_keeps r.boundaries number with ⟨hevents, hnext⟩
    rw [hevents, hnext]
    exact hboundaries

/-! ## What a result learns -/

/-- A result learns one piece of what it had left pending. -/
inductive Finds : Result → Result → Prop
  | start {p : Pending} {stop start : Int} (h : (p.locateStart stop).answer = .ok start) :
      Finds (.lateStart p stop none) (.lateStart p stop (some start))
  | startOfGroups {p : Pending} {stop start : Int} {groups? : Option (Array Int)}
      (h : (p.locateStart stop).answer = .ok start) :
      Finds (.lateGroups p stop none groups?) (.lateGroups p stop (some start) groups?)
  | groups {p : Pending} {stop start : Int} {g : Array Int}
      (h : (p.locateGroups start stop).answer = .ok g) :
      Finds (.lateGroups p stop (some start) none) (.lateGroups p stop (some start) (some g))
  | template {p : Pending} {stop : Int} {start? : Option Int} {g : Array Int}
      (h : (p.templateBoundaries stop).answer = .ok g) :
      Finds (.lateTemplate p stop start? none) (.lateTemplate p stop start? (some g))
  /-- The start of a template that has been found is read off its boundaries. -/
  | startOfTemplate {p : Pending} {stop : Int} {g : Array Int} :
      Finds (.lateTemplate p stop none (some g))
        (.lateTemplate p stop (some (matchStart g)) (some g))

theorem Finds.pending?_eq (h : Finds r r') : r'.pending? = r.pending? := by
  cases h <;> rfl

theorem Finds.found_eq (h : Finds r r') : r'.found = r.found := by
  cases h <;> rfl

theorem Finds.stop?_eq (h : Finds r r') : r'.stop? = r.stop? := by
  cases h <;> rfl

/-- The start that a result would have told is the start that it tells once it has learnt more. -/
theorem Finds.answer_start_eq (h : Finds r r') : r'.start.answer = r.start.answer := by
  cases h with
  | start hfound => simp [Result.start, hfound]
  | startOfGroups hfound => simp [Result.start, hfound]
  | groups => rfl
  | @template p stop start? g hfound =>
    cases start? with
    | some start => rfl
    | none => simp [Result.start, hfound, Except.map]
  | startOfTemplate => rfl

theorem answer_stop_eq_of_stop? (h : r'.stop? = r.stop?) : r'.stop.answer = r.stop.answer := by
  unfold Result.stop
  rw [h]
  split <;> rfl

/-- Work on behalf of a result leads where every way to go on leads. -/
theorem finds_onto {α : Type} {work : Work α} {value : Result} {update : α → Result}
    (hvalue : Relation.ReflTransGen Finds r value)
    (hupdate : ∀ a, work.answer = .ok a → Relation.ReflTransGen Finds r (update a)) :
    Relation.ReflTransGen Finds r (work.onto value update).next := by
  cases h : work.answer with
  | ok a =>
    rw [Work.next_onto_of_ok h]
    exact hupdate a h
  | error fault =>
    rw [Work.next_onto_of_error h]
    exact hvalue

theorem start_finds (r : Result) : Relation.ReflTransGen Finds r r.start.next := by
  cases r with
  | noMatch => exact .refl
  | single start stop => exact .refl
  | lateStart p stop start? =>
    cases start? with
    | some start => exact .refl
    | none => exact finds_onto .refl fun start h => .single (.start h)
  | groups g => exact .refl
  | lateGroups p stop start? groups? =>
    cases start? with
    | some start => exact .refl
    | none => exact finds_onto .refl fun start h => .single (.startOfGroups h)
  | lateTemplate p stop start? groups? =>
    cases start? with
    | some start => exact .refl
    | none =>
      cases groups? with
      | some g => exact .single .startOfTemplate
      | none =>
        rw [Result.start, Turn.next_map]
        refine finds_onto .refl ?_
        intro g h
        exact (Relation.ReflTransGen.single (.template h)).tail .startOfTemplate

/-- Once a result has told its start, it knows it. -/
theorem start?_of_answer_start {start : Int} (h : r.start.answer = .ok start) :
    r.start.next.start? = some start := by
  cases r with
  | noMatch => cases h
  | single low stop => exact congrArg some (Except.ok.inj h)
  | lateStart p stop start? =>
    cases start? with
    | some known => exact congrArg some (Except.ok.inj h)
    | none =>
      rw [Result.start, Work.answer_onto] at h
      rw [Result.start, Work.next_onto_of_ok h]
      rfl
  | groups g => exact congrArg some (Except.ok.inj h)
  | lateGroups p stop start? groups? =>
    cases start? with
    | some known => exact congrArg some (Except.ok.inj h)
    | none =>
      rw [Result.start, Work.answer_onto] at h
      rw [Result.start, Work.next_onto_of_ok h]
      rfl
  | lateTemplate p stop start? groups? =>
    cases start? with
    | some known => exact congrArg some (Except.ok.inj h)
    | none =>
      cases groups? with
      | some g => exact congrArg some (Except.ok.inj h)
      | none =>
        rw [Result.start, Turn.answer_map, Work.answer_onto] at h
        cases hg : (p.templateBoundaries stop).answer with
        | error fault =>
          rw [hg] at h
          cases h
        | ok g =>
          rw [hg] at h
          rw [Result.start, Turn.next_map, Work.next_onto_of_ok hg]
          exact congrArg some (Except.ok.inj h)

theorem answer_start_of_start? {start : Int} (h : r.start? = some start) :
    r.start.answer = .ok start := by
  cases r with
  | noMatch => cases h
  | single low stop => exact congrArg Except.ok (Option.some.inj h)
  | lateStart p stop start? =>
    cases h
    rfl
  | groups g => exact congrArg Except.ok (Option.some.inj h)
  | lateGroups p stop start? groups? =>
    cases h
    rfl
  | lateTemplate p stop start? groups? =>
    cases h
    rfl

/-- Where the start of a match with pending groups is found, it is known from then on. -/
theorem next_start_of_lateGroups {p : Pending} {stop start : Int} {start? : Option Int}
    {groups? : Option (Array Int)}
    (h : (Result.lateGroups p stop start? groups?).start.answer = .ok start) :
    (Result.lateGroups p stop start? groups?).start.next =
      .lateGroups p stop (some start) groups? := by
  cases start? with
  | some known =>
    cases h
    rfl
  | none =>
    have hwork : (p.locateStart stop).answer = .ok start := by
      simpa [Result.start] using h
    exact Work.next_onto_of_ok hwork _ _

theorem boundaries_finds (r : Result) : Relation.ReflTransGen Finds r r.boundaries.next := by
  cases r with
  | noMatch => exact .refl
  | single start stop => exact .refl
  | lateStart p stop start? => exact start_finds (.lateStart p stop start?)
  | groups g => exact .refl
  | lateGroups p stop start? groups? =>
    cases groups? with
    | some g => exact .refl
    | none =>
      have hstarted := start_finds (.lateGroups p stop start? none)
      rw [Result.boundaries]
      cases h : (Result.lateGroups p stop start? none).start.answer with
      | ok start =>
        rw [Turn.andThen_of_ok h, next_start_of_lateGroups h]
        rw [next_start_of_lateGroups h] at hstarted
        exact finds_onto hstarted fun g hg => hstarted.tail (.groups hg)
      | error fault =>
        rw [Turn.andThen_of_error h]
        exact hstarted
  | lateTemplate p stop start? groups? =>
    cases groups? with
    | some g => exact .refl
    | none => exact finds_onto .refl fun g h => .single (.template h)

/-- Whatever is asked, the result learns only what its pending scans find. -/
theorem access_finds (r : Result) (a : Accessor) :
    Relation.ReflTransGen Finds r (r.access a).next :=
  access_induction (P := fun next _ => Relation.ReflTransGen Finds r next) r a .refl
    r.start_finds r.boundaries_finds

theorem after_finds (r : Result) (questions : List Accessor) :
    Relation.ReflTransGen Finds r (r.after questions) := by
  induction questions generalizing r with
  | nil => exact .refl
  | cons a questions ih => exact (r.access_finds a).trans (ih (r.access a).next)

/-- What holds of a result, and stays true with every piece that it learns, holds of all that it may
become. -/
theorem finds_preserves {P : Result → Prop} (hfinds : ∀ {r r' : Result}, Finds r r' → P r → P r')
    (h : P r) (hlearnt : Relation.ReflTransGen Finds r r') : P r' := by
  induction hlearnt with
  | refl => exact h
  | tail _ hstep ih => exact hfinds hstep ih

theorem after_preserves {P : Result → Prop} (hfinds : ∀ {r r' : Result}, Finds r r' → P r → P r')
    (h : P r) (questions : List Accessor) : P (r.after questions) :=
  finds_preserves hfinds h (r.after_finds questions)

theorem found_after (r : Result) (questions : List Accessor) : (r.after questions).found = r.found :=
  after_preserves (P := fun r' => r'.found = r.found) (fun hstep h => hstep.found_eq.trans h) rfl
    questions

/-- Whatever was asked before, the end is answered as it was at first. -/
theorem access_stop_after (r : Result) (questions : List Accessor) :
    ((r.after questions).access .stop).answer = r.stop.answer :=
  answer_stop_eq_of_stop? (after_preserves (P := fun r' => r'.stop? = r.stop?)
    (fun hstep h => hstep.stop?_eq.trans h) rfl questions)

/-- Whatever was asked before, the start is answered as it was at first. -/
theorem access_start_after (r : Result) (questions : List Accessor) :
    ((r.after questions).access .start).answer = r.start.answer :=
  after_preserves (P := fun r' => r'.start.answer = r.start.answer)
    (fun hstep h => hstep.answer_start_eq.trans h) rfl questions

theorem answer_stop_after {stop : Int} (h : r.stop? = some stop) (questions : List Accessor) :
    ((r.after questions).access .stop).answer = .ok stop := by
  rw [access_stop_after, Result.stop, h]
  rfl

/-- A start that is known is answered, whatever was asked before. -/
theorem answer_start_after {start : Int} (h : r.start? = some start) (questions : List Accessor) :
    ((r.after questions).access .start).answer = .ok start :=
  (r.access_start_after questions).trans (answer_start_of_start? h)

end Result

end LazyMatch
