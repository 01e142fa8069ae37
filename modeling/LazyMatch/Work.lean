import LazyMatch.Automaton

/-!
# Work

What a computation costs is part of what it says: `Work α` is an answer together with the list of
events on the way to it. An event is one run of an automaton, one access to capture groups that
counts towards the usage of a pattern, or one call of a compiler. The events of a computation that
fails are those up to its failure.
-/

namespace LazyMatch

/-- The part that an automaton plays. -/
inductive Role
  | forward
  | backward
  | capture
  | eager
deriving DecidableEq, Repr

/-- One run of an automaton: what was asked and what it answered. -/
structure Run where
  role : Role
  origin : Int
  start : Int
  limit : Int
  answer : Except Fault Outcome

/-- Something that a computation does besides computing. -/
inductive Event
  | run (run : Run)
  /-- The capture groups of a match are asked for. -/
  | groupAccess
  /-- A compiler is asked for the automata of a pattern. -/
  | compile
  /-- A compiler is asked for an automaton that finds matches and groups in one scan. -/
  | compileEager

/-- An answer, and the events that led to it. -/
structure Work (α : Type) where
  answer : Except Fault α
  events : List Event

namespace Work

variable {α β : Type}

def fail (fault : Fault) : Work α := ⟨.error fault, []⟩

def record (event : Event) : Work Unit := ⟨.ok (), [event]⟩

/-- Continues with an answer; a failure ends the work. -/
def andThen (work : Work α) (next : α → Work β) : Work β :=
  match work.answer with
  | .ok a =>
    let rest := next a
    ⟨rest.answer, work.events ++ rest.events⟩
  | .error fault => ⟨.error fault, work.events⟩

instance : Monad Work where
  pure a := ⟨.ok a, []⟩
  bind := andThen

@[simp] theorem answer_pure (a : α) : (pure a : Work α).answer = .ok a := rfl

@[simp] theorem events_pure (a : α) : (pure a : Work α).events = [] := rfl

@[simp] theorem answer_fail (fault : Fault) : (fail fault : Work α).answer = .error fault := rfl

@[simp] theorem events_fail (fault : Fault) : (fail fault : Work α).events = [] := rfl

theorem bind_of_ok {work : Work α} {a : α} (h : work.answer = .ok a) (next : α → Work β) :
    work >>= next = ⟨(next a).answer, work.events ++ (next a).events⟩ := by
  change andThen work next = _
  simp [andThen, h]

theorem bind_of_error {work : Work α} {fault : Fault} (h : work.answer = .error fault)
    (next : α → Work β) : work >>= next = ⟨.error fault, work.events⟩ := by
  change andThen work next = _
  simp [andThen, h]

theorem exists_of_bind_eq_ok {work : Work α} {next : α → Work β} {b : β}
    (h : (work >>= next).answer = .ok b) :
    ∃ a, work.answer = .ok a ∧ (next a).answer = .ok b := by
  cases hwork : work.answer with
  | ok a =>
    rw [bind_of_ok hwork] at h
    exact ⟨a, rfl, h⟩
  | error fault =>
    rw [bind_of_error hwork] at h
    cases h

theorem events_bind_of_silent (work : Work α) {next : α → Work β}
    (h : ∀ a, (next a).events = []) : (work >>= next).events = work.events := by
  cases hwork : work.answer with
  | ok a => rw [bind_of_ok hwork, h a, List.append_nil]
  | error fault => rw [bind_of_error hwork]

end Work

/-- Runs an automaton and records it. -/
def Automaton.run (a : Automaton) (role : Role) (input : Input) (origin start limit : Int) :
    Work Outcome :=
  let answer := a.scan input origin start limit
  ⟨answer, [.run { role, origin, start, limit, answer }]⟩

/-- A run of which only the answer is used is all that happens. -/
theorem Automaton.run_bind {α : Type} (a : Automaton) (role : Role) (input : Input)
    (origin start limit : Int) {next : Outcome → Work α}
    (h : ∀ outcome, (next outcome).events = []) :
    (a.run role input origin start limit >>= next) =
      ⟨(a.scan input origin start limit).bind fun outcome => (next outcome).answer,
        [.run ⟨role, origin, start, limit, a.scan input origin start limit⟩]⟩ := by
  have hevents : (a.run role input origin start limit).events =
      [.run ⟨role, origin, start, limit, a.scan input origin start limit⟩] := rfl
  cases hscan : a.scan input origin start limit with
  | ok outcome =>
    have hrun : (a.run role input origin start limit).answer = .ok outcome := hscan
    rw [Work.bind_of_ok hrun, h outcome, List.append_nil, hevents, hscan]
    rfl
  | error fault =>
    have hrun : (a.run role input origin start limit).answer = .error fault := hscan
    rw [Work.bind_of_error hrun, hevents, hscan]
    rfl

/-! ## Work on a value -/

/-- What an operation on a value of type `σ` leaves: its answer, the value afterwards, and the
events. A failed operation may have changed the value. -/
structure Turn (σ α : Type) where
  answer : Except Fault α
  next : σ
  events : List Event

namespace Turn

variable {σ α β : Type}

def done (a : α) (value : σ) : Turn σ α := ⟨.ok a, value, []⟩

def failed (fault : Fault) (value : σ) : Turn σ α := ⟨.error fault, value, []⟩

/-- Continues with an answer and the value that the operation left. -/
def andThen (turn : Turn σ α) (next : α → σ → Turn σ β) : Turn σ β :=
  match turn.answer with
  | .ok a =>
    let rest := next a turn.next
    ⟨rest.answer, rest.next, turn.events ++ rest.events⟩
  | .error fault => ⟨.error fault, turn.next, turn.events⟩

def map (f : α → β) (turn : Turn σ α) : Turn σ β :=
  ⟨turn.answer.map f, turn.next, turn.events⟩

/-- Goes on next to a value that is left alone. -/
def beside {τ : Type} (turn : Turn σ α) (other : τ) : Turn (σ × τ) α :=
  ⟨turn.answer, (turn.next, other), turn.events⟩

@[simp] theorem answer_done (a : α) (value : σ) : (done a value).answer = .ok a := rfl

@[simp] theorem next_done (a : α) (value : σ) : (done a value).next = value := rfl

@[simp] theorem events_done (a : α) (value : σ) : (done a value).events = [] := rfl

@[simp] theorem answer_failed (fault : Fault) (value : σ) :
    (failed fault value : Turn σ α).answer = .error fault := rfl

@[simp] theorem next_failed (fault : Fault) (value : σ) :
    (failed fault value : Turn σ α).next = value := rfl

@[simp] theorem events_failed (fault : Fault) (value : σ) :
    (failed fault value : Turn σ α).events = [] := rfl

@[simp] theorem answer_map (f : α → β) (turn : Turn σ α) :
    (turn.map f).answer = turn.answer.map f := rfl

@[simp] theorem next_map (f : α → β) (turn : Turn σ α) : (turn.map f).next = turn.next := rfl

@[simp] theorem events_map (f : α → β) (turn : Turn σ α) : (turn.map f).events = turn.events := rfl

theorem andThen_of_ok {turn : Turn σ α} {a : α} (h : turn.answer = .ok a)
    (next : α → σ → Turn σ β) :
    turn.andThen next =
      ⟨(next a turn.next).answer, (next a turn.next).next,
        turn.events ++ (next a turn.next).events⟩ := by
  simp [andThen, h]

theorem andThen_of_error {turn : Turn σ α} {fault : Fault} (h : turn.answer = .error fault)
    (next : α → σ → Turn σ β) : turn.andThen next = ⟨.error fault, turn.next, turn.events⟩ := by
  simp [andThen, h]

theorem answer_andThen (turn : Turn σ α) (next : α → σ → Turn σ β) :
    (turn.andThen next).answer = turn.answer.bind fun a => (next a turn.next).answer := by
  unfold andThen
  split
  · next a h => simp [h, Except.bind]
  · next fault h => simp [h, Except.bind]

theorem exists_of_andThen_eq_ok {turn : Turn σ α} {next : α → σ → Turn σ β} {b : β}
    (h : (turn.andThen next).answer = .ok b) :
    ∃ a, turn.answer = .ok a ∧ (next a turn.next).answer = .ok b := by
  cases hturn : turn.answer with
  | ok a =>
    rw [andThen_of_ok hturn] at h
    exact ⟨a, rfl, h⟩
  | error fault =>
    rw [andThen_of_error hturn] at h
    cases h

end Turn

/-- Does the work on behalf of a value, and updates the value if it succeeds. -/
def Work.onto {σ α : Type} (work : Work α) (value : σ) (update : α → σ) : Turn σ α :=
  match work.answer with
  | .ok a => ⟨.ok a, update a, work.events⟩
  | .error fault => ⟨.error fault, value, work.events⟩

@[simp] theorem Work.answer_onto {σ α : Type} (work : Work α) (value : σ) (update : α → σ) :
    (work.onto value update).answer = work.answer := by
  unfold Work.onto
  split <;> simp_all

@[simp] theorem Work.events_onto {σ α : Type} (work : Work α) (value : σ) (update : α → σ) :
    (work.onto value update).events = work.events := by
  unfold Work.onto
  split <;> rfl

theorem Work.next_onto_of_ok {σ α : Type} {work : Work α} {a : α} (h : work.answer = .ok a)
    (value : σ) (update : α → σ) : (work.onto value update).next = update a := by
  simp [Work.onto, h]

theorem Work.next_onto_of_error {σ α : Type} {work : Work α} {fault : Fault}
    (h : work.answer = .error fault) (value : σ) (update : α → σ) :
    (work.onto value update).next = value := by
  simp [Work.onto, h]

theorem Work.onto_self {σ α : Type} (work : Work α) (value : σ) :
    (work.onto value fun _ => value) = ⟨work.answer, value, work.events⟩ := by
  unfold Work.onto
  split <;> simp_all

/-! ## Counting -/

def Event.isGroupAccess : Event → Bool
  | groupAccess => true
  | run _ => false
  | compile => false
  | compileEager => false

/-- How often each thing happened. -/
structure Tally where
  forward : Nat := 0
  backward : Nat := 0
  capture : Nat := 0
  eager : Nat := 0
  compile : Nat := 0
  compileEager : Nat := 0
deriving DecidableEq, Repr

def Tally.add (t : Tally) : Event → Tally
  | .run { role := .forward, .. } => { t with forward := t.forward + 1 }
  | .run { role := .backward, .. } => { t with backward := t.backward + 1 }
  | .run { role := .capture, .. } => { t with capture := t.capture + 1 }
  | .run { role := .eager, .. } => { t with eager := t.eager + 1 }
  | .groupAccess => t
  | .compile => { t with compile := t.compile + 1 }
  | .compileEager => { t with compileEager := t.compileEager + 1 }

def Tally.addAll (t : Tally) (events : List Event) : Tally :=
  events.foldl add t

end LazyMatch
