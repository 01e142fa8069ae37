import LazyMatch.Client
import LazyMatch.Proofs.Result.Finding

/-!
# What a client is told

A call of a client ends with a code, and stores answers with the code for success only. This module
says of each call how that comes about: which requests are refused (`Client.Admits`), and what
becomes of the others, in terms of the search of the pattern and of the access to the result that
the call stands for. An access that stores is compared with the one that it stores the answer of
(`Delivery.Delivers`): it stores all of it or nothing. Nothing but these comparisons and the list of
the cases of a search looks at how the calls are made.
-/

namespace LazyMatch

theorem Handle.credit_nil (h : Handle) : h.credit [] = h := by
  cases h with
  | null => rfl
  | hollow => rfl
  | regex r =>
    have hself : (fun m : Matcher => m.credit []) = id := by
      funext m
      simp [Matcher.credit, Usage.countAccesses]
    simp [credit, Regex.credit, hself]

namespace Client

variable {α : Type} {c : Client} {name place : String} {buffer : Buffer} {origin : UInt32}
  {regex : Regex} {input : Input}

/-! ## Searches -/

/-- The arguments of a search are in order: the handle has a pattern, the buffer stands for an
input, and the search is to begin in it or at its end. -/
structure Admits (c : Client) (buffer : Buffer) (origin : UInt32) (regex : Regex) (input : Input) :
    Prop where
  handle : c.handle = .regex regex
  bytes : buffer.input? = some input
  inside : origin.toNat ≤ input.size

theorem Admits.unique (h : c.Admits buffer origin regex input) {regex' : Regex} {input' : Input}
    (h' : c.Admits buffer origin regex' input') : regex = regex' ∧ input = input' := by
  constructor
  · cases h.handle.symm.trans h'.handle
    rfl
  · exact Option.some.inj (h.bytes.symm.trans h'.bytes)

/-- What a search with a place for the result tells and leaves. -/
inductive Searched (c : Client) (place : String) (buffer : Buffer) (origin : UInt32) :
    Code × Client → Prop
  | refused (h : ∀ regex input, ¬ c.Admits buffer origin regex input) :
      Searched c place buffer origin (.invalid, { c with results := c.results.remove place })
  | answered {regex : Regex} {input : Input} {r : Result} (h : c.Admits buffer origin regex input)
      (hr : (regex.search input origin.toNat).answer = .ok r) :
      Searched c place buffer origin
        (.success,
          { c with
            handle := .regex (regex.search input origin.toNat).next
            results := (c.results.remove place).put place r
            tally := c.tally.addAll (regex.search input origin.toNat).events })
  | failed {regex : Regex} {input : Input} {fault : Fault}
      (h : c.Admits buffer origin regex input)
      (hfault : (regex.search input origin.toNat).answer = .error fault) :
      Searched c place buffer origin
        (fault.searchCode,
          { c with
            handle := .regex (regex.search input origin.toNat).next
            results := c.results.remove place
            tally := c.tally.addAll (regex.search input origin.toNat).events })

theorem search_of_not_admits (h : ∀ regex input, ¬ c.Admits buffer origin regex input) :
    c.search (some place) buffer origin =
      (.invalid, { c with results := c.results.remove place }) := by
  unfold search
  dsimp only
  split
  · next regex input hhandle hinput => exact if_neg fun hin => h regex input ⟨hhandle, hinput, hin⟩
  · rfl

theorem search_of_admits (h : c.Admits buffer origin regex input) :
    c.search (some place) buffer origin =
      { c with results := c.results.remove place }.searchRegex regex place input origin := by
  simp only [search, h.handle, h.bytes, if_pos h.inside]

theorem search_cases (c : Client) (place : String) (buffer : Buffer) (origin : UInt32) :
    c.Searched place buffer origin (c.search (some place) buffer origin) := by
  by_cases hadmits : ∃ regex input, c.Admits buffer origin regex input
  · rcases hadmits with ⟨regex, input, h⟩
    rw [search_of_admits h, searchRegex]
    dsimp only
    split
    · next r hr => exact .answered h hr
    · next fault hfault => exact .failed h hfault
  · have hnone : ∀ regex input, ¬ c.Admits buffer origin regex input :=
      fun regex input h => hadmits ⟨regex, input, h⟩
    rw [search_of_not_admits hnone]
    exact .refused hnone

end Client

/-! ## Accesses that store -/

/-- The start of a group, and then its end. -/
def Result.bounds (index : UInt32) (r : Result) : Turn Result (Int × Int) :=
  (r.startOfGroup index).andThen fun low r =>
    (r.stopOfGroup index).map fun high => (low, high)

namespace Delivery

variable {α : Type} {deliver : Delivery} {access : Result → Turn Result α}
  {store : α → Variables → Variables}

/-- An access that stores does what another one does, and stores the answer of that one if there is
one, and otherwise nothing. -/
def Delivers (deliver : Delivery) (access : Result → Turn Result α)
    (store : α → Variables → Variables) : Prop :=
  ∀ r v, deliver r v = match (access r).answer with
    | .ok a => ⟨.ok (), ((access r).next, store a v), (access r).events⟩
    | .error fault => ⟨.error fault, ((access r).next, v), (access r).events⟩

/-- To store what an access answers is to deliver it. -/
theorem delivers_beside (access : Result → Turn Result α) (store : α → Variables → Variables) :
    Delivers (fun r v => ((access r).beside v).andThen fun a (r, v) => .done () (r, store a v))
      access store := by
  intro r v
  dsimp only
  cases hanswer : (access r).answer with
  | ok a =>
    have hbeside : ((access r).beside v).answer = .ok a := hanswer
    rw [Turn.andThen_of_ok hbeside]
    simp [Turn.beside]
  | error fault =>
    have hbeside : ((access r).beside v).answer = .error fault := hanswer
    rw [Turn.andThen_of_error hbeside]
    rfl

theorem delivers_start (place : String) :
    (start place).Delivers Result.start fun start v => v.storeWord place start :=
  delivers_beside _ _

theorem delivers_stop (place : String) :
    (stop place).Delivers Result.stop fun stop v => v.storeWord place stop :=
  delivers_beside _ _

/-- The start of a group is not stored before its end is found. -/
theorem delivers_group (index : UInt32) (low high : String) :
    (group index low high).Delivers (Result.bounds index) fun bounds v =>
      (v.storeOffset low bounds.1).storeOffset high bounds.2 := by
  intro r v
  have hstop := delivers_beside (Result.stopOfGroup · index)
  unfold group Result.bounds
  cases hlow : (r.startOfGroup index).answer with
  | error fault =>
    have hbeside : ((r.startOfGroup index).beside v).answer = .error fault := hlow
    rw [Turn.andThen_of_error hbeside, Turn.andThen_of_error hlow]
    rfl
  | ok start =>
    have hbeside : ((r.startOfGroup index).beside v).answer = .ok start := hlow
    rw [Turn.andThen_of_ok hbeside, Turn.andThen_of_ok hlow]
    have hrest := hstop (fun stop v => (v.storeOffset low start).storeOffset high stop)
      (r.startOfGroup index).next v
    dsimp only [Turn.beside, Turn.map] at hrest ⊢
    rw [hrest]
    cases ((r.startOfGroup index).next.stopOfGroup index).answer <;> rfl

end Delivery

namespace Client

variable {α : Type} {c : Client} {name place : String} {access : Result → Turn Result α}
  {store : α → Variables → Variables} {deliver : Delivery}

/-! ## Questions to results -/

/-- The client after a result that it keeps has been asked. -/
def asked (c : Client) (name : String) (turn : Turn Result α) (v : Variables) : Client where
  handle := c.handle.credit turn.events
  results := c.results.put name turn.next
  memory := v
  tally := c.tally.addAll turn.events

theorem guardAccess_of_unmatched {r : Result} (hfound : r.found = false) :
    c.guardAccess name r deliver = (.noMatch, c) := by
  simp [guardAccess, hfound]

theorem guardAccess_of_ok (hdeliver : deliver.Delivers access store) {r : Result} {a : α}
    (hfound : r.found = true) (hanswer : (access r).answer = .ok a) :
    c.guardAccess name r deliver =
      (.success, c.asked name (access r) (store a c.memory)) := by
  rw [guardAccess, if_pos hfound, hdeliver, hanswer]
  rfl

theorem guardAccess_of_error (hdeliver : deliver.Delivers access store) {r : Result} {fault : Fault}
    (hfound : r.found = true) (hfault : (access r).answer = .error fault) :
    c.guardAccess name r deliver = (fault.accessCode, c.asked name (access r) c.memory) := by
  rw [guardAccess, if_pos hfound, hdeliver, hfault]
  rfl

end Client

end LazyMatch
