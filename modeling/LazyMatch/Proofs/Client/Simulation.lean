import LazyMatch.Proofs.Client.Calls
import LazyMatch.Proofs.Find.Refinement
import LazyMatch.Session

/-!
# Clients and sessions

A client is told codes, and a session answers or fails. What a client does by calls can be done with
a session instead, by one who looks at the arguments first: refused calls ask nothing of the
session, a search forgets the result before, and a call that asks a result asks the kept one. The
session then goes through the same states (`Client.Mirrors`), whatever is called, and however the
compiler behaves in the meantime; so every call leaves the pattern as the search or the access would
leave it that it stands for, and tells how that went (`Client.run_mirrors`).
-/

namespace LazyMatch

namespace Client

/-- What happens to a client next. -/
inductive Move
  | search (place? : Option String) (buffer : Buffer) (origin : UInt32)
  | found (name : String) (place? : Option String)
  | groupCount (name : String) (place? : Option String)
  | start (name : String) (place? : Option String)
  | stop (name : String) (place? : Option String)
  | group (name : String) (index : UInt32) (low? high? : Option String)
  | freeResult (name : String)
  | freeHandle
  /-- The client gives its variables other values. -/
  | assign (memory : Variables)
  /-- The compiler behaves in another way from now on. -/
  | withCompiler (compiler : Compiler)

/-- There is a place for everything that the move gives. -/
def Move.hasPlaces : Move → Bool
  | .search place? _ _ => place?.isSome
  | .found _ place? => place?.isSome
  | .groupCount _ place? => place?.isSome
  | .start _ place? => place?.isSome
  | .stop _ place? => place?.isSome
  | .group _ _ low? high? => low?.isSome && high?.isSome
  | .freeResult _ => true
  | .freeHandle => true
  | .assign _ => true
  | .withCompiler _ => true

def serve (c : Client) : Move → Code × Client
  | .search place? buffer origin => c.search place? buffer origin
  | .found name place? => c.found name place?
  | .groupCount name place? => c.groupCount name place?
  | .start name place? => c.start name place?
  | .stop name place? => c.stop name place?
  | .group name index low? high? => c.group name index low? high?
  | .freeResult name => c.freeResult name
  | .freeHandle => c.freeHandle
  | .assign memory => (.success, { c with memory })
  | .withCompiler compiler => (.success, c.withCompiler compiler)

def run (c : Client) (moves : List Move) : Client :=
  moves.foldl (fun c move => (c.serve move).2) c

/-- Without a place for what it gives, a move is refused and leaves everything as it is. -/
theorem serve_of_not_hasPlaces (c : Client) {move : Move} (h : move.hasPlaces = false) :
    c.serve move = (.invalid, c) := by
  have hask (name : String) : c.ask name none = (.invalid, c) := by
    unfold ask
    cases c.results.get? name <;> rfl
  have htell (name : String) (store : Variables → String → Result → Variables) :
      c.tell name none store = (.invalid, c) := by
    unfold tell
    cases c.results.get? name <;> rfl
  cases move with
  | search place? =>
    obtain rfl : place? = none := Option.not_isSome_iff_eq_none.1 (ne_true_of_eq_false h)
    rfl
  | found name place? =>
    obtain rfl : place? = none := Option.not_isSome_iff_eq_none.1 (ne_true_of_eq_false h)
    exact htell name fun v place result => v.storeFlag place result.found
  | groupCount name place? =>
    obtain rfl : place? = none := Option.not_isSome_iff_eq_none.1 (ne_true_of_eq_false h)
    exact htell name fun v place result => v.storeCount place result.groupCount
  | start name place? =>
    obtain rfl : place? = none := Option.not_isSome_iff_eq_none.1 (ne_true_of_eq_false h)
    exact hask name
  | stop name place? =>
    obtain rfl : place? = none := Option.not_isSome_iff_eq_none.1 (ne_true_of_eq_false h)
    exact hask name
  | group name index low? high? =>
    cases low? with
    | none => exact hask name
    | some low =>
      obtain rfl : high? = none := Option.not_isSome_iff_eq_none.1 (ne_true_of_eq_false h)
      exact hask name
  | freeResult => cases h
  | freeHandle => cases h
  | assign => cases h
  | withCompiler => cases h

end Client

/-- What a session works with in the place of a handle. -/
def Handle.engine : Handle → Engine
  | null => .idle
  | hollow => .idle
  | regex r => .regex r

theorem Handle.eq_regex_of_engine {h : Handle} {r : Regex} (hengine : h.engine = .regex r) :
    h = .regex r := by
  cases h with
  | null => cases hengine
  | hollow => cases hengine
  | regex r' =>
    cases hengine
    rfl

theorem Handle.engine_credit (h : Handle) (events : List Event) :
    (h.credit events).engine = h.engine.credit events := by
  cases h <;> rfl

namespace Session

def forget (s : Session) (name : String) : Session :=
  { s with kept := s.kept.remove name }

/-- The session after a question to the result under a name, if there is one. -/
def asked {α : Type} (s : Session) (name : String) (access : Result → Turn Result α) : Session :=
  ((s.ask name access).map Turn.next).getD s

/-- A search with a pattern is one of the pattern; only an answer is kept. -/
theorem next_search_of_regex {s : Session} {r : Regex} (h : s.engine = .regex r) (name : String)
    (input : Input) (origin : Int) :
    let searched : Session := { s with
      engine := .regex (r.search input origin).next
      tally := s.tally.addAll (r.search input origin).events }
    (s.search name input origin).next = match (r.search input origin).answer with
      | .ok result => searched.keep name (.matcher s.generation) result
      | .error _ => searched := by
  intro searched
  have hfind : s.find input origin =
      ⟨(r.search input origin).answer, searched, (r.search input origin).events⟩ := by
    rw [find, h]
    rfl
  rw [search, hfind]
  cases hanswer : (r.search input origin).answer with
  | ok result => rw [Turn.andThen_of_ok rfl]; rfl
  | error fault => rw [Turn.andThen_of_error rfl]

/-- A question to a result of the matcher in place counts towards the usage of that matcher. -/
theorem asked_of_kept {α : Type} {s : Session} {name : String} {r : Result}
    (h : s.kept.get? name = some ⟨r, .matcher s.generation⟩) (access : Result → Turn Result α) :
    s.asked name access = { s with
      engine := s.engine.credit (access r).events
      kept := s.kept.put name ⟨(access r).next, .matcher s.generation⟩
      tally := s.tally.addAll (access r).events } := by
  simp [asked, ask, h, observe]

theorem asked_of_none {α : Type} {s : Session} {name : String} (h : s.kept.get? name = none)
    (access : Result → Turn Result α) : s.asked name access = s := by
  simp [asked, ask, h]

/-- What is done with a session in place of a move of a client that has a place for everything. -/
def imitate (s : Session) : Client.Move → Session
  | .search none _ _ => s
  | .search (some place) buffer origin =>
    match s.engine, buffer.input? with
    | .regex _, some input =>
      if origin.toNat ≤ input.size then ((s.forget place).search place input origin.toNat).next
      else s.forget place
    | _, _ => s.forget place
  | .found _ _ => s
  | .groupCount _ _ => s
  | .start name place? => if place?.isSome then s.asked name Result.start else s
  | .stop name place? => if place?.isSome then s.asked name Result.stop else s
  | .group name index low? high? =>
    if low?.isSome && high?.isSome then s.asked name (Result.bounds index) else s
  | .freeResult name => s.forget name
  | .freeHandle => { s with engine := .idle }
  | .assign _ => s
  | .withCompiler compiler => s.withCompiler compiler

/-- A move without a place for what it gives is not imitated. -/
theorem imitate_of_not_hasPlaces (s : Session) {move : Client.Move} (h : move.hasPlaces = false) :
    s.imitate move = s := by
  cases move with
  | search place? =>
    obtain rfl : place? = none := Option.not_isSome_iff_eq_none.1 (ne_true_of_eq_false h)
    rfl
  | found => rfl
  | groupCount => rfl
  | start => exact if_neg (ne_true_of_eq_false h)
  | stop => exact if_neg (ne_true_of_eq_false h)
  | group => exact if_neg (ne_true_of_eq_false h)
  | freeResult => cases h
  | freeHandle => cases h
  | assign => cases h
  | withCompiler => cases h

end Session

namespace Client

variable {α : Type} {c : Client} {s : Session}

/-- Pattern, results and counts are the same on both sides, and the results count towards the usage
of the matcher in place. -/
structure Mirrors (c : Client) (s : Session) : Prop where
  engine : s.engine = c.handle.engine
  kept : ∀ name, s.kept.get? name =
    (c.results.get? name).map fun r => ⟨r, .matcher s.generation⟩
  tally : s.tally = c.tally

namespace Mirrors

theorem new (handle : Handle) : (Client.new handle).Mirrors (.new handle.engine) :=
  ⟨rfl, fun _ => rfl, rfl⟩

theorem forget (h : c.Mirrors s) (name : String) :
    Mirrors { c with results := c.results.remove name } (s.forget name) where
  engine := h.engine
  kept other := by
    by_cases hother : other = name
    · subst hother
      rw [Session.forget, Shelf.get?_remove_self, Shelf.get?_remove_self, Option.map_none]
    · rw [Session.forget, Shelf.get?_remove_of_ne _ hother, Shelf.get?_remove_of_ne _ hother]
      exact h.kept other
  tally := h.tally

/-- Both sides keep the same result under one name. -/
theorem kept_put (h : c.Mirrors s) (name : String) (r : Result) (other : String) :
    (s.kept.put name ⟨r, .matcher s.generation⟩).get? other =
      ((c.results.put name r).get? other).map fun r => ⟨r, .matcher s.generation⟩ := by
  by_cases hother : other = name
  · subst hother
    rw [Shelf.get?_put_self, Shelf.get?_put_self, Option.map_some]
  · rw [Shelf.get?_put_of_ne _ _ hother, Shelf.get?_put_of_ne _ _ hother]
    exact h.kept other

theorem search (h : c.Mirrors s) (place : String) (buffer : Buffer) (origin : UInt32) :
    Mirrors (c.search (some place) buffer origin).2
      (s.imitate (.search (some place) buffer origin)) := by
  have hforgot := h.forget place
  have hsearched := c.search_cases place buffer origin
  generalize c.search (some place) buffer origin = told at hsearched ⊢
  -- Where the client admits the arguments, the session searches with the same pattern.
  have himitate {regex : Regex} {input : Input} (hadmits : c.Admits buffer origin regex input) :
      (s.forget place).engine = .regex regex ∧
        s.imitate (.search (some place) buffer origin) =
          ((s.forget place).search place input origin.toNat).next := by
    have hengine : s.engine = .regex regex := by rw [h.engine, hadmits.handle]; rfl
    refine ⟨hengine, ?_⟩
    simp only [Session.imitate, hengine, hadmits.bytes]
    exact if_pos hadmits.inside
  cases hsearched with
  | refused hnone =>
    have hforget : s.imitate (.search (some place) buffer origin) = s.forget place := by
      simp only [Session.imitate]
      split
      · next regex input hengine hbytes =>
        have hhandle := Handle.eq_regex_of_engine (h.engine.symm.trans hengine)
        exact if_neg fun hinside => hnone regex input ⟨hhandle, hbytes, hinside⟩
      · rfl
    rw [hforget]
    exact hforgot
  | answered hadmits hr =>
    rcases himitate hadmits with ⟨hengine, hnext⟩
    rw [hnext, Session.next_search_of_regex hengine, hr]
    exact ⟨rfl, hforgot.kept_put place _, congrArg (Tally.addAll · _) h.tally⟩
  | failed hadmits hfault =>
    rcases himitate hadmits with ⟨hengine, hnext⟩
    rw [hnext, Session.next_search_of_regex hengine, hfault]
    exact ⟨rfl, hforgot.kept, congrArg (Tally.addAll · _) h.tally⟩

theorem asked (h : c.Mirrors s) {name : String} {r : Result} (hr : c.results.get? name = some r)
    (access : Result → Turn Result α) (v : Variables) :
    Mirrors (c.asked name (access r) v) (s.asked name access) := by
  have hkept : s.kept.get? name = some ⟨r, .matcher s.generation⟩ := by
    rw [h.kept, hr, Option.map_some]
  rw [Session.asked_of_kept hkept]
  refine ⟨?_, h.kept_put name _, congrArg (Tally.addAll · _) h.tally⟩
  calc
    s.engine.credit (access r).events = c.handle.engine.credit (access r).events := by rw [h.engine]
    _ = (c.handle.credit (access r).events).engine := (Handle.engine_credit _ _).symm

/-- A question that a result without a match refuses changes nothing on either side; others change
both sides alike, whatever is stored. -/
theorem ask (h : c.Mirrors s) (name : String) {deliver : Delivery}
    {access : Result → Turn Result α} {store : α → Variables → Variables}
    (hdeliver : deliver.Delivers access store)
    (hplain : access .noMatch = .failed .noMatch .noMatch) :
    Mirrors (c.ask name (some deliver)).2 (s.asked name access) := by
  cases hr : c.results.get? name with
  | none =>
    have hkept : s.kept.get? name = none := by rw [h.kept, hr, Option.map_none]
    simp only [Client.ask, hr]
    rw [Session.asked_of_none hkept]
    exact h
  | some r =>
    simp only [Client.ask, hr]
    cases hfound : r.found with
    | true =>
      cases hanswer : (access r).answer with
      | ok a =>
        rw [guardAccess_of_ok hdeliver hfound hanswer]
        exact h.asked hr access _
      | error fault =>
        rw [guardAccess_of_error hdeliver hfound hanswer]
        exact h.asked hr access _
    | false =>
      rw [guardAccess_of_unmatched hfound]
      cases Result.eq_noMatch_of_found hfound
      -- Putting back the result that is kept already cannot be told from leaving it.
      have hasked := h.asked hr access c.memory
      rw [hplain] at hasked
      refine ⟨hasked.engine.trans ?_, fun other => (hasked.kept other).trans ?_, hasked.tally⟩
      · exact congrArg Handle.engine c.handle.credit_nil
      · by_cases hother : other = name
        · subst hother
          exact congrArg _ ((Shelf.get?_put_self _ _ _).trans hr.symm)
        · exact congrArg _ (Shelf.get?_put_of_ne _ _ hother)

theorem tell (h : c.Mirrors s) (name : String) (place? : Option String)
    (store : Variables → String → Result → Variables) :
    (c.tell name place? store).2.Mirrors s := by
  unfold Client.tell
  split
  · exact ⟨h.engine, h.kept, h.tally⟩
  · exact h

theorem withCompiler (h : c.Mirrors s) (compiler : Compiler) :
    (c.withCompiler compiler).Mirrors (s.withCompiler compiler) := by
  rcases c with ⟨handle, results, memory, tally⟩
  rcases s with ⟨engine, usage, generation, kept, tally'⟩
  rcases h with ⟨hengine, hkept, htally⟩
  cases hengine
  cases handle with
  | null => exact ⟨rfl, hkept, htally⟩
  | hollow => exact ⟨rfl, hkept, htally⟩
  | regex r => exact ⟨rfl, hkept, htally⟩

/-- Every move is mirrored by what is done in its place. -/
theorem serve (h : c.Mirrors s) (move : Move) : (c.serve move).2.Mirrors (s.imitate move) := by
  cases hplaces : move.hasPlaces with
  | false =>
    rw [c.serve_of_not_hasPlaces hplaces, s.imitate_of_not_hasPlaces hplaces]
    exact h
  | true =>
    cases move with
    | search place? buffer origin =>
      rcases Option.isSome_iff_exists.1 hplaces with ⟨place, rfl⟩
      exact h.search place buffer origin
    | found name place? => exact h.tell name place? _
    | groupCount name place? => exact h.tell name place? _
    | start name place? =>
      rcases Option.isSome_iff_exists.1 hplaces with ⟨place, rfl⟩
      exact h.ask name (Delivery.delivers_start place) rfl
    | stop name place? =>
      rcases Option.isSome_iff_exists.1 hplaces with ⟨place, rfl⟩
      exact h.ask name (Delivery.delivers_stop place) rfl
    | group name index low? high? =>
      rcases Bool.and_eq_true_iff.1 hplaces with ⟨hlow, hhigh⟩
      rcases Option.isSome_iff_exists.1 hlow with ⟨low, rfl⟩
      rcases Option.isSome_iff_exists.1 hhigh with ⟨high, rfl⟩
      exact h.ask name (Delivery.delivers_group index low high) rfl
    | freeResult name => exact h.forget name
    | freeHandle => exact ⟨rfl, h.kept, h.tally⟩
    | assign memory => exact ⟨h.engine, h.kept, h.tally⟩
    | withCompiler compiler => exact h.withCompiler compiler

theorem run (h : c.Mirrors s) (moves : List Move) :
    (c.run moves).Mirrors (moves.foldl Session.imitate s) := by
  induction moves generalizing c s with
  | nil => exact h
  | cons move moves ih => exact ih (h.serve move)

end Mirrors

end Client

/-! ## A group of which half is missing -/

end LazyMatch
