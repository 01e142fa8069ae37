import LazyMatch.Result

/-!
# Finding matches

Two ways to find the first match at or after a position. `Bundle.find` runs one automaton of a
bundle and leaves pending whatever that run does not tell: usually the forward automaton, or the
backward one from the end of the input if its matches touch that end. `Automaton.find` runs an
automaton that finds the match and all its groups in one scan.
-/

namespace LazyMatch

namespace Bundle

/-- What the search that began at `origin` needs to finish a match. -/
def pending (b : Bundle) (input : Input) (origin : Int) : Pending where
  bundle := b
  input
  origin
  counted := true

/-- The match whose end the forward automaton found. -/
def resultFromStop (b : Bundle) (input : Input) (origin stop : Int) : Result :=
  match b.templates[0]? with
  | some template =>
    if b.singleTemplate then template.resultFromStop stop
    else .lateTemplate (b.pending input origin) stop none none
  | none =>
    if b.capture.isNone then
      -- A match that ends where the search began is empty, so its start is known as well.
      if stop = origin then .single stop stop
      else if b.forward.anchored || b.sticky then .single origin stop
      else .lateStart (b.pending input origin) stop none
    else if b.startsAtOrigin then .lateGroups (b.pending input origin) stop (some origin) none
    else .lateGroups (b.pending input origin) stop none none

/-- Searches from `origin` on for the end of a match. -/
def findForward (b : Bundle) (input : Input) (origin : Int) : Work Result := do
  let outcome ← b.forward.run .forward input origin origin input.size
  if outcome.found then
    return b.resultFromStop input origin outcome.value
  else
    return .noMatch

/-- The match that ends with the input and for which the backward automaton reported `value`. -/
def resultFromValue (b : Bundle) (input : Input) (origin value : Int) : Except Fault Result :=
  if b.manyTemplates then
    (b.templateNumber value).map fun number =>
      (b.template number).resultFromStop input.size
  else
    match b.templates[0]? with
    -- A backward scan stops one position before the start of the match.
    | some template => .ok (template.resultFromStart (value + 1))
    | none =>
      if b.capture.isSome then
        .ok (.lateGroups (b.pending input origin) input.size (some (value + 1)) none)
      else
        .ok (.single (value + 1) input.size)

/-- Searches for a match that ends with the input, by scanning back from there. -/
def findBackward (b : Bundle) (backward : Automaton) (input : Input) (origin : Int) :
    Work Result := do
  let limit := (b.pending input origin).floor
  -- The first byte to read is the last of the input.
  let outcome ← backward.run .backward input 0 ((input.size : Int) - 1) limit
  if outcome.found then
    ⟨b.resultFromValue input origin outcome.value, []⟩
  else
    return .noMatch

/-- The first match at or after `origin`, found by one run of one automaton. -/
def find (b : Bundle) (input : Input) (origin : Int) : Work Result :=
  match b.backward with
  | some backward =>
    if backward.anchored then b.findBackward backward input origin
    else b.findForward input origin
  | none => b.findForward input origin

end Bundle

/-- The first match at or after `origin` with all its groups, found by one run. -/
def Automaton.find (a : Automaton) (input : Input) (origin : Int) : Work Result := do
  let outcome ← a.run .eager input origin origin input.size
  match outcome.boundaries? with
  | some boundaries => return .groups boundaries
  | none => return .noMatch

end LazyMatch
