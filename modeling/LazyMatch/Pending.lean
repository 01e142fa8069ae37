import LazyMatch.Bundle
import LazyMatch.Work

/-!
# Pending scans

A search finds where a match ends and leaves the rest for later. A `Pending` keeps what the rest
needs: the automata, the input, and where the search began. From the end of the match the backward
automaton finds its start, or which template applies, and from both ends the automaton for the
groups finds the groups.
-/

namespace LazyMatch

/-- The lowest position that a backward scan reaches for a search that began at `origin`: a match
begins at most `lookbehind` bytes before it, and never before the input. -/
def scanFloor (origin : Int) (lookbehind : UInt32) : Int :=
  max (-1) (origin - 1 - lookbehind.toNat)

/-- What is needed to finish a match whose end is known. -/
structure Pending where
  bundle : Bundle
  input : Input
  origin : Int
  /-- Whether asking for the groups counts towards the usage of the pattern. -/
  counted : Bool

namespace Pending

def floor (p : Pending) : Int :=
  scanFloor p.origin p.bundle.forward.lookbehind

/-- What the backward automaton reports when it runs back from the end of a match. -/
def backwardValue (p : Pending) (stop : Int) : Work Int := do
  match p.bundle.backward with
  | none => .fail (.contract .noBackward)
  | some backward =>
    let outcome ← backward.run .backward p.input 0 (stop - 1) p.floor
    if outcome.found then
      return outcome.value
    else
      .fail (.contract .backwardRejected)

/-- The start of the match that ends at `stop`. -/
def locateStart (p : Pending) (stop : Int) : Work Int := do
  let value ← p.backwardValue stop
  -- The scan stops one position before the start.
  return value + 1

/-- A number that is handed on as a 32-bit word. -/
def narrow {n : Nat} (i : Fin n) : Fin n :=
  ⟨(UInt32.ofNat i).toNat, Nat.lt_of_le_of_lt (Nat.mod_le _ _) i.isLt⟩

theorem narrow_of_lt {n : Nat} {i : Fin n} (h : i.val < UInt32.size) : narrow i = i :=
  Fin.ext (Nat.mod_eq_of_lt h)

/-- The number of the template that applies to the match that ends at `stop`. Whether the bundle has
so many templates is tested before the number is cut to a word. -/
def locateTemplate (p : Pending) (stop : Int) : Work (Fin p.bundle.templates.size) := do
  let value ← p.backwardValue stop
  ⟨(p.bundle.templateNumber value).map narrow, []⟩

/-- Notes that the groups are asked for, if that counts. -/
def noteAccess (p : Pending) : Work Unit :=
  if p.counted then .record .groupAccess else pure ()

/-- The boundaries of all groups of the match from `start` to `stop`. -/
def locateGroups (p : Pending) (start stop : Int) : Work (Array Int) := do
  match p.bundle.capture with
  | none => .fail (.contract .noCapture)
  | some capture =>
    -- The access counts even if the scan then fails.
    p.noteAccess
    let outcome ← capture.run .capture p.input p.origin start stop
    match outcome.boundaries? with
    | some boundaries => return boundaries
    | none => .fail (.contract .captureRejected)

end Pending

end LazyMatch
