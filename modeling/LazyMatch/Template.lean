import LazyMatch.Automaton

/-!
# Templates

Some patterns put their groups at fixed distances from the start of every match. A `Template`
records these distances once: two for each group, group 0 being the whole match, and `unset` twice
for a group that never takes part. Shifting a template to the start of a match, or to its end, gives
the boundaries of all groups without a scan.
-/

namespace LazyMatch

namespace Template

/-- What is wrong with the distances `from` and `to` of group `i`. -/
def groupFault (length : UInt32) (i : Nat) (low high : Int) : Option CompileError :=
  if low = unset ∧ high = unset then none
  else if low < 0 ∨ high < low ∨ (length.toNat : Int) < high then some (.groupOutside i)
  else none

/-- What is wrong with the first of the groups numbered from `i`. -/
def groupsFault (length : UInt32) : Nat → List Int → Option CompileError
  | i, low :: high :: rest =>
    match groupFault length i low high with
    | some error => some error
    | none => groupsFault length (i + 1) rest
  | _, _ => none

/-- The first rule of templates that the distances break. -/
def firstFault (length : UInt32) : List Int → Option CompileError
  | low :: high :: rest =>
    if rest.length % 2 ≠ 0 then some .unpairedOffsets
    else if low ≠ 0 ∨ high ≠ (length.toNat : Int) then some .wrongWholeMatch
    else groupsFault length 1 rest
  | _ => some .unpairedOffsets

end Template

/-- The groups of every match of a pattern, relative to the start of the match. -/
structure Template where
  distances : Array Int
  length : UInt32
  sound : Template.firstFault length distances.toList = none

namespace Template

def ofDistances (distances : Array Int) (length : UInt32) : Except CompileError Template :=
  match h : firstFault length distances.toList with
  | none => .ok { distances, length, sound := h }
  | some error => .error error

/-- How many groups the template holds, the whole match included. -/
def groupCount (t : Template) : UInt32 :=
  UInt32.ofNat (t.distances.size / 2)

/-- Moves a distance, unless its group takes no part. -/
def shift (start distance : Int) : Int :=
  if distance = unset then unset else distance + start

/-- The boundaries of all groups of a match that begins at `start`. -/
def boundaries (t : Template) (start : Int) : Array Int :=
  t.distances.map (shift start)

theorem two_le_size (t : Template) : 2 ≤ t.distances.size := by
  have h := t.sound
  unfold firstFault at h
  split at h
  · next e => rw [← Array.length_toList, e]; simp
  · exact absurd h (by simp)

theorem boundaries_size (t : Template) (start : Int) :
    (t.boundaries start).size = t.distances.size := by
  simp [boundaries]

end Template

end LazyMatch
