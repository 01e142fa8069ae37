import LazyMatch.Pending

/-!
# Results

A `Result` is what a search answers. Its end is always known; its start and its groups may be left
pending, and each is found at most once, by the first access that needs it. An access is a `Turn`:
it gives its answer together with the result as it is afterwards, with what it has found. A copy of
a result is the same value, so it finds the rest on its own.
-/

namespace LazyMatch

/-- The answer of a search. -/
inductive Result
  | noMatch
  /-- A match without groups of its own, whose place is known. -/
  | single (start stop : Int)
  /-- A match without groups of its own, whose start is found on demand. -/
  | lateStart (pending : Pending) (stop : Int) (start? : Option Int)
  /-- A match whose groups are known. -/
  | groups (boundaries : Array Int)
  /-- A match whose groups, and possibly whose start, are found on demand. -/
  | lateGroups (pending : Pending) (stop : Int) (start? : Option Int)
      (groups? : Option (Array Int))
  /-- A match whose template is found on demand. -/
  | lateTemplate (pending : Pending) (stop : Int) (start? : Option Int)
      (groups? : Option (Array Int))

namespace Template

/-- The match that a template describes, from its start. -/
def resultFromStart (t : Template) (start : Int) : Result :=
  if t.distances.size = 2 then .single start (start + t.length.toNat)
  else .groups (t.boundaries start)

/-- The match that a template describes, from its end. -/
def resultFromStop (t : Template) (stop : Int) : Result :=
  t.resultFromStart (stop - t.length.toNat)

end Template

namespace Result

def found : Result → Bool
  | noMatch => false
  | single .. => true
  | lateStart .. => true
  | groups .. => true
  | lateGroups .. => true
  | lateTemplate .. => true

/-- The end of the match, which is always known. -/
def stop? : Result → Option Int
  | noMatch => none
  | single _ stop => some stop
  | lateStart _ stop _ => some stop
  | groups boundaries => some (boundaries.getD 1 unset)
  | lateGroups _ stop _ _ => some stop
  | lateTemplate _ stop _ _ => some stop

/-- The start of the match, as far as it has been found. -/
def start? : Result → Option Int
  | noMatch => none
  | single start _ => some start
  | lateStart _ _ start? => start?
  | groups boundaries => some (boundaries.getD 0 unset)
  | lateGroups _ _ start? _ => start?
  | lateTemplate _ _ start? _ => start?

/-- The boundaries of the groups, as far as they have been found. Matches without groups of their
own have none. -/
def groups? : Result → Option (Array Int)
  | noMatch => none
  | single .. => none
  | lateStart .. => none
  | groups boundaries => some boundaries
  | lateGroups _ _ _ groups? => groups?
  | lateTemplate _ _ _ groups? => groups?

/-- How many groups the result has, the whole match included. -/
def groupCount : Result → UInt32
  | noMatch => 0
  | single .. => 1
  | lateStart .. => 1
  | groups boundaries => UInt32.ofNat (boundaries.size / 2)
  | lateGroups _ _ _ (some boundaries) => UInt32.ofNat (boundaries.size / 2)
  | lateGroups pending _ _ none => pending.bundle.groupCount
  | lateTemplate pending _ _ _ => pending.bundle.groupCount

end Result

end LazyMatch
