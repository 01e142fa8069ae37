import LazyMatch.Result

/-!
# Access to results

The accessors of a result: its start, its end, the number of its groups and the boundaries of each
group. An access to a result without a match, or to a group that it does not have, is refused before
anything is scanned. All others scan only for what is asked and not yet known. A group access to a
match whose start is pending finds the start first and keeps it, even if finding the groups then
fails; finding the template of a match gives its groups, from which its start is read when it is
asked for.
-/

namespace LazyMatch

/-- The boundaries that the template of the match that ends at `stop` gives. To copy them group by
group, as `Result.copyGroups` does, comes to the same for everyone who asks for them. -/
def Pending.templateBoundaries (p : Pending) (stop : Int) : Work (Array Int) := do
  let number ← p.locateTemplate stop
  let template := p.bundle.template number
  return template.boundaries (stop - template.length.toNat)

namespace Result

def start : Result → Turn Result Int
  | noMatch => .failed .noMatch noMatch
  | single start stop => .done start (single start stop)
  | lateStart p stop (some start) => .done start (lateStart p stop (some start))
  | lateStart p stop none =>
    (p.locateStart stop).onto (lateStart p stop none) fun start => lateStart p stop (some start)
  | groups boundaries => .done (boundaries.getD 0 unset) (groups boundaries)
  | lateGroups p stop (some start) groups? =>
    .done start (lateGroups p stop (some start) groups?)
  | lateGroups p stop none groups? =>
    (p.locateStart stop).onto (lateGroups p stop none groups?) fun start =>
      lateGroups p stop (some start) groups?
  | lateTemplate p stop (some start) groups? =>
    .done start (lateTemplate p stop (some start) groups?)
  | lateTemplate p stop none (some boundaries) =>
    -- The template has been found, and with it the start.
    let start := boundaries.getD 0 unset
    .done start (lateTemplate p stop (some start) (some boundaries))
  | lateTemplate p stop none none =>
    ((p.templateBoundaries stop).onto (lateTemplate p stop none none) fun boundaries =>
      lateTemplate p stop (some (boundaries.getD 0 unset)) (some boundaries)).map
        fun boundaries => boundaries.getD 0 unset

def stop (r : Result) : Turn Result Int :=
  match r.stop? with
  | some stop => .done stop r
  | none => .failed .noMatch r

/-- The boundaries of all groups, two for each. -/
def boundaries : Result → Turn Result (Array Int)
  | noMatch => .failed .noMatch noMatch
  | single start stop => .done #[start, stop] (single start stop)
  | lateStart p stop start? =>
    (lateStart p stop start?).start.map fun start => #[start, stop]
  | groups boundaries => .done boundaries (groups boundaries)
  | lateGroups p stop start? (some boundaries) =>
    .done boundaries (lateGroups p stop start? (some boundaries))
  | lateGroups p stop start? none =>
    -- The start is found first, and stays found if the scan for the groups fails.
    (lateGroups p stop start? none).start.andThen fun start started =>
      (p.locateGroups start stop).onto started fun boundaries =>
        lateGroups p stop (some start) (some boundaries)
  | lateTemplate p stop start? (some boundaries) =>
    .done boundaries (lateTemplate p stop start? (some boundaries))
  | lateTemplate p stop start? none =>
    (p.templateBoundaries stop).onto (lateTemplate p stop start? none) fun boundaries =>
      lateTemplate p stop start? (some boundaries)

/-- Boundary `i` among the boundaries of all groups. The end of a match without groups of its own
is read without finding its start. -/
def boundary (r : Result) (i : UInt32) : Turn Result Int :=
  match r with
  | lateStart _ stop _ => if i = 0 then r.start else .done stop r
  | single start stop => .done (if i = 0 then start else stop) r
  | _ => r.boundaries.andThen fun boundaries known => ⟨lookup boundaries i.toNat, known, []⟩

/-- Does `access` if the result has group `index`. -/
def withGroup (r : Result) (index : UInt32) (access : Result → Turn Result Int) :
    Turn Result Int :=
  if r.found then
    if index < r.groupCount then access r
    else .failed (.range (.group index r.groupCount)) r
  else .failed .noMatch r

def startOfGroup (r : Result) (index : UInt32) : Turn Result Int :=
  r.withGroup index fun r => r.boundary (index * 2)

def stopOfGroup (r : Result) (index : UInt32) : Turn Result Int :=
  r.withGroup index fun r => r.boundary (index * 2 + 1)

/-- The boundaries of all groups of a result, asked for one after the other. -/
def copyGroups (r : Result) : Except Fault (Array Int) :=
  (List.range r.groupCount.toNat).foldlM (fun copied i => do
    let low ← (r.startOfGroup (UInt32.ofNat i)).answer
    let high ← (r.stopOfGroup (UInt32.ofNat i)).answer
    return (copied.push low).push high) #[]

end Result

/-- One way of asking a result for something. -/
inductive Accessor
  | start
  | stop
  | groupCount
  | startOfGroup (index : UInt32)
  | stopOfGroup (index : UInt32)
deriving DecidableEq, Repr

def Result.access (r : Result) : Accessor → Turn Result Int
  | .start => r.start
  | .stop => r.stop
  | .groupCount => .done r.groupCount.toNat r
  | .startOfGroup index => r.startOfGroup index
  | .stopOfGroup index => r.stopOfGroup index

end LazyMatch
