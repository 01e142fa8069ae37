import LazyMatch.Result.Access

/-!
# Results as text

A result is written as its kind and, for a match, the half-open interval that it covers. Writing
finds nothing: a start that is still pending is written as a question mark (`Result.print_eq`).
-/

namespace LazyMatch

namespace Result

/-- The name of the kind of a result. Known groups are a kind of groups on demand. -/
def label : Result → String
  | noMatch => "no_match"
  | single .. => "single"
  | lateStart .. => "single_lazy_start"
  | groups .. => "lazy_capture_groups"
  | lateGroups .. => "lazy_capture_groups"
  | lateTemplate .. => "trace_finder"

/-- The text of an offset that may be unknown. -/
def offsetText : Option Int → String
  | some offset => toString offset
  | none => "?"

def text (r : Result) : String :=
  match r.stop? with
  | none => r.label
  | some stop => r.label ++ "[" ++ offsetText r.start? ++ "," ++ toString stop ++ ")"

/-- Writes a result by asking it for its end, and for its start if that is known. -/
def print (r : Result) : Turn Result String :=
  if r.found then
    (if r.start?.isSome then r.start.map toString else .done "?" r).andThen fun start r =>
      r.stop.map fun stop => r.label ++ "[" ++ start ++ "," ++ toString stop ++ ")"
  else .done r.label r

theorem print_eq (r : Result) : r.print = .done r.text r := by
  cases r with
  | noMatch => rfl
  | single start stop => rfl
  | lateStart p stop start? => cases start? <;> rfl
  | groups g => rfl
  | lateGroups p stop start? groups? => cases start? <;> rfl
  | lateTemplate p stop start? groups? => cases start? <;> rfl

end Result

end LazyMatch
