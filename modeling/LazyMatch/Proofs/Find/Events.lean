import LazyMatch.Proofs.Find.Fresh
import LazyMatch.Proofs.Result.Events

/-!
# What a search costs

Neither of the two ways to search scans for the groups. What a search leaves pending belongs to it,
and counts towards the usage of the pattern when it is asked for.
-/

namespace LazyMatch

theorem Template.pending?_resultFromStart (t : Template) (start : Int) :
    (t.resultFromStart start).pending? = none := by
  unfold resultFromStart
  split <;> rfl

namespace Bundle

variable {b : Bundle} {input : Input} {origin : Int} {r : Result}

/-- What is left pending belongs to the search that left it. -/
theorem Fresh.eq_pending (h : b.Fresh input origin r) :
    ∀ p ∈ r.pending?, p = b.pending input origin := by
  cases h with
  | noMatch => rintro _ ⟨⟩
  | single start stop => rintro _ ⟨⟩
  | template t start => simp [t.pending?_resultFromStart]
  | lateStart stop => rintro _ ⟨⟩; rfl
  | lateGroups stop start? => rintro _ ⟨⟩; rfl
  | lateTemplate stop => rintro _ ⟨⟩; rfl

/-- A search on demand does not scan for the groups. -/
theorem quiet_find (b : Bundle) (input : Input) (origin : Int) :
    Quiet (b.find input origin).events := by
  rcases b.find_route input origin with ⟨backward, -, -, hfind⟩ | ⟨-, hfind⟩
  · rw [hfind, findBackward_eq]
    exact .singleton (by simp)
  · rw [hfind, findForward_eq]
    exact .singleton (by simp)

end Bundle

namespace Automaton

variable {a : Automaton} {input : Input} {origin : Int} {r : Result}

theorem events_find (a : Automaton) (input : Input) (origin : Int) :
    (a.find input origin).events =
      [.run ⟨.eager, origin, origin, input.size, a.scan input origin origin input.size⟩] := by
  rw [find, Work.events_bind_of_silent _ (by intro outcome; split <;> rfl)]
  rfl

/-- A search for everything at once scans for the groups in its own way. -/
theorem quiet_find (a : Automaton) (input : Input) (origin : Int) :
    Quiet (a.find input origin).events := by
  rw [events_find]
  exact .singleton (by simp)

theorem pending?_of_find (h : (a.find input origin).answer = .ok r) : r.pending? = none := by
  unfold find at h
  rcases Work.exists_of_bind_eq_ok h with ⟨outcome, _, h⟩
  split at h <;> cases h <;> rfl

end Automaton

end LazyMatch
