import LazyMatch.Proofs.Find.Refinement
import LazyMatch.Proofs.Find.Events
import LazyMatch.Proofs.Result.Laziness

/-!
# How lazy a search is

A search on demand runs one automaton, once, and not the one for the groups. All that is scanned for
afterwards is scanned for by questions that need it, and found once at most: the start, or the
template, by the backward automaton, and the groups by the automaton for them
(`Bundle.find_scans_once`).
-/

namespace LazyMatch

namespace Result

variable {r : Result}

theorem events_stop (r : Result) : r.stop.events = [] := by
  unfold Result.stop
  split <;> rfl

/-- A group that a result does not have is refused before anything is scanned. -/
theorem events_withGroup_of_not_lt {index : UInt32} (h : ¬ index < r.groupCount)
    (access : Result → Turn Result Int) : (r.withGroup index access).events = [] := by
  simp only [withGroup, if_neg h]
  split <;> rfl

end Result

namespace Bundle

variable {b : Bundle} {input : Input} {origin : Int} {r : Result}

theorem Fresh.tidy (h : b.Fresh input origin r) : r.Tidy := by
  cases h with
  | noMatch => trivial
  | single start stop => trivial
  | lateStart stop => trivial
  | template t start =>
    unfold Template.resultFromStart
    split <;> trivial
  | lateGroups stop start? => trivial
  | lateTemplate stop => trivial

/-! ## Everything that is scanned for later -/

/-- A search runs the backward automaton once if its matches touch the end of the input, and
otherwise the forward automaton once, and no other. In whatever order its result is asked
afterwards, one scan of the backward automaton and one for the groups succeed at most. In every
state, nothing is run for the end, for the number of groups, for printing, or for a group that is
not there; the start never takes a scan for the groups; once it is known the backward automaton is
not run; and a result whose template is pending never scans for groups. -/
theorem find_scans_once (b : Bundle) (input : Input) (origin : Int) :
    (∀ backward ∈ b.backward, backward.anchored = true →
      (b.find input origin).events =
        [.run ⟨.backward, 0, input.size - 1, b.floor origin,
          backward.scan input 0 (input.size - 1) (b.floor origin)⟩]) ∧
      ((∀ backward ∈ b.backward, backward.anchored = false) →
        (b.find input origin).events =
          [.run ⟨.forward, origin, origin, input.size,
            b.forward.scan input origin origin input.size⟩]) ∧
      ∀ r, (b.find input origin).answer = .ok r → ∀ questions : List Accessor,
        (r.eventsOf questions).countP (r.servedBy .backward) ≤ 1 ∧
        (r.eventsOf questions).countP (r.servedBy .capture) ≤ 1 ∧
        let later := r.after questions
        (later.access .stop).events = [] ∧ (later.access .groupCount).events = [] ∧
          later.print.events = [] ∧
          (∀ index, ¬ index < later.groupCount →
            (later.access (.startOfGroup index)).events = [] ∧
              (later.access (.stopOfGroup index)).events = []) ∧
          Without .capture (later.access .start).events ∧
          (later.start?.isSome = true → ∀ more, Without .backward (later.eventsOf more)) ∧
          ∀ p stop start? groups?, later = .lateTemplate p stop start? groups? →
            ∀ more, Without .capture (later.eventsOf more) := by
  refine ⟨?_, ?_, ?_⟩
  · intro backward hb hanchored
    rcases b.find_route input origin with ⟨backward', hb', -, hfind⟩ | ⟨hforward, -⟩
    · cases hb.symm.trans hb'
      rw [hfind, findBackward_eq]
      rfl
    · cases hanchored.symm.trans (hforward backward hb)
  · intro hforward
    rcases b.find_route input origin with ⟨backward, hb, hanchored, -⟩ | ⟨-, hfind⟩
    · cases hanchored.symm.trans (hforward backward hb)
    · rw [hfind, findForward_eq]
  · intro r hfind questions
    have htidy : (r.after questions).Tidy :=
      Result.after_preserves (fun hfinds htidy => hfinds.tidy htidy) (fresh_of_find hfind).tidy
        questions
    refine ⟨r.served_le_one questions .backward, r.served_le_one questions .capture, ?_⟩
    intro later
    have hprinted : later.print.events = [] := by
      simp [Result.print_eq]
    refine ⟨later.events_stop, rfl, hprinted, ?_, (later.start_keeps).1.without, ?_, ?_⟩
    · intro index hindex
      exact ⟨Result.events_withGroup_of_not_lt hindex _, Result.events_withGroup_of_not_lt hindex _⟩
    · intro hstart
      exact Result.without_of_toFind_eq_zero (Result.toFind_of_start? htidy hstart)
    · intro p stop start? groups? hlater
      have hnone : later.toFind .capture = 0 := by
        rw [hlater]
        cases groups? <;> rfl
      exact Result.without_of_toFind_eq_zero hnone

end Bundle

/-! ## Templates, and matches at the end of the input -/

/-- What `a(b)?c` looks like with its group. -/
def Template.grouped : Template where
  distances := #[0, 3, 1, 2]
  length := 3
  sound := by decide

/-- What `a(b)?c` looks like without its group. -/
def Template.ungrouped : Template where
  distances := #[0, 2, -1, -1]
  length := 2
  sound := by decide

/-- Automata that find the end of `a(b)?c` in the sample input, and later which template it has. -/
def templateBundle : Bundle where
  forward := .always 0 (.offset 4)
  backward := some (.always 0 (.offset 0))
  capture := some (.always 2 (.groups #[1, 4, 2, 3]))
  templates := #[.grouped, .ungrouped]
  flags := 0
  sound := by
    simp [Parts.firstFault, Parts.disagrees, Automaton.always, Template.groupCount,
      Template.grouped, Template.ungrouped]

/-- Automata that find `a(b)?c` only at the end of the input. -/
def endBundle : Bundle where
  forward := .always 0 (.offset 4)
  backward := some { Automaton.always 0 (.offset 0) with anchored := true }
  capture := some (.always 2 (.groups #[1, 4, 2, 3]))
  templates := #[]
  flags := 0
  sound := by simp [Parts.firstFault, Automaton.always]

/-- One backward run finds the match at the end. Where the template is pending, one forward run
finds the end of the match, and asking for the start makes the last run. -/
theorem templateBundle_find_scans_once :
    (∃ made, (endBundle.find sampleInput 0).events = [.run made] ∧ made.role = .backward) ∧
      ∃ r later, (templateBundle.find sampleInput 0).answer = .ok r ∧
        (∃ made, (templateBundle.find sampleInput 0).events = [.run made] ∧ made.role = .forward) ∧
        r.after [.start] = later ∧ later.start? = some 1 ∧
        (r.eventsOf [.start]).countP (r.servedBy .backward) ≤ 1 ∧
        (later.access (.startOfGroup 2)).events = [] ∧
        Without .backward (later.eventsOf [.stopOfGroup 1, .start]) ∧
        Without .capture (later.eventsOf [.stopOfGroup 1, .start]) := by
  let p : Pending := templateBundle.pending sampleInput 0
  let r : Result := .lateTemplate p 4 none none
  let g : Array Int := Template.grouped.boundaries 1
  let later : Result := .lateTemplate p 4 (some (matchStart g)) (some g)
  have hfind : (templateBundle.find sampleInput 0).answer = .ok r := by rfl
  have hlater : r.after [.start] = later := by rfl
  have hstart : later.start? = some 1 :=
    congrArg some (Template.grouped.matchStart_boundaries 1)
  rcases Bundle.find_scans_once endBundle sampleInput 0 with ⟨hbackward, -, -⟩
  rcases Bundle.find_scans_once templateBundle sampleInput 0 with ⟨-, hforward, hresult⟩
  rcases hresult r hfind [.start] with ⟨hserved, -, hasked⟩
  rw [hlater] at hasked
  rcases hasked with ⟨-, -, -, hrefused, -, hknown, htemplate⟩
  have hroute : ∀ backward ∈ templateBundle.backward, backward.anchored = false := by
    rintro _ ⟨⟩
    rfl
  exact ⟨⟨_, hbackward _ rfl rfl, rfl⟩, r, later, hfind, ⟨_, hforward hroute, rfl⟩, hlater, hstart,
    hserved, (hrefused 2 (by decide)).1, hknown rfl _, htemplate p 4 _ _ rfl _⟩

end LazyMatch
