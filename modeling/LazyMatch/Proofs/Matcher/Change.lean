import LazyMatch.Matcher

/-!
# Changing the strategy of a matcher

What becomes of the strategy depends on what the compiler answers when it is asked for an automaton
that finds everything at once, if it is asked (`Matcher.strategyAfter`). The strategy stays open
only if the compiler fails in another way than by refusing the pattern.
-/

namespace LazyMatch

/-- The compiler fails for the pattern in no other way than by refusing it. -/
def Compiler.OnlyRefuses (compiler : Compiler) (pattern : Pattern) : Prop :=
  ∀ fault, compiler.compileEager pattern = .error fault → ∃ e, fault = .compile e

theorem Strategy.isOpen_iff {s : Strategy} : s.isOpen = true ↔ s = .onDemand := by
  cases s <;> simp [isOpen]

namespace Matcher

variable {m : Matcher} {offered : Option (Except Fault (Option Automaton))} {s : Strategy}

def OnDemand (m : Matcher) : Prop := ∀ a, m.strategy ≠ .atOnce a

def Profiles (m : Matcher) : Prop := m.tuning.profiling = true ∧ m.strategy = .onDemand

def Due (m : Matcher) : Prop :=
  m.usage.atTripPoint m.tuning = true ∧ m.usage.favoursEager m.tuning = true

theorem onDemand_or_atOnce (m : Matcher) : m.OnDemand ∨ ∃ a, m.strategy = .atOnce a := by
  unfold OnDemand
  cases m.strategy <;> simp

theorem Profiles.onDemand (h : m.Profiles) : m.OnDemand := by
  intro a ha
  rw [h.2] at ha
  cases ha

/-! ## What the compiler offers -/

/-- What the compiler answers when it is asked for an automaton that finds everything at once; there
is no answer if it must not be asked. -/
def offer (m : Matcher) : Option (Except Fault (Option Automaton)) :=
  if m.tuning.allowEager then m.compiler.map fun compiler => compiler.compileEager m.pattern
  else none

/-- The strategy that an answer of the compiler leads to, or the failure that leaves it open. -/
def strategyAfter : Option (Except Fault (Option Automaton)) → Except Fault Strategy
  | none => .ok .settled
  | some (.ok automaton?) => .ok (strategyWith automaton?)
  | some (.error (.compile _)) => .ok .settled
  | some (.error fault) => .error fault

/-- The call of the compiler, if it is made. -/
def offerEvents (m : Matcher) : List Event :=
  if m.offer.isSome then [.compileEager] else []

/-- A change of strategy is due, and fails in a way that leaves the strategy open. -/
def Escapes (m : Matcher) (fault : Fault) : Prop :=
  m.Profiles ∧ m.Due ∧ strategyAfter m.offer = .error fault

theorem offer_eq_some_iff {answer : Except Fault (Option Automaton)} :
    m.offer = some answer ↔
      m.tuning.allowEager = true ∧
        ∃ compiler ∈ m.compiler, compiler.compileEager m.pattern = answer := by
  unfold offer
  by_cases hallow : m.tuning.allowEager = true
  · rw [if_pos hallow, Option.map_eq_some_iff]
    exact ⟨fun hanswer => ⟨hallow, hanswer⟩, fun h => h.2⟩
  · rw [if_neg hallow]
    constructor
    · intro hanswer
      cases hanswer
    · intro h
      exact absurd h.1 hallow

theorem offer_isSome (m : Matcher) :
    m.offer.isSome = (m.tuning.allowEager && m.compiler.isSome) := by
  unfold offer
  cases m.tuning.allowEager <;> simp

/-! ## What an offer leads to -/

theorem strategyWith_eq_atOnce_iff {automaton? : Option Automaton} {a : Automaton} :
    strategyWith automaton? = .atOnce a ↔ automaton? = some a ∧ a.groupCount ≠ 0 := by
  cases automaton? with
  | none => simp [strategyWith]
  | some automaton =>
    by_cases hcount : automaton.groupCount = 0
    · simp only [strategyWith, if_pos hcount]
      constructor
      · intro h
        cases h
      · rintro ⟨⟨⟩, hne⟩
        exact absurd hcount hne
    · simp only [strategyWith, if_neg hcount, Strategy.atOnce.injEq, Option.some.injEq]
      constructor
      · rintro rfl
        exact ⟨rfl, hcount⟩
      · intro h
        exact h.1

theorem strategyWith_ne_onDemand (automaton? : Option Automaton) :
    strategyWith automaton? ≠ .onDemand := by
  unfold strategyWith
  split
  · split <;> simp
  · simp

/-- Matches and groups are found at once from then on exactly if the compiler has an automaton that
follows groups. -/
theorem strategyAfter_eq_atOnce_iff {a : Automaton} :
    strategyAfter offered = .ok (.atOnce a) ↔ offered = some (.ok (some a)) ∧ a.groupCount ≠ 0 := by
  unfold strategyAfter
  split
  · simp
  · next automaton? =>
    rw [Except.ok.injEq, strategyWith_eq_atOnce_iff, Option.some.injEq, Except.ok.injEq]
  · simp
  · simp

/-- The strategy stays open exactly if the compiler fails in another way than by refusing the
pattern. -/
theorem strategyAfter_eq_error_iff {fault : Fault} :
    strategyAfter offered = .error fault ↔
      offered = some (.error fault) ∧ ∀ e, fault ≠ .compile e := by
  unfold strategyAfter
  split
  · simp
  · simp
  · next e =>
    constructor
    · intro h
      cases h
    · rintro ⟨⟨⟩, hother⟩
      exact absurd rfl (hother e)
  · next other hother =>
    rw [Except.error.injEq, Option.some.injEq, Except.error.injEq]
    constructor
    · rintro rfl
      exact ⟨rfl, fun e he => hother e he⟩
    · intro h
      exact h.1

theorem strategyAfter_ne_onDemand (offered : Option (Except Fault (Option Automaton))) :
    strategyAfter offered ≠ .ok .onDemand := by
  unfold strategyAfter
  split <;> simp [strategyWith_ne_onDemand]

theorem eq_settled_of_strategyAfter (h : strategyAfter offered = .ok s)
    (hs : ∀ a, s ≠ .atOnce a) : s = .settled := by
  cases s with
  | onDemand => exact absurd h (strategyAfter_ne_onDemand offered)
  | atOnce a => exact absurd rfl (hs a)
  | settled => rfl

/-- An offer that is of no use, but is no failure beyond refusing the pattern, settles the
matter. -/
theorem strategyAfter_eq_settled
    (huseless : ∀ a, offered = some (.ok (some a)) → a.groupCount = 0)
    (hrefuses : ∀ fault, offered = some (.error fault) → ∃ e, fault = .compile e) :
    strategyAfter offered = .ok .settled := by
  cases hafter : strategyAfter offered with
  | error fault =>
    rcases strategyAfter_eq_error_iff.1 hafter with ⟨hoffer, hother⟩
    rcases hrefuses fault hoffer with ⟨e, he⟩
    exact absurd he (hother e)
  | ok chosen =>
    have hsettled := eq_settled_of_strategyAfter hafter
    rw [hsettled]
    -- An automaton found at once would have groups, and this one has none.
    intro a ha
    rw [ha] at hafter
    rcases strategyAfter_eq_atOnce_iff.1 hafter with ⟨hoffer, hcount⟩
    exact hcount (huseless a hoffer)

theorem strategyAfter_ne_error
    (hcompiler : ∀ compiler ∈ m.compiler, compiler.OnlyRefuses m.pattern) (fault : Fault) :
    strategyAfter m.offer ≠ .error fault := by
  intro h
  rcases strategyAfter_eq_error_iff.1 h with ⟨hoffer, hother⟩
  rcases offer_eq_some_iff.1 hoffer with ⟨_, compiler, hmem, herror⟩
  rcases hcompiler compiler hmem fault herror with ⟨e, he⟩
  exact hother e he

/-- Changing the strategy is asking the compiler once, at most, and taking what follows. -/
theorem changeStrategy_spec (m : Matcher) :
    m.changeStrategy.events = m.offerEvents ∧
      match strategyAfter m.offer with
      | .ok s => m.changeStrategy.answer = .ok () ∧ m.changeStrategy.next = { m with strategy := s }
      | .error fault => m.changeStrategy.answer = .error fault ∧ m.changeStrategy.next = m := by
  unfold changeStrategy offerEvents offer
  split
  · next compiler hcompiler =>
    by_cases hallow : m.tuning.allowEager = true
    · simp only [hallow, if_true, hcompiler, Option.map_some, Option.isSome_some]
      split
      · next automaton? hoffer => simp [strategyAfter, hoffer]
      · next e hoffer => simp [strategyAfter, hoffer]
      · next fault hother hoffer =>
        -- The table of `strategyAfter` does not reduce here: the fault is only known not to be a
        -- compile error.
        have herror : strategyAfter (some (.error fault)) = .error fault :=
          strategyAfter_eq_error_iff.2 ⟨rfl, fun e he => hother e he⟩
        simp [herror, hoffer]
    · simp [hallow, strategyAfter]
  · next hcompiler => simp [hcompiler, strategyAfter]

end Matcher

end LazyMatch
