import LazyMatch.Proofs.Text.Numeral
import LazyMatch.Tuning.Overrides

/-!
# Entries and what they set

An entry with the name of a knob puts this knob to its number, a preset puts several knobs to fixed
positions, and no other key sets anything. What a list of entries does to a knob is decided by the
last entry that touches it (`Overrides.lastAssigned`).
-/

namespace LazyMatch

/-! ## What knobs are set to -/

namespace Knob

variable {t : Tuning} {key : String}

theorem name_injective {knob other : Knob} (h : knob.name = other.name) : knob = other := by
  cases knob <;> cases other <;> first | rfl | exact absurd h (by decide)

theorem ofName?_eq_some_iff {knob : Knob} : ofName? key = some knob ↔ key = knob.name := by
  constructor
  · intro h
    rw [ofName?] at h
    have hname := List.find?_some h
    exact (of_decide_eq_true hname).symm
  · rintro rfl
    cases knob <;> decide

/-- The position that a number puts a knob to. A switch is on for every number but 0. -/
def level (number : Nat) : Knob → Nat
  | profiling => if number = 0 then 0 else 1
  | allowEager => if number = 0 then 0 else 1
  | tripPoint => number
  | minCalls => number
  | minMatchPercent => number
  | minGroupAccessPercent => number

/-- Where the preset for groups on demand puts a knob. It leaves the numbers alone. -/
def onDemandOnly? : Knob → Option Nat
  | profiling => some 0
  | allowEager => some 0
  | tripPoint => none
  | minCalls => none
  | minMatchPercent => none
  | minGroupAccessPercent => none

/-- Where the preset for groups at once puts a knob. -/
def atOnceEarly : Knob → Nat
  | profiling => 1
  | allowEager => 1
  | tripPoint => 1
  | minCalls => 1
  | minMatchPercent => 0
  | minGroupAccessPercent => 0

/-- Where a key with a number puts a knob, if it touches the knob. -/
def assigned? (key : String) (number : Nat) (knob : Knob) : Option Nat :=
  if key = knob.name then some (knob.level number)
  else if key = "forceLazy" then knob.onDemandOnly?
  else if key = "eagerAsap" then some knob.atOnceEarly
  else none

theorem toNat_get_set_self (knob : Knob) (value : UInt32) :
    (knob.get (knob.set t value)).toNat = knob.level value.toNat := by
  have hzero : value.toNat = 0 ↔ value = 0 := by
    rw [← UInt32.toNat_inj, UInt32.toNat_zero]
  cases knob <;> by_cases h : value = 0 <;> simp [get, set, level, hzero, h]

theorem get_set_of_ne {knob other : Knob} (h : other ≠ knob) (value : UInt32) :
    other.get (knob.set t value) = other.get t := by
  cases knob <;> cases other <;> first | rfl | exact absurd rfl h

theorem assigned?_name (knob other : Knob) (number : Nat) :
    other.assigned? knob.name number = if other = knob then some (knob.level number) else none := by
  by_cases h : other = knob
  · rw [assigned?, if_pos (congrArg name h.symm), if_pos h, h]
  · have hname : knob.name ≠ other.name := fun e => h (name_injective e).symm
    have hlazy : knob.name ≠ "forceLazy" := by cases knob <;> decide
    have heager : knob.name ≠ "eagerAsap" := by cases knob <;> decide
    rw [assigned?, if_neg hname, if_neg hlazy, if_neg heager, if_neg h]

theorem toNat_get_set (knob other : Knob) (value : UInt32) :
    (other.get (knob.set t value)).toNat =
      (other.assigned? knob.name value.toNat).getD (other.get t).toNat := by
  rw [assigned?_name]
  by_cases h : other = knob
  · rw [if_pos h, h, toNat_get_set_self, Option.getD_some]
  · rw [if_neg h, get_set_of_ne h, Option.getD_none]

end Knob

namespace Overrides

variable {t : Tuning} {key : String} {value : UInt32}

/-- A key that sets something. -/
def Known (key : String) : Prop :=
  (∃ knob : Knob, key = knob.name) ∨ key = "forceLazy" ∨ key = "eagerAsap"

theorem known_iff :
    Known key ↔
      (∃ knob ∈ Knob.all, key = knob.name) ∨ key = "forceLazy" ∨ key = "eagerAsap" := by
  have hall : ∀ knob : Knob, knob ∈ Knob.all := fun knob => by cases knob <;> decide
  simp only [Known, hall, true_and]

instance : Decidable (Known key) := decidable_of_iff' _ known_iff

theorem exists_assign (h : Known key) (t : Tuning) (value : UInt32) :
    ∃ tuning, assign t key value = some tuning ∧
      ∀ knob : Knob, (knob.get tuning).toNat =
        (knob.assigned? key value.toNat).getD (knob.get t).toNat := by
  rcases h with ⟨knob, rfl⟩ | rfl | rfl
  · refine ⟨knob.set t value, ?_, fun other => Knob.toNat_get_set knob other value⟩
    rw [assign, Knob.ofName?_eq_some_iff.2 rfl]
  · refine ⟨onDemandOnly t, rfl, fun knob => ?_⟩
    cases knob <;> rfl
  · refine ⟨atOnceEarly t, rfl, fun knob => ?_⟩
    cases knob <;> rfl

theorem assign_eq_none (h : ¬ Known key) : assign t key value = none := by
  have hname : Knob.ofName? key = none := by
    rw [Option.eq_none_iff_forall_ne_some]
    exact fun knob hknob => h (.inl ⟨knob, Knob.ofName?_eq_some_iff.1 hknob⟩)
  have hlazy : key ≠ "forceLazy" := fun e => h (.inr (.inl e))
  have heager : key ≠ "eagerAsap" := fun e => h (.inr (.inr e))
  rw [assign, hname]
  simp only [if_neg hlazy, if_neg heager]

/-! ## Entries in a text -/

namespace Entry

/-- An entry that separators tell from its neighbours and that does not ask for the list of
knobs. -/
structure Plain (e : Entry) : Prop where
  key_colon : ':' ∉ e.key
  key_semicolon : ';' ∉ e.key
  key_help : String.ofList e.key ≠ "help"
  value_semicolon : ';' ∉ e.value

theorem plain_iff {e : Entry} :
    e.Plain ↔
      ':' ∉ e.key ∧ ';' ∉ e.key ∧ String.ofList e.key ≠ "help" ∧ ';' ∉ e.value :=
  ⟨fun h => ⟨h.key_colon, h.key_semicolon, h.key_help, h.value_semicolon⟩,
    fun ⟨hcolon, hsemicolon, hhelp, hvalue⟩ => ⟨hcolon, hsemicolon, hhelp, hvalue⟩⟩

instance {e : Entry} : Decidable e.Plain := decidable_of_iff' _ plain_iff

/-- The key sets something, and the value is a number that 32 bits hold. -/
structure Valid (e : Entry) : Prop where
  known : Known (String.ofList e.key)
  fits : Numeral.Fits e.value

theorem valid_iff {e : Entry} :
    e.Valid ↔ Known (String.ofList e.key) ∧ Numeral.Fits e.value :=
  ⟨fun h => ⟨h.known, h.fits⟩, fun ⟨hknown, hfits⟩ => ⟨hknown, hfits⟩⟩

instance {e : Entry} : Decidable e.Valid := decidable_of_iff' _ valid_iff

/-- Where an entry puts a knob, if it touches the knob. -/
def assigned? (e : Entry) (knob : Knob) : Option Nat :=
  knob.assigned? (String.ofList e.key) (Numeral.number e.value)

def text (e : Entry) : List Char := e.key ++ ':' :: e.value

end Entry

/-- Entries with semicolons between them. -/
def joined (entries : List Entry) : List Char :=
  [';'].intercalate (entries.map Entry.text)

/-- Where the last entry that touches a knob puts it. A knob that none touches stays as it was. -/
def lastAssigned (entries : List Entry) (knob : Knob) (position : Nat) : Nat :=
  (entries.filterMap fun e => e.assigned? knob).getLastD position

theorem joined_singleton (e : Entry) : joined [e] = e.text := by
  simp [joined, List.intercalate]

theorem joined_cons_cons (e other : Entry) (entries : List Entry) :
    joined (e :: other :: entries) = e.text ++ ';' :: joined (other :: entries) := by
  simp [joined, List.intercalate]

theorem lastAssigned_cons (e : Entry) (entries : List Entry) (knob : Knob) (position : Nat) :
    lastAssigned (e :: entries) knob position =
      lastAssigned entries knob ((e.assigned? knob).getD position) := by
  unfold lastAssigned
  cases h : e.assigned? knob with
  | none =>
    simp only [List.filterMap_cons, h, Option.getD_none]
  | some number =>
    simp only [List.filterMap_cons, h, List.getLastD_cons, Option.getD_some]

end Overrides

end LazyMatch
