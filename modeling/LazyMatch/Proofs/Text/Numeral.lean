import LazyMatch.Text.Numeral
import Mathlib.Data.Nat.Digits.Defs

/-!
# Numerals and their numbers

The number of a numeral is the sum of its digits, each times the power of ten of its place. A text
is read as a number exactly if it is a numeral and 32 bits hold that number, and then it is read as
it.
-/

namespace LazyMatch

namespace Numeral

variable {text : List Char}

/-- The digit that a character shows. -/
def digit (c : Char) : Nat := c.toNat - '0'.toNat

/-- The sum of the digits, each times the power of ten of its place. -/
def number (text : List Char) : Nat :=
  Nat.ofDigits 10 (text.reverse.map digit)

/-- One or more ASCII digits, for a number below `2 ^ 32`. -/
structure Fits (text : List Char) : Prop where
  nonempty : text ≠ []
  digits : ∀ c ∈ text, c.isDigit = true
  below : number text < 2 ^ 32

theorem fits_iff :
    Fits text ↔ text ≠ [] ∧ text.all Char.isDigit = true ∧ number text < 2 ^ 32 := by
  rw [List.all_eq_true]
  exact ⟨fun h => ⟨h.nonempty, h.digits, h.below⟩, fun ⟨hnonempty, hdigits, hbelow⟩ =>
    ⟨hnonempty, hdigits, hbelow⟩⟩

instance : Decidable (Fits text) := decidable_of_iff' _ fits_iff

theorem number_cons (c : Char) (text : List Char) :
    number (c :: text) = number text + 10 ^ text.length * digit c := by
  rw [number, List.reverse_cons, List.map_append, Nat.ofDigits_append, List.length_map,
    List.length_reverse, List.map_singleton, Nat.ofDigits_singleton]
  rfl

theorem value_eq (acc : Nat) (text : List Char) :
    value acc text = 10 ^ text.length * acc + number text := by
  induction text generalizing acc with
  | nil => exact (Nat.one_mul acc).symm
  | cons c text ih =>
    have step : value acc (c :: text) = value (10 * acc + digit c) text := rfl
    rw [step, ih, number_cons, List.length_cons, Nat.pow_succ]
    ring

theorem toUInt32?_eq (text : List Char) :
    toUInt32? text = if Fits text then some (UInt32.ofNat (number text)) else none := by
  have hvalue : value 0 text = number text := by
    rw [value_eq, Nat.mul_zero, Nat.zero_add]
  rw [toUInt32?, toNat?, hvalue]
  by_cases hnumeral : text ≠ [] ∧ text.all Char.isDigit = true
  · have hfits : Fits text ↔ number text < UInt32.size :=
      ⟨fun h => h.below, fun h => fits_iff.2 ⟨hnumeral.1, hnumeral.2, h⟩⟩
    simp only [if_pos hnumeral, hfits]
  · have hfits : ¬ Fits text := fun h => hnumeral ⟨h.nonempty, (fits_iff.1 h).2.1⟩
    rw [if_neg hnumeral, if_neg hfits]

theorem Fits.exists_toUInt32? (h : Fits text) :
    ∃ v, toUInt32? text = some v ∧ v.toNat = number text := by
  refine ⟨UInt32.ofNat (number text), ?_, UInt32.toNat_ofNat_of_lt h.below⟩
  rw [toUInt32?_eq, if_pos h]

theorem toUInt32?_eq_none (h : ¬ Fits text) : toUInt32? text = none := by
  rw [toUInt32?_eq, if_neg h]

end Numeral

end LazyMatch
