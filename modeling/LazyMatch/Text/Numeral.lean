/-!
# Decimal numerals

A numeral is one or more ASCII digits, leading zeros allowed. It is read as a number, or refused if
the number does not fit the word that it is for.
-/

namespace LazyMatch.Numeral

/-- The number that digits stand for, after digits that stand for `acc`. -/
def value (acc : Nat) (digits : List Char) : Nat :=
  digits.foldl (fun acc digit => 10 * acc + (digit.toNat - '0'.toNat)) acc

/-- The number of a numeral. -/
def toNat? (text : List Char) : Option Nat :=
  if text ≠ [] ∧ text.all Char.isDigit then some (value 0 text) else none

/-- The number of a numeral, if 32 bits hold it. -/
def toUInt32? (text : List Char) : Option UInt32 :=
  match toNat? text with
  | some n => if n < UInt32.size then some (UInt32.ofNat n) else none
  | none => none

end LazyMatch.Numeral
