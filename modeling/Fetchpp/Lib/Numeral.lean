import Mathlib.Data.List.TakeWhile

/-!
# Decimal numerals

A numeral is a text of decimal digits, which may begin with zeros.  The
conversion of `std::from_chars` reads the longest numeral in front of a text;
its result argument keeps its value if there is none or if the number is out of
range, and what it did is in the ending and the rest it returns.
-/

namespace Fetchpp.Lib

/-- The text is a numeral of this number. -/
structure Numeral (text : List Char) (n : Nat) : Prop where
  nonempty : text ≠ []
  digits : ∀ c ∈ text, c.isDigit = true
  value : Nat.ofDigitChars 10 text 0 = n

namespace Numeral

theorem of_toString (n : Nat) : Numeral (toString n).toList n := by
  rw [Nat.toString_eq_repr, Nat.toList_repr]
  constructor
  · exact Nat.toDigits_ne_nil
  · intro c member
    exact Nat.isDigit_of_mem_toDigits (by decide) (by decide) member
  · exact Nat.ofDigitChars_ten_toDigits

end Numeral

/-- How a conversion ended. -/
inductive Ending where
  | converted
  | noMatch
  | outOfRange
  deriving DecidableEq, Repr

/-- The result argument after a conversion, its ending and what it did not
read. -/
structure Conversion where
  result : Nat
  ending : Ending
  rest : List Char
  deriving DecidableEq, Repr

/-- `std::from_chars` for an unsigned type whose values are below `bound`. -/
def fromChars (bound : Nat) (text : List Char) (result : Nat) : Conversion :=
  let digits := text.takeWhile Char.isDigit
  let rest := text.dropWhile Char.isDigit
  let number := Nat.ofDigitChars 10 digits 0
  if digits = [] then ⟨result, .noMatch, text⟩
  else if number < bound then ⟨number, .converted, rest⟩
  else ⟨result, .outOfRange, rest⟩

theorem fromChars_numeral {bound n : Nat} {text : List Char}
    (numeral : Numeral text n) (fits : n < bound) (result : Nat) :
    fromChars bound text result = ⟨n, .converted, []⟩ := by
  have whole : text.takeWhile Char.isDigit = text :=
    List.takeWhile_eq_self_iff.mpr numeral.digits
  have nothing : text.dropWhile Char.isDigit = [] :=
    List.dropWhile_eq_nil_iff.mpr numeral.digits
  rw [fromChars, whole, nothing, numeral.value, if_neg numeral.nonempty,
    if_pos fits]

end Fetchpp.Lib
