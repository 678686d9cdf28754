/-! # Decimal numerals

The numerals accepted inside texts: an optional plus sign, then one or more ASCII digits whose value
is within a limit. Leading zeros are allowed, blanks are not. -/

namespace Rebalancing.Decimal

/-- The digits of a numeral: what follows an optional plus sign. -/
def unsigned : List Char → List Char
  | '+' :: rest => rest
  | text => text

/-- The value of a numeral that is at most `limit`. -/
def parse? (limit : Nat) (text : List Char) : Option Nat :=
  let digits := unsigned text
  let value := Nat.ofDigitChars 10 digits 0
  if digits ≠ [] ∧ digits.all Char.isDigit ∧ value ≤ limit then some value else none

/-- The shortest numeral of `n`. -/
def digits (n : Nat) : List Char := Nat.toDigits 10 n

def text (n : Nat) : String := String.ofList (digits n)

/-- The shortest numeral of an integer; only negative ones have a sign. -/
def signed (n : Int) : String := if n < 0 then "-" ++ text n.natAbs else text n.natAbs

theorem isDigit_of_mem_digits {n : Nat} {c : Char} (h : c ∈ digits n) : c.isDigit :=
  Nat.isDigit_of_mem_toDigits (by decide) (by decide) h

theorem unsigned_digits (n : Nat) : unsigned (digits n) = digits n := by
  unfold unsigned
  split
  next h =>
    have := isDigit_of_mem_digits (n := n) (c := '+') (by simp [h])
    simp at this
  next => rfl

theorem parse?_digits {limit n : Nat} (h : n ≤ limit) : parse? limit (digits n) = some n := by
  have hall : (digits n).all Char.isDigit = true :=
    List.all_eq_true.2 fun _ hc => isDigit_of_mem_digits hc
  have hne : digits n ≠ [] := Nat.toDigits_ne_nil
  have hval : Nat.ofDigitChars 10 (digits n) 0 = n := Nat.ofDigitChars_ten_toDigits
  simp [parse?, unsigned_digits, hall, hne, hval, h]

end Rebalancing.Decimal
