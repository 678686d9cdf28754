import Rebalancing.Text.Decimal

/-!
# The numerals of a number

A number has many numerals: any number of zeros may stand in front of its digits, and a plus sign
in front of those.  These and no other texts are read as the number, as far as it is within the
limit.
-/

namespace Rebalancing.Decimal

variable {n limit : Nat} {text : List Char}

/-- One or more digits, of value `n`. -/
structure IsDigits (n : Nat) (text : List Char) : Prop where
  ne_nil : text ≠ []
  isDigit : ∀ c ∈ text, c.isDigit
  value : Nat.ofDigitChars 10 text 0 = n

/-- Digits of value `n`, with a plus sign in front of them or without one. -/
def IsNumeral (n : Nat) (text : List Char) : Prop :=
  ∃ digits, IsDigits n digits ∧ (text = digits ∨ text = '+' :: digits)

/-- A numeral of a number that is below `2 ^ 64`. -/
def IsWordNumeral (text : List Char) : Prop := ∃ n : UInt64, IsNumeral n.toNat text

theorem isDigits_digits (n : Nat) : IsDigits n (digits n) where
  ne_nil := Nat.toDigits_ne_nil
  isDigit _ := isDigit_of_mem_digits
  value := Nat.ofDigitChars_ten_toDigits

theorem isNumeral_digits (n : Nat) : IsNumeral n (digits n) := ⟨_, isDigits_digits n, .inl rfl⟩

/-- Digits have no sign. -/
theorem IsDigits.unsigned_eq (h : IsDigits n text) : unsigned text = text := by
  unfold unsigned
  split
  case h_1 => exact absurd (h.isDigit '+' List.mem_cons_self) (by decide)
  case h_2 => rfl

/-- A numeral consists of digits, but for its sign. -/
theorem isNumeral_iff : IsNumeral n text ↔ IsDigits n (unsigned text) := by
  constructor
  · rintro ⟨digits, h, rfl | rfl⟩
    · rwa [h.unsigned_eq]
    · exact h
  · intro h
    refine ⟨_, h, ?_⟩
    unfold unsigned
    split
    case h_1 => exact .inr rfl
    case h_2 => exact .inl rfl

/-- What is read as a number is a numeral of it. -/
theorem parse?_eq_some_iff : parse? limit text = some n ↔ IsNumeral n text ∧ n ≤ limit := by
  rw [isNumeral_iff, parse?]
  constructor
  · intro h
    split at h
    case isTrue reads =>
      obtain ⟨ne, all, le⟩ := reads
      cases h
      exact ⟨⟨ne, List.all_eq_true.mp all, rfl⟩, le⟩
    case isFalse => cases h
  · rintro ⟨⟨ne, all, rfl⟩, le⟩
    exact if_pos ⟨ne, List.all_eq_true.mpr all, le⟩

theorem isWordNumeral_iff :
    IsWordNumeral text ↔ (parse? 0xffffffffffffffff text).isSome := by
  rw [Option.isSome_iff_exists]
  constructor
  · rintro ⟨n, h⟩
    exact ⟨_, parse?_eq_some_iff.mpr ⟨h, by have := n.toNat_lt; omega⟩⟩
  · rintro ⟨n, h⟩
    obtain ⟨h, le⟩ := parse?_eq_some_iff.mp h
    exact ⟨.ofNat n, by rwa [UInt64.toNat_ofNat_of_lt' (Nat.lt_succ_of_le le)]⟩

/-- Nothing but digits and a plus sign stands in a numeral. -/
theorem IsNumeral.not_mem {c : Char} (h : IsNumeral n text) (digit : c.isDigit = false)
    (plus : c ≠ '+') : c ∉ text := by
  obtain ⟨digits, h, same⟩ := h
  have fresh : c ∉ digits := fun mem => Bool.false_ne_true (digit.symm.trans (h.isDigit c mem))
  rcases same with rfl | rfl
  · exact fresh
  · exact List.not_mem_cons_of_ne_of_not_mem plus fresh

end Rebalancing.Decimal
