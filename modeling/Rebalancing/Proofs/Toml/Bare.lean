import Mathlib.Data.List.Basic
import Rebalancing.Proofs.Json.Leaves
import Rebalancing.Toml.Bare

/-! # Decimal numerals as values

The shortest numeral of a number within 63 bits is read as that number, up to the end of its
line. -/

namespace Rebalancing.Toml.Bare

open Decimal (isDigit_of_mem_digits)

/-- No numeral but that of zero begins with a zero. -/
theorem eq_zero_of_digits {n : Nat} {rest : List Char} (h : Decimal.digits n = '0' :: rest) :
    n = 0 := by
  induction n using Json.numeral_induction generalizing rest with
  | digit n hn =>
    rw [Decimal.digits, Nat.toDigits_of_lt_base hn] at h
    interval_cases n <;> simp at h ⊢
  | more n hn ih =>
    rw [Decimal.digits, Nat.toDigits_of_base_le (by decide) hn] at h
    obtain ⟨first, more, hfront⟩ :=
      List.exists_cons_of_ne_nil (Nat.toDigits_ne_nil (b := 10) (n := n / 10))
    rw [hfront, List.cons_append] at h
    have hzero : n / 10 = 0 := ih (hfront.trans (congrArg (· :: more) (List.cons.inj h).1))
    omega

theorem digits?_of_forall {isDigit : Char → Bool} {text : List Char}
    (hunderscore : isDigit '_' = false) (hne : text ≠ []) (h : ∀ c ∈ text, isDigit c) :
    digits? isDigit text = some text := by
  induction text with
  | nil => exact absurd rfl hne
  | cons c text ih =>
    obtain ⟨hc, h⟩ := List.forall_mem_cons.mp h
    rcases text with _ | ⟨d, text⟩
    · rw [digits?, if_pos hc]
    · have hd : d ≠ '_' := by
        rintro rfl
        cases hunderscore.symm.trans (h _ List.mem_cons_self)
      rw [digits?, if_pos hc, ih (List.cons_ne_nil d text) h, Option.map_some]
      · exact List.cons_ne_nil d text
      · exact fun _ same => hd (List.cons.inj same).1

theorem hexValue?_of_isDigit {c : Char} (h : c.isDigit) :
    Quoted.hexValue? c = some (c.toNat - '0'.toNat) := by
  rw [Quoted.hexValue?]
  exact if_pos h

theorem numeral_eq {text : List Char} (h : ∀ c ∈ text, c.isDigit) :
    numeral 10 text = Nat.ofDigitChars 10 text 0 := by
  rw [numeral, Nat.ofDigitChars]
  refine List.foldl_ext _ _ _ fun value c hc => ?_
  rw [hexValue?_of_isDigit (h c hc), Option.getD_some]

theorem signed_digits {text : List Char} (h : ∀ c ∈ text, c.isDigit) :
    signed text = (false, text) := by
  unfold signed
  split
  · exact absurd (h _ List.mem_cons_self) (by decide)
  · exact absurd (h _ List.mem_cons_self) (by decide)
  · rfl

theorem plainDigits?_digits (n : Nat) :
    plainDigits? (Decimal.digits n) = some (Decimal.digits n) := by
  unfold plainDigits?
  split
  case h_1 same => rw [same]
  case h_2 rest htrailing same =>
    cases eq_zero_of_digits same
    cases same
    exact absurd rfl htrailing
  case h_3 =>
    exact digits?_of_forall (by decide) Nat.toDigits_ne_nil fun _ => isDigit_of_mem_digits

theorem integer?_eq_decimal? {text : List Char} (h : ∀ c ∈ text, c.isDigit) :
    integer? text = decimal? text := by
  unfold integer?
  split
  case h_4 => rfl
  all_goals exact absurd (h _ (List.mem_cons_of_mem _ List.mem_cons_self)) (by decide)

variable {n : Nat} (h : n < 0x8000000000000000)

include h

theorem integer?_digits : integer? (Decimal.digits n) = some (n : Int) := by
  have hdigits : ∀ c ∈ Decimal.digits n, c.isDigit := fun _ => isDigit_of_mem_digits
  have hvalue : numeral 10 (Decimal.digits n) = n :=
    (numeral_eq hdigits).trans Nat.ofDigitChars_ten_toDigits
  rw [integer?_eq_decimal? hdigits, decimal?, signed_digits hdigits]
  simp [plainDigits?_digits, hvalue, h]

theorem value?_digits : value? (Decimal.digits n) = some (.integer n) := by
  have hword {word : List Char} {c : Char} (hmem : c ∈ word) (hc : c.isDigit = false) :
      Decimal.digits n ≠ word := by
    rintro rfl
    cases hc.symm.trans (isDigit_of_mem_digits hmem)
  rw [value?, if_neg (hword (c := 't') (by simp) (by decide)),
    if_neg (hword (c := 'f') (by simp) (by decide)), integer?_digits h]

theorem read_digits (rest : List Char) :
    read (Decimal.digits n ++ '\n' :: rest) = some (.integer n, '\n' :: rest) := by
  have hvalue : ∀ c ∈ Decimal.digits n, isValueChar c := fun c hc => by
    simp [isValueChar, Char.isAlphanum, isDigit_of_mem_digits hc]
  rw [read, List.takeWhile_append_of_pos hvalue, List.dropWhile_append_of_pos hvalue,
    List.takeWhile_cons_of_neg (by decide), List.dropWhile_cons_of_neg (by decide), List.append_nil]
  dsimp only
  split
  case h_1 hspace => simp at hspace
  case h_2 => rw [value?_digits h, Option.map_some]

end Rebalancing.Toml.Bare
