import Rebalancing.Proofs.Json.Leaves

/-!
# Numerals that are cut short

An integer that is cut somewhere is still an integer, and no further from zero, as long as
what is left is a numeral at all.  So a bound that lets the whole integer through lets what
is left of it through as well, if it lets zero through.
-/

namespace Rebalancing.Json.Number

/-- How the value of what is left of a numeral relates to the value of the whole: it has one, and that
is an integer between zero and the whole integer, if the whole is one. -/
structure Curtails (short long : Option Number) : Prop where
  isSome : short.isSome
  integer {n : Int} : long = some (.integer n) →
    ∃ m, short = some (.integer m) ∧ (0 ≤ m ∧ m ≤ n ∨ n ≤ m ∧ m ≤ 0)

/-! ## Integers -/

/-- The number that digits mean. -/
def decimal (digits : List UInt8) : Nat :=
  (digitValues digits).foldl (fun value digit => 10 * value + digit) 0

variable {digits text more : List UInt8} {n : Int}

theorem le_foldl_digits (value : Nat) (values : List Nat) :
    value ≤ values.foldl (fun value digit => 10 * value + digit) value := by
  induction values generalizing value with
  | nil => exact Nat.le_refl _
  | cons digit rest ih => exact Nat.le_trans (by omega) (ih (10 * value + digit))

theorem decimal_le_append (digits more : List UInt8) : decimal digits ≤ decimal (digits ++ more) := by
  unfold decimal digitValues
  rw [List.map_append, List.foldl_append]
  exact le_foldl_digits _ _

/-- Zeros in front do not count. -/
theorem head_eq_of_decimal_eq_zero {digit : UInt8} {rest : List UInt8} (h : isDigit digit)
    (zero : decimal (digit :: rest) = 0) : digit = 0x30 := by
  have hle : digit.toNat - 0x30 ≤ decimal (digit :: rest) := by
    show _ ≤ (digitValues rest).foldl _ (10 * 0 + (digit.toNat - 0x30))
    exact Nat.le_trans (by omega) (le_foldl_digits _ _)
  simp only [isDigit, Bool.and_eq_true, decide_eq_true_eq, UInt8.le_iff_toNat_le] at h
  apply UInt8.toNat_inj.mp
  have low : 0x30 ≤ digit.toNat := h.1
  show digit.toNat = 0x30
  omega

theorem ofBytes_minus (h : ∀ byte ∈ digits, isDigit byte) :
    Numeral.ofBytes (0x2d :: digits) = {
      negative := true
      whole := digitValues digits
      fraction := none
      exponent := none } := by
  have htake := List.takeWhile_eq_self_iff.mpr h
  have hdrop := List.dropWhile_eq_nil_iff.mpr h
  simp [Numeral.ofBytes, htake, hdrop, readExponent]

/-- An integer that is not negative. -/
theorem ofBytes?_digits (h : ∀ byte ∈ digits, isDigit byte)
    (fits : decimal digits < 0x10000000000000000) :
    ofBytes? digits = some (.integer (decimal digits)) := by
  unfold decimal at fits ⊢
  simp [ofBytes?, Numeral.value?, Numeral.integer?, ofBytes_digits h, fits]

theorem ofBytes?_minus (h : ∀ byte ∈ digits, isDigit byte) (nonzero : decimal digits ≠ 0)
    (fits : decimal digits ≤ 0x8000000000000000) :
    ofBytes? (0x2d :: digits) = some (.integer (-(decimal digits : Int))) := by
  unfold decimal at nonzero fits ⊢
  simp [ofBytes?, Numeral.value?, Numeral.integer?, ofBytes_minus h, nonzero, fits]

theorem eq_nil_of_readExponent (h : readExponent text = none) : text = [] := by
  cases text with
  | nil => rfl
  | cons mark rest =>
    unfold readExponent at h
    split at h
    case h_1 heq => cases heq
    case h_2 => split at h <;> cases h

/-- What has neither fraction nor exponent is made of digits, perhaps behind a sign. -/
theorem isDigit_of_mem_unsigned (fraction : (Numeral.ofBytes text).fraction = none)
    (exponent : (Numeral.ofBytes text).exponent = none) :
    ∀ byte ∈ if text.head? = some 0x2d then text.tail else text, isDigit byte := by
  rw [← List.dropWhile_eq_nil_iff]
  unfold Numeral.ofBytes at fraction exponent
  simp only [Option.map_eq_none_iff] at fraction exponent
  rw [fraction] at exponent
  exact eq_nil_of_readExponent exponent

/-- What an integer is written as. -/
theorem digits_of_integer (h : ofBytes? text = some (.integer n)) :
    (∀ byte ∈ text, isDigit byte) ∧ decimal text < 0x10000000000000000 ∧ n = decimal text ∨
      ∃ digits, text = 0x2d :: digits ∧ (∀ byte ∈ digits, isDigit byte) ∧ decimal digits ≠ 0 ∧
        decimal digits ≤ 0x8000000000000000 ∧ n = -(decimal digits : Int) := by
  have integer : (Numeral.ofBytes text).integer? = some n := by
    unfold ofBytes? Numeral.value? at h
    split at h
    case h_1 heq => cases h; exact heq
    case h_2 =>
      cases hx : (Numeral.ofBytes text).magnitude? with
      | none => simp [hx] at h
      | some x => simp [hx] at h
  have plain : (Numeral.ofBytes text).fraction = none ∧ (Numeral.ofBytes text).exponent = none := by
    unfold Numeral.integer? at integer
    cases hf : (Numeral.ofBytes text).fraction <;> cases he : (Numeral.ofBytes text).exponent <;>
      simp_all
  have digits := isDigit_of_mem_unsigned plain.1 plain.2
  by_cases sign : text.head? = some 0x2d
  · obtain ⟨rest, rfl⟩ : ∃ rest, text = 0x2d :: rest := List.head?_eq_some_iff.mp sign
    rw [if_pos sign, List.tail_cons] at digits
    rw [ofBytes_minus digits] at integer
    refine .inr ⟨rest, rfl, digits, ?_⟩
    simp only [Numeral.integer?, Option.isSome_none, Bool.or_self, Bool.false_eq_true, if_false,
      if_true] at integer
    split at integer
    case isTrue h => exact ⟨h.1, h.2, (Option.some_inj.mp integer).symm⟩
    case isFalse => cases integer
  · rw [if_neg sign] at digits
    rw [ofBytes_digits digits] at integer
    refine .inl ⟨digits, ?_⟩
    simp only [Numeral.integer?, Option.isSome_none, Bool.or_self, Bool.false_eq_true,
      if_false] at integer
    split at integer
    case isTrue h => exact ⟨h, (Option.some_inj.mp integer).symm⟩
    case isFalse => cases integer

/-! ## Cuts -/

/-- No digit follows a leading zero behind the sign. -/
def IsTrimmed (text : List UInt8) : Prop :=
  ∀ digit rest, isDigit digit → text ≠ 0x2d :: 0x30 :: digit :: rest

/-- What is left of a numeral keeps between zero and the numeral. -/
theorem curtails_append (some : (ofBytes? text).isSome) (sign : text ≠ [0x2d])
    (trimmed : IsTrimmed (text ++ more)) : Curtails (ofBytes? text) (ofBytes? (text ++ more)) where
  isSome := some
  integer {n} h := by
    rcases digits_of_integer h with ⟨digits, fits, rfl⟩ | ⟨digits, heq, isDigits, nonzero, fits, rfl⟩
    · have hle := decimal_le_append text more
      exact ⟨_, ofBytes?_digits (List.forall_mem_append.mp digits).1 (by omega),
        .inl ⟨by omega, by omega⟩⟩
    cases text with
    | nil => exact ⟨0, ofBytes?_digits (List.forall_mem_nil _) (by decide), .inr ⟨by omega, by omega⟩⟩
    | cons first text =>
      rw [List.cons_append, List.cons.injEq] at heq
      obtain ⟨rfl, rfl⟩ := heq
      have front := (List.forall_mem_append.mp isDigits).1
      have hle := decimal_le_append text more
      by_cases zero : decimal text = 0
      · -- a single zero, which no digit may follow
        exfalso
        cases text with
        | nil => exact sign rfl
        | cons digit rest =>
          obtain rfl := head_eq_of_decimal_eq_zero (front digit List.mem_cons_self) zero
          cases hrest : rest ++ more with
          | nil =>
            rw [List.cons_append, hrest] at nonzero
            exact nonzero rfl
          | cons next others =>
            refine trimmed next others (isDigits next ?_) (by simp [hrest])
            simp [hrest]
      · exact ⟨_, ofBytes?_minus front zero (by omega), .inr ⟨by omega, by omega⟩⟩

end Rebalancing.Json.Number
