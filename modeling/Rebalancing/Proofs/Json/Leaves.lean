import Mathlib.Data.List.TakeWhile
import Mathlib.Tactic.IntervalCases
import Rebalancing.Json.Printer
import Rebalancing.Json.Token

/-!
# Leaves in JSON texts

What the lexer makes of a printed leaf: of a literal its token, of a string the text again, and
of a natural number a numeral under way that means the number.
-/

namespace Rebalancing.Json

/-! ## Bytes of texts -/

private theorem toList_loop (bytes : ByteArray) (i : Nat) (before : List UInt8) :
    ByteArray.toList.loop bytes i before = before.reverse ++ bytes.data.toList.drop i := by
  induction i, before using ByteArray.toList.loop.induct bytes with
  | case1 i before h ih =>
    have hi : i < bytes.data.toList.length := by simpa using h
    have hget : bytes.get! i = bytes.data.toList[i] := by
      rw [Array.getElem_toList]
      exact getElem!_pos bytes.data i hi
    rw [ByteArray.toList.loop, if_pos h, ih, List.drop_eq_getElem_cons hi, hget]
    simp
  | case2 i before h =>
    have hi : bytes.data.toList.length ≤ i := by simpa using h
    rw [ByteArray.toList.loop, if_neg h, List.drop_eq_nil_of_le hi, List.append_nil]

theorem toList_eq_data (bytes : ByteArray) : bytes.toList = bytes.data.toList :=
  toList_loop bytes 0 []

/-- The bytes of a text are the bytes of its characters. -/
theorem ascii_ofList (chars : List Char) :
    ascii (.ofList chars) = chars.flatMap String.utf8EncodeChar := by
  rw [ascii, String.toUTF8_eq_toByteArray, String.toByteArray_ofList, toList_eq_data,
    List.utf8Encode, List.toList_data_toByteArray]

/-- The bytes of a text are a text again. -/
theorem fromUTF8?_toUTF8 (text : String) :
    String.fromUTF8? ⟨text.toUTF8.toList.toArray⟩ = some text := by
  rw [toList_eq_data, Array.toArray_toList, String.fromUTF8?]
  exact dif_pos text.isValidUTF8

namespace Lexer

variable {tokens : List Token}

/-! ## Literals -/

theorem feed_null : feed ⟨tokens, .between⟩ (ascii "null") = { tokens := .null :: tokens } :=
  congrArg (feed _) (ascii_ofList ['n', 'u', 'l', 'l'])

theorem feed_true : feed ⟨tokens, .between⟩ (ascii "true") = { tokens := .true :: tokens } :=
  congrArg (feed _) (ascii_ofList ['t', 'r', 'u', 'e'])

theorem feed_false : feed ⟨tokens, .between⟩ (ascii "false") = { tokens := .false :: tokens } :=
  congrArg (feed _) (ascii_ofList ['f', 'a', 'l', 's', 'e'])

/-! ## Strings -/

/-- Control characters are written as escapes. -/
theorem feed_escapeByte_of_lt (content : Content) {n : Nat} (h : n < 32) :
    feed ⟨tokens, .string content⟩ (escapeByte (.ofNat n)) =
      ⟨tokens, .string (content.push (.ofNat n))⟩ := by
  interval_cases n <;> rfl

/-- A byte of a string is read as it was before it was written. -/
theorem feed_escapeByte (content : Content) (byte : UInt8) :
    feed ⟨tokens, .string content⟩ (escapeByte byte) = ⟨tokens, .string (content.push byte)⟩ := by
  by_cases control : byte < 0x20
  · have h := @feed_escapeByte_of_lt tokens content _ (UInt8.lt_iff_toNat_lt.mp control)
    rwa [UInt8.ofNat_toNat] at h
  unfold escapeByte
  split
  case isTrue h => rw [h]; rfl
  split
  case isTrue h => rw [h]; rfl
  case isFalse hquote hescape =>
    rw [if_pos (UInt8.not_lt.mp control)]
    show string tokens content byte = _
    rw [string, if_neg hquote, if_neg hescape, if_neg control]

theorem feed_escapeBytes (content : Content) (bytes : List UInt8) :
    feed ⟨tokens, .string content⟩ (bytes.flatMap escapeByte) =
      ⟨tokens, .string { content with bytes := bytes.reverse ++ content.bytes }⟩ := by
  induction bytes generalizing content with
  | nil => rfl
  | cons byte rest ih =>
    rw [List.flatMap_cons, feed_append, feed_escapeByte, ih, List.reverse_cons, List.append_assoc]
    rfl

/-- A printed string is one token, which holds the string. -/
theorem feed_printString (text : String) :
    feed ⟨tokens, .between⟩ (printString text) = { tokens := .string (some text) :: tokens } := by
  have hread : Content.text? { bytes := text.toUTF8.toList.reverse } = some text := by
    rw [Content.text?, if_neg Bool.false_ne_true, List.reverse_reverse, fromUTF8?_toUTF8]
  show feed ⟨tokens, .string {}⟩ (text.toUTF8.toList.flatMap escapeByte ++ [0x22]) = _
  rw [feed_append, feed_escapeBytes, List.append_nil, ← hread]
  rfl

end Lexer

/-! ## Numerals -/

/-- The numeral of a natural number. -/
def numeralBytes (n : Nat) : List UInt8 := ascii (Decimal.text n)

/-- The numeral of a digit. -/
def digitByte (digit : Nat) : UInt8 := .ofNat (0x30 + digit)

theorem utf8EncodeChar_digitChar {digit : Nat} (h : digit < 10) :
    String.utf8EncodeChar digit.digitChar = [digitByte digit] := by
  interval_cases digit <;> rfl

theorem numeralBytes_of_lt {n : Nat} (h : n < 10) : numeralBytes n = [digitByte n] := by
  rw [numeralBytes, Decimal.text, Decimal.digits, Nat.toDigits_of_lt_base h, ascii_ofList,
    List.flatMap_singleton, utf8EncodeChar_digitChar h]

theorem numeralBytes_of_le {n : Nat} (h : 10 ≤ n) :
    numeralBytes n = numeralBytes (n / 10) ++ [digitByte (n % 10)] := by
  have hdigit : n % 10 < 10 := Nat.mod_lt n (by decide)
  simp only [numeralBytes, Decimal.text, Decimal.digits, ascii_ofList]
  rw [Nat.toDigits_of_base_le (by decide) h, List.flatMap_append, List.flatMap_singleton,
    utf8EncodeChar_digitChar hdigit]

/-- Numerals grow digit by digit. -/
theorem numeral_induction {motive : Nat → Prop} (digit : ∀ n, n < 10 → motive n)
    (more : ∀ n, 10 ≤ n → motive (n / 10) → motive n) (n : Nat) : motive n := by
  induction n using Nat.strongRecOn with
  | ind n ih =>
    by_cases h : n < 10
    · exact digit n h
    · exact more n (by omega) (ih _ (by omega))

theorem isDigit_digitByte {digit : Nat} (h : digit < 10) : Number.isDigit (digitByte digit) := by
  interval_cases digit <;> rfl

theorem digitValues_digitByte {digit : Nat} (h : digit < 10) :
    Number.digitValues [digitByte digit] = [digit] := by
  interval_cases digit <;> rfl

theorem isDigit_of_mem_numeralBytes (n : Nat) : ∀ byte ∈ numeralBytes n, Number.isDigit byte := by
  induction n using numeral_induction with
  | digit n h =>
    rw [numeralBytes_of_lt h]
    intro byte mem
    rw [List.mem_singleton.mp mem]
    exact isDigit_digitByte h
  | more n h ih =>
    rw [numeralBytes_of_le h]
    intro byte mem
    rcases List.mem_append.mp mem with mem | mem
    · exact ih byte mem
    · rw [List.mem_singleton.mp mem]
      exact isDigit_digitByte (Nat.mod_lt n (by decide))

/-- The digits of a numeral mean its number. -/
theorem foldl_digitValues_numeralBytes (n : Nat) :
    (Number.digitValues (numeralBytes n)).foldl (fun value digit => 10 * value + digit) 0 = n := by
  induction n using numeral_induction with
  | digit n h => rw [numeralBytes_of_lt h, digitValues_digitByte h]; simp
  | more n h ih =>
    rw [numeralBytes_of_le h, Number.digitValues, List.map_append]
    show ((Number.digitValues _ ++ Number.digitValues _).foldl _ 0) = n
    rw [digitValues_digitByte (Nat.mod_lt n (by decide)), List.foldl_append, ih]
    simp only [List.foldl_cons, List.foldl_nil]
    omega

/-- Digits alone are the whole part of a number. -/
theorem ofBytes_digits {digits : List UInt8} (h : ∀ byte ∈ digits, Number.isDigit byte) :
    Number.Numeral.ofBytes digits = {
      negative := false
      whole := Number.digitValues digits
      fraction := none
      exponent := none } := by
  have unsigned : digits.head? ≠ some 0x2d := by
    intro first
    have hdigit := h _ (List.mem_of_head? first)
    simp [Number.isDigit] at hdigit
  have htake := List.takeWhile_eq_self_iff.mpr h
  have hdrop := List.dropWhile_eq_nil_iff.mpr h
  simp [Number.Numeral.ofBytes, unsigned, htake, hdrop, Number.readExponent]

/-- The numeral of a number within 64 bits means the number. -/
theorem ofBytes?_numeralBytes {n : Nat} (h : n < 0x10000000000000000) :
    Number.ofBytes? (numeralBytes n) = some (.integer n) := by
  have hvalue := foldl_digitValues_numeralBytes n
  have hbytes := ofBytes_digits (isDigit_of_mem_numeralBytes n)
  simp [Number.ofBytes?, Number.Numeral.value?, Number.Numeral.integer?, hbytes, hvalue, h]

namespace Lexer

variable {tokens : List Token}

/-- How far the numeral of a natural number has been read. -/
def wholePart (n : Nat) : NumeralPart := if n = 0 then .zero else .whole

theorem between_digitByte {digit : Nat} (h : digit < 10) :
    between tokens (digitByte digit) =
      ⟨tokens, .numeral (wholePart digit) [digitByte digit]⟩ := by
  interval_cases digit <;> rfl

/-- A numeral stays under way until something follows it. -/
theorem feed_numeralBytes (n : Nat) :
    feed ⟨tokens, .between⟩ (numeralBytes n) =
      ⟨tokens, .numeral (wholePart n) (numeralBytes n).reverse⟩ := by
  induction n using numeral_induction with
  | digit n h =>
    rw [numeralBytes_of_lt h]
    exact between_digitByte h
  | more n h ih =>
    have hfront : wholePart (n / 10) = .whole := if_neg (by omega)
    have hwhole : wholePart n = .whole := if_neg (by omega)
    have hdigit := isDigit_digitByte (Nat.mod_lt n (by decide : 0 < 10))
    rw [numeralBytes_of_le h, feed_append, ih, hfront, hwhole, List.reverse_append]
    show numeral tokens .whole _ _ = _
    rw [numeral]
    simp [NumeralPart.step, hdigit, NumeralPart.endOr]

end Lexer

end Rebalancing.Json
