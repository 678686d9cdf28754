import Rebalancing.Text.Decimal

/-! # Hexadecimal texts

Two digits for each byte, the higher first. Digits are written in lower case and read in either. -/

namespace Rebalancing.Hex

/-- Why a text stands for no byte string of the wanted length. -/
inductive Error where
  | oddLength
  | wrongLength
  /-- A byte of the text that is no digit, and its place. -/
  | notDigit (byte : UInt8) (index : Nat)
deriving DecidableEq

def digit (n : Nat) : Char := Nat.digitChar n

/-- The value of a hexadecimal digit. -/
def value? (byte : UInt8) : Option UInt8 :=
  if 0x30 ≤ byte ∧ byte ≤ 0x39 then some (byte - 0x30)
  else if 0x41 ≤ byte ∧ byte ≤ 0x46 then some (byte - 0x37)
  else if 0x61 ≤ byte ∧ byte ≤ 0x66 then some (byte - 0x57)
  else none

def encodeByte (byte : UInt8) : List Char := [digit (byte.toNat / 16), digit (byte.toNat % 16)]

def encode (bytes : List UInt8) : String := String.ofList (bytes.flatMap encodeByte)

def digitAt (byte : UInt8) (index : Nat) : Except Error UInt8 :=
  match value? byte with
  | some value => .ok value
  | none => .error (.notDigit byte index)

/-- Reads digits in pairs; `index` is the place of the first. -/
def decodePairs (index : Nat) : List UInt8 → Except Error (List UInt8)
  | high :: low :: rest => do
    let high ← digitAt high index
    let low ← digitAt low (index + 1)
    let bytes ← decodePairs (index + 2) rest
    return (high * 16 + low) :: bytes
  | _ => .ok []

/-- Reads exactly `size` bytes from the bytes of a text. The length is checked first. -/
def decode (size : Nat) (text : List UInt8) : Except Error (List UInt8) :=
  if text.length % 2 ≠ 0 then .error .oddLength
  else if text.length ≠ 2 * size then .error .wrongLength
  else decodePairs 0 text

theorem length_decodePairs {index : Nat} {text bytes : List UInt8}
    (h : decodePairs index text = .ok bytes) : bytes.length = text.length / 2 := by
  fun_induction decodePairs index text generalizing bytes with
  | case1 index high low rest ih =>
    simp only [bind, Except.bind, pure, Except.pure] at h
    split at h
    · simp at h
    · split at h
      · simp at h
      · split at h
        · simp at h
        next hr =>
          have := ih hr
          cases h
          simp only [List.length_cons]
          omega
  | case2 text index hne =>
    cases h
    match text with
    | [] => simp
    | [_] => simp
    | high :: low :: rest => exact absurd rfl (hne high low rest)

/-- A byte between quotes as a character literal: the usual escapes, and code points for what is
not printable. -/
def quoted (byte : UInt8) : String :=
  if byte = 0 then "'\\0'"
  else if byte = 0x09 then "'\\t'"
  else if byte = 0x0a then "'\\n'"
  else if byte = 0x0d then "'\\r'"
  else if byte = 0x27 then "'\\''"
  else if byte = 0x5c then "'\\\\'"
  else if byte < 0x20 ∨ (0x7f ≤ byte ∧ byte ≤ 0xa0) ∨ byte = 0xad then
    "'\\u\x7b" ++ String.ofList (Nat.toDigits 16 byte.toNat) ++ "\x7d'"
  else "'" ++ String.singleton (.ofNat byte.toNat) ++ "'"

def Error.message : Error → String
  | .oddLength => "Odd number of digits"
  | .wrongLength => "Invalid string length"
  | .notDigit byte index =>
    "Invalid character " ++ quoted byte ++ " at position " ++ Decimal.text index

end Rebalancing.Hex
