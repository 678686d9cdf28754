import Rebalancing.Text.Decimal

/-! # Numbers of a JSON text

An integer within 64 bits stays exact, and any other number becomes a double. A double is read by
gathering digits in a 64-bit word for as long as they fit; what does not fit only shifts the decimal
point, and the result is the word multiplied or divided by a power of ten. -/

namespace Rebalancing.Json

inductive Number where
  | integer (n : Int)
  | float (x : Float)
deriving DecidableEq

namespace Number

/-- The parts of a numeral, digits as their values. -/
structure Numeral where
  negative : Bool
  whole : List Nat
  /-- The digits after the point, if there is one. -/
  fraction : Option (List Nat)
  /-- Whether the exponent is negative, and its digits, if there is one. -/
  exponent : Option (Bool × List Nat)
deriving DecidableEq

def isDigit (byte : UInt8) : Bool := 0x30 ≤ byte && byte ≤ 0x39

def digitValues (digits : List UInt8) : List Nat := digits.map fun byte => byte.toNat - 0x30

def readExponent : List UInt8 → Option (Bool × List Nat)
  | [] => none
  | _ :: rest =>
    match rest with
    | 0x2d :: digits => some (true, digitValues digits)
    | 0x2b :: digits => some (false, digitValues digits)
    | digits => some (false, digitValues digits)

/-- Takes a numeral apart. -/
def Numeral.ofBytes (text : List UInt8) : Numeral :=
  let unsigned := if text.head? = some 0x2d then text.tail else text
  let afterWhole := unsigned.dropWhile isDigit
  let fraction := match afterWhole with
    | 0x2e :: rest => some (rest.takeWhile isDigit, rest.dropWhile isDigit)
    | _ => none
  { negative := text.head? = some 0x2d
    whole := digitValues (unsigned.takeWhile isDigit)
    fraction := fraction.map fun (digits, _) => digitValues digits
    exponent := readExponent (fraction.elim afterWhole (·.2)) }

/-- Digits gathered in a word, and the power of ten it stands for. -/
structure Gathered where
  word : Nat
  power : Int

/-- Gathers the digits in front of the point. Once a digit does not fit, it and all behind it count
as powers of ten. -/
def gatherWhole (word : Nat) : List Nat → Gathered
  | [] => ⟨word, 0⟩
  | digit :: rest =>
    if word * 10 + digit < 0x10000000000000000 then gatherWhole (word * 10 + digit) rest
    else ⟨word, rest.length + 1⟩

/-- Gathers the digits behind the point, as far as they fit. -/
def gatherFraction (g : Gathered) : List Nat → Gathered
  | [] => g
  | digit :: rest =>
    if g.word * 10 + digit < 0x10000000000000000 then
      gatherFraction ⟨g.word * 10 + digit, g.power - 1⟩ rest
    else g

/-- An exponent, unless it exceeds 31 bits. -/
def exponentValue? (value : Nat) : List Nat → Option Nat
  | [] => some value
  | digit :: rest =>
    if value * 10 + digit < 0x80000000 then exponentValue? (value * 10 + digit) rest else none

def powerOfTen (n : Nat) : Float := .ofScientific 1 false n

/-- The double nearest to `x * 10 ^ power`, up to rounding at each of its steps; none if it is too
large. A power below -308 is taken in steps of 308. -/
def scale : Nat → Float → Int → Option Float
  | 0, x, _ => some x
  | steps + 1, x, power =>
    if power.natAbs ≤ 308 then
      if 0 ≤ power then
        let scaled := x * powerOfTen power.natAbs
        if scaled.isInf then none else some scaled
      else some (x / powerOfTen power.natAbs)
    else if x == 0 then some x
    else if 0 ≤ power then none
    else scale steps (x / powerOfTen 308) (power + 308)

/-- The powers of ten within 32 bits; what lies beyond is cut off. -/
def clampPower (power : Int) : Int := max Int32.minValue.toInt (min power Int32.maxValue.toInt)

/-- The double of gathered digits. A few steps of 308 lead to zero. -/
def Gathered.toFloat? (g : Gathered) : Option Float := scale 8 (UInt64.ofNat g.word).toFloat g.power

/-- The double that a numeral stands for, without its sign. -/
def Numeral.magnitude? (numeral : Numeral) : Option Float :=
  let whole := gatherWhole 0 numeral.whole
  let g := numeral.fraction.elim whole (gatherFraction whole)
  match numeral.exponent with
  | none => g.toFloat?
  | some (negative, digits) =>
    match exponentValue? 0 digits with
    | none => if g.word = 0 || negative then some 0 else none
    | some value =>
      let shift : Int := if negative then -value else value
      Gathered.toFloat? ⟨g.word, clampPower (g.power + shift)⟩

/-- The value of a numeral with neither fraction nor exponent, if it fits in 64 bits. A negative zero
is left to the doubles. -/
def Numeral.integer? (numeral : Numeral) : Option Int :=
  let value : Nat := numeral.whole.foldl (fun value digit => 10 * value + digit) 0
  if numeral.fraction.isSome || numeral.exponent.isSome then none
  else if numeral.negative then
    if value ≠ 0 ∧ value ≤ 0x8000000000000000 then some (-(value : Int)) else none
  else if value < 0x10000000000000000 then some value else none

/-- The number of a numeral; none if it is too large for a double. -/
def Numeral.value? (numeral : Numeral) : Option Number :=
  match numeral.integer? with
  | some n => some (.integer n)
  | none => numeral.magnitude?.map fun x => .float (if numeral.negative then -x else x)

/-- Reads the text of a numeral. -/
def ofBytes? (text : List UInt8) : Option Number := (Numeral.ofBytes text).value?

end Number

end Rebalancing.Json
