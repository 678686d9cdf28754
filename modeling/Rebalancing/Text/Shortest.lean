import Rebalancing.Text.Decimal

/-! # The shortest decimal of a binary number

Among the decimals that round to a given double, one with the fewest digits is taken; of two with as
many digits the nearer one, and of two as near the even one. All comparisons are exact. -/

namespace Rebalancing

/-- The value `mantissa * 2 ^ exponent` of a positive finite double. -/
structure Binary where
  mantissa : Nat
  exponent : Int
  /-- Whether the double below is half as far away as the one above. -/
  narrowBelow : Bool

/-- The value `digits * 10 ^ exponent`. -/
structure Scientific where
  digits : Nat
  exponent : Int
deriving DecidableEq

namespace Binary

/-- The magnitude that the bits of a finite double stand for. -/
def ofBits (bits : UInt64) : Binary :=
  let exponent := ((bits >>> 52) &&& 0x7ff).toNat
  let fraction := (bits &&& 0xfffffffffffff).toNat
  if exponent = 0 then ⟨fraction, -1074, false⟩
  else ⟨0x10000000000000 + fraction, (exponent : Int) - 1075, fraction = 0 && 1 < exponent⟩

/-- The quotient `a * 2 ^ p / 10 ^ k` as a fraction of natural numbers. -/
def ratio (a : Nat) (p k : Int) : Nat × Nat :=
  (a <<< p.toNat * Nat.pow 10 (-k).toNat, 1 <<< (-p).toNat * Nat.pow 10 k.toNat)

/-- Compares `a * 2 ^ p` with a decimal. -/
def compareDecimal (a : Nat) (p : Int) (decimal : Scientific) : Ordering :=
  let (num, den) := ratio a p decimal.exponent
  compare num (decimal.digits * den)

/-- Whether a decimal rounds to the double, to nearest and on a tie to even. -/
def readsBack (x : Binary) (decimal : Scientific) : Bool :=
  let low := compareDecimal (4 * x.mantissa - if x.narrowBelow then 1 else 2) (x.exponent - 2) decimal
  let high := compareDecimal (4 * x.mantissa + 2) (x.exponent - 2) decimal
  let even := x.mantissa % 2 = 0
  (low = .lt || (even && low = .eq)) && (high = .gt || (even && high = .eq))

/-- The power of ten of the leading digit. -/
def magnitude (x : Binary) : Int :=
  let (num, den) := ratio x.mantissa x.exponent 0
  if den ≤ num then (Decimal.digits (num / den)).length - 1
  else -(((List.range 400).find? fun k => den ≤ num * Nat.pow 10 k).getD 0 : Nat)

/-- The neighbours of the double on the grid of multiples of `10 ^ k` that read back, the preferred
one first. -/
def onGrid (x : Binary) (k : Int) : Option Scientific :=
  let (num, den) := ratio x.mantissa x.exponent k
  let below := num / den
  let twice := 2 * (num % den)
  let upward := den < twice || (den = twice && below % 2 = 1)
  let candidates := if upward then [below + 1, below] else [below, below + 1]
  (candidates.map (⟨·, k⟩)).find? x.readsBack

/-- The shortest decimal that reads back. Seventeen digits always suffice. -/
def shortest (x : Binary) : Scientific :=
  ((List.range 17).findSome? fun (places : Nat) => x.onGrid (x.magnitude - places)).getD
    ⟨x.mantissa, x.exponent⟩

end Binary

namespace Scientific

/-- Drops zeros at the end of the digits, at most `count` of them. -/
def trim : Nat → Scientific → Scientific
  | 0, x => x
  | count + 1, x => if x.digits % 10 = 0 then trim count ⟨x.digits / 10, x.exponent + 1⟩ else x

/-- The decimal as text. It is written positionally, always with a point, if the point falls at most
four places in front of the digits and within the first sixteen places; otherwise with an exponent
and no point behind a single digit. -/
def text (x : Scientific) : String :=
  let digits := Decimal.digits x.digits
  let point : Int := digits.length + x.exponent
  let shown :=
    if 0 ≤ x.exponent ∧ point ≤ 16 then digits ++ List.replicate x.exponent.toNat '0' ++ ['.', '0']
    else if 0 < point ∧ point ≤ 16 then digits.take point.toNat ++ '.' :: digits.drop point.toNat
    else if -5 < point ∧ point ≤ 0 then '0' :: '.' :: List.replicate (-point).toNat '0' ++ digits
    else
      let fraction := if digits.length = 1 then [] else '.' :: digits.drop 1
      digits.take 1 ++ fraction ++ 'e' :: (Decimal.signed (point - 1)).toList
  String.ofList shown

end Scientific

/-- The shortest text that reads back as a finite double. -/
def shortestText (x : Float) : String :=
  let sign := if x.toBits >>> 63 = 1 then "-" else ""
  if x == 0 then sign ++ "0.0"
  else sign ++ ((Binary.ofBits x.toBits).shortest.trim 20).text

end Rebalancing
