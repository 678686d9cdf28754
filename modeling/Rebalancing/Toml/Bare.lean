import Rebalancing.Toml.Quoted
import Rebalancing.Toml.Value

/-! # Values of TOML written without quotes

Integers in four bases, numbers with a fraction or an exponent, points in time and truth values. Each
is recognised as a whole, and an underscore may stand between two digits. -/

namespace Rebalancing.Toml.Bare

/-- Digits with single underscores between them, without the underscores. -/
def digits? (isDigit : Char → Bool) : List Char → Option (List Char)
  | [] => none
  | [c] => if isDigit c then some [c] else none
  | c :: '_' :: rest => if isDigit c then (digits? isDigit rest).map (c :: ·) else none
  | c :: rest => if isDigit c then (digits? isDigit rest).map (c :: ·) else none

def isHexDigit (c : Char) : Bool := (Quoted.hexValue? c).isSome

def isOctalDigit (c : Char) : Bool := '0' ≤ c && c ≤ '7'

def isBinaryDigit (c : Char) : Bool := c = '0' || c = '1'

def numeral (base : Nat) (digits : List Char) : Nat :=
  digits.foldl (fun value c => base * value + (Quoted.hexValue? c).getD 0) 0

/-- The value of digits in a base, within 63 bits. -/
def based? (base : Nat) (isDigit : Char → Bool) (text : List Char) : Option Int := do
  let value := numeral base (← digits? isDigit text)
  if value < 0x8000000000000000 then some value else none

/-- Decimal digits without a leading zero. -/
def plainDigits? (text : List Char) : Option (List Char) :=
  match text with
  | ['0'] => some ['0']
  | '0' :: _ => none
  | _ => digits? Char.isDigit text

/-- A sign, if there is one, and what follows. -/
def signed : List Char → Bool × List Char
  | '-' :: rest => (true, rest)
  | '+' :: rest => (false, rest)
  | rest => (false, rest)

/-- A decimal integer within 64 bits. -/
def decimal? (text : List Char) : Option Int := do
  let (negative, text) := signed text
  let value := numeral 10 (← plainDigits? text)
  if negative then if value ≤ 0x8000000000000000 then some (-(value : Int)) else none
  else if value < 0x8000000000000000 then some value else none

def integer? : List Char → Option Int
  | '0' :: 'x' :: rest => based? 16 isHexDigit rest
  | '0' :: 'o' :: rest => based? 8 isOctalDigit rest
  | '0' :: 'b' :: rest => based? 2 isBinaryDigit rest
  | text => decimal? text

def isExponentMark (c : Char) : Bool := c = 'e' || c = 'E'

/-- The exponent behind its mark: a sign, and digits that may begin with zeros. -/
def exponent? (text : List Char) : Option Int := do
  let (negative, text) := signed text
  let value := numeral 10 (← digits? Char.isDigit text)
  return if negative then -(value : Int) else value

/-- The places in front of the first significant digit of a product `value * 10 ^ exponent`, as far as
they tell that it exceeds every double. -/
def exceedsDoubles (value : Nat) (exponent : Int) : Bool :=
  let places := (Nat.toDigits 10 value).length
  let limit := 1 <<< 1024 - 1 <<< 970
  if value = 0 || places + exponent < 300 then false
  else if 310 < places + exponent then true
  else if 0 ≤ exponent then limit ≤ value * Nat.pow 10 exponent.toNat
  else limit * Nat.pow 10 exponent.natAbs ≤ value

/-- Whether a text is a number with a fraction or an exponent. One that rounds up to infinity is none,
but one that rounds down to it is. -/
def isFloat (text : List Char) : Bool :=
  let (negative, unsigned) := signed text
  if unsigned = ['i', 'n', 'f'] || unsigned = ['n', 'a', 'n'] then true
  else
    let whole := unsigned.takeWhile fun c => c ≠ '.' && !isExponentMark c
    let rest := unsigned.dropWhile fun c => c ≠ '.' && !isExponentMark c
    let parsed : Option (Nat × Int) := do
      let whole ← plainDigits? whole
      match rest with
      | '.' :: rest =>
        let fraction ← digits? Char.isDigit (rest.takeWhile (!isExponentMark ·))
        let exponent ← match rest.dropWhile (!isExponentMark ·) with
          | [] => some 0
          | _ :: rest => exponent? rest
        return (numeral 10 (whole ++ fraction), exponent - fraction.length)
      | mark :: rest =>
        if isExponentMark mark then return (numeral 10 whole, ← exponent? rest) else none
      | [] => none
    match parsed with
    | none => false
    | some (value, exponent) => negative || !exceedsDoubles value exponent

/-- Two digits whose value is within bounds. -/
def twoDigits? (low high : Nat) (a b : Char) : Option Nat :=
  if a.isDigit && b.isDigit then
    let value := numeral 10 [a, b]
    if low ≤ value && value ≤ high then some value else none
  else none

def isLeapYear (year : Nat) : Bool := year % 4 = 0 && (year % 100 ≠ 0 || year % 400 = 0)

def daysInMonth (year month : Nat) : Nat :=
  if month = 2 then if isLeapYear year then 29 else 28
  else if month = 4 || month = 6 || month = 9 || month = 11 then 30
  else 31

/-- A date, and what follows it. -/
def date? : List Char → Option (List Char)
  | a :: b :: c :: d :: '-' :: e :: f :: '-' :: g :: h :: rest =>
    if [a, b, c, d].all Char.isDigit then
      match twoDigits? 1 12 e f, twoDigits? 1 31 g h with
      | some month, some day =>
        if day ≤ daysInMonth (numeral 10 [a, b, c, d]) month then some rest else none
      | _, _ => none
    else none
  | _ => none

/-- A time of day, and what follows it. -/
def time? : List Char → Option (List Char)
  | a :: b :: ':' :: c :: d :: ':' :: e :: f :: rest =>
    if (twoDigits? 0 23 a b).isSome && (twoDigits? 0 59 c d).isSome && (twoDigits? 0 60 e f).isSome then
      match rest with
      | '.' :: rest =>
        if rest.takeWhile Char.isDigit = [] then none else some (rest.dropWhile Char.isDigit)
      | rest => some rest
    else none
  | _ => none

/-- Whether a text is nothing or the offset of a time zone. -/
def isOffset : List Char → Bool
  | [] => true
  | ['Z'] | ['z'] => true
  | [sign, a, b, ':', c, d] =>
    (sign = '+' || sign = '-') && (twoDigits? 0 23 a b).isSome && (twoDigits? 0 59 c d).isSome
  | _ => false

/-- Whether a text is a time of day, perhaps with an offset. -/
def isZonedTime (text : List Char) : Bool := (time? text).any isOffset

/-- Whether a text is a date, a time of day, or both joined by a `T`. -/
def isMoment (text : List Char) : Bool :=
  match date? text with
  | some [] => true
  | some ('T' :: time) | some ('t' :: time) => isZonedTime time
  | some _ => false
  | none => time? text = some []

/-- The characters that values without quotes are made of. -/
def isValueChar (c : Char) : Bool :=
  c.isAlphanum || c = '_' || c = '+' || c = '-' || c = '.' || c = ':'

def value? (text : List Char) : Option Toml :=
  if text = "true".toList then some (.boolean true)
  else if text = "false".toList then some (.boolean false)
  else match integer? text with
    | some n => some (.integer n)
    | none =>
      if isFloat text then some (.float (String.ofList text))
      else if isMoment text then some (.moment (String.ofList text))
      else none

/-- A value without quotes at the front of a text, and what follows it. A date and a time of day may
also be joined by a space. -/
def read (text : List Char) : Option (Toml × List Char) :=
  let token := text.takeWhile isValueChar
  let rest := text.dropWhile isValueChar
  match date? token, rest with
  | some [], ' ' :: rest =>
    let time := rest.takeWhile isValueChar
    if isZonedTime time then
      some (.moment (String.ofList (token ++ ' ' :: time)), rest.dropWhile isValueChar)
    else some (.moment (String.ofList token), ' ' :: rest)
  | _, _ => (value? token).map (·, rest)

end Rebalancing.Toml.Bare
