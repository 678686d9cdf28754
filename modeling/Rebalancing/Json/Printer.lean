import Rebalancing.Json.Value
import Rebalancing.Text.Shortest

/-! # Printing JSON values

A value is written without blanks, as the UTF-8 bytes of its text. In strings only quotes, backslashes
and control characters are escaped. -/

namespace Rebalancing.Json

def ascii (text : String) : List UInt8 := text.toUTF8.toList

def hexDigit (n : UInt8) : UInt8 := if n < 10 then 0x30 + n else 0x57 + n

/-- A byte of a string as it is written. -/
def escapeByte (byte : UInt8) : List UInt8 :=
  if byte = 0x22 then [0x5c, 0x22]
  else if byte = 0x5c then [0x5c, 0x5c]
  else if 0x20 ≤ byte then [byte]
  else match byte with
    | 0x08 => [0x5c, 0x62]
    | 0x09 => [0x5c, 0x74]
    | 0x0a => [0x5c, 0x6e]
    | 0x0c => [0x5c, 0x66]
    | 0x0d => [0x5c, 0x72]
    | _ => [0x5c, 0x75, 0x30, 0x30, hexDigit (byte / 16), hexDigit (byte % 16)]

def printString (text : String) : List UInt8 :=
  0x22 :: (text.toUTF8.toList.flatMap escapeByte ++ [0x22])

def Number.print : Number → List UInt8
  | .integer n => ascii (Decimal.signed n)
  | .float x => ascii (shortestText x)

mutual

/-- The bytes of a value. What cannot be read is written as null. -/
def print : Json → List UInt8
  | .null => ascii "null"
  | .bool value => if value then ascii "true" else ascii "false"
  | .number value => value.print
  | .string text => printString text
  | .array items => 0x5b :: (printItems items ++ [0x5d])
  | .object members => 0x7b :: (printMembers members ++ [0x7d])
  | .unreadable => ascii "null"

def printItems : List Json → List UInt8
  | [] => []
  | [item] => item.print
  | item :: rest => item.print ++ 0x2c :: printItems rest

def printMembers : List (String × Json) → List UInt8
  | [] => []
  | [(name, value)] => printString name ++ 0x3a :: value.print
  | (name, value) :: rest => printString name ++ 0x3a :: (value.print ++ 0x2c :: printMembers rest)

end

end Rebalancing.Json
