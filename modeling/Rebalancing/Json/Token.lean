import Rebalancing.Json.Number

/-! # Tokens of a JSON text

A text is read byte by byte. `Lexer.step` takes in one byte, so a text that arrives in pieces is read
as the whole would be; `Lexer.finish` tells how the text stands when no more bytes come. A string that
is no Unicode text, and a number too large for a double, are tokens without a value: they matter only
where the value is asked for. -/

namespace Rebalancing.Json

inductive Token where
  | openBrace
  | closeBrace
  | openBracket
  | closeBracket
  | comma
  | colon
  | null
  | true
  | false
  | string (text : Option String)
  | number (value : Option Number)
deriving DecidableEq

/-- How a text stands at its end. -/
inductive Ending where
  /-- Nothing is under way. -/
  | finished
  /-- A string is open; `flawed` if it already holds an unpaired surrogate. -/
  | inString (flawed : Bool)
  /-- A numeral lacks digits. -/
  | inNumber
  | inLiteral
  /-- A byte did not fit, and nothing behind it was read. -/
  | malformed
deriving DecidableEq

/-- How far a numeral has been read. -/
inductive NumeralPart where
  | minus
  | zero
  | whole
  | point
  | fraction
  | exponentMark
  | exponentSign
  | exponent
deriving DecidableEq

namespace NumeralPart

/-- Whether a numeral may end here. -/
def isComplete : NumeralPart → Bool
  | .zero | .whole | .fraction | .exponent => true
  | _ => false

/-- What may follow in a numeral. -/
inductive Next where
  | part (part : NumeralPart)
  /-- The numeral ended before this byte. -/
  | ended
  | misfit

/-- The step of a part that may end. -/
def endOr (part : Option NumeralPart) : Next := part.elim .ended .part

def step (part : NumeralPart) (byte : UInt8) : Next :=
  let digit := Number.isDigit byte
  let mark := byte = 0x65 || byte = 0x45
  match part with
  | .minus => if byte = 0x30 then .part .zero else if digit then .part .whole else .misfit
  | .zero =>
    if digit then .misfit
    else endOr (if byte = 0x2e then some .point else if mark then some .exponentMark else none)
  | .whole =>
    endOr (if digit then some .whole else if byte = 0x2e then some .point
      else if mark then some .exponentMark else none)
  | .point => if digit then .part .fraction else .misfit
  | .fraction => endOr (if digit then some .fraction else if mark then some .exponentMark else none)
  | .exponentMark =>
    if byte = 0x2b || byte = 0x2d then .part .exponentSign
    else if digit then .part .exponent else .misfit
  | .exponentSign => if digit then .part .exponent else .misfit
  | .exponent => endOr (if digit then some .exponent else none)

end NumeralPart

/-- The content of a string as far as it has been read, last byte first. -/
structure Content where
  bytes : List UInt8 := []
  /-- Whether there is an unpaired surrogate. -/
  flawed : Bool := .false
deriving DecidableEq

namespace Content

def push (content : Content) (byte : UInt8) : Content := { content with bytes := byte :: content.bytes }

def flaw (content : Content) : Content := { content with flawed := .true }

def pushChar (content : Content) (c : Char) : Content :=
  { content with bytes := (String.utf8EncodeChar c).reverse ++ content.bytes }

def text? (content : Content) : Option String :=
  if content.flawed then none else String.fromUTF8? ⟨content.bytes.reverse.toArray⟩

end Content

/-- What a lexer is in the middle of. -/
inductive Mode where
  | between
  /-- The bytes of a literal that are still to come. -/
  | literal (rest : List UInt8) (token : Token)
  /-- A numeral, last byte first. -/
  | numeral (part : NumeralPart) (bytes : List UInt8)
  | string (content : Content)
  /-- Behind a backslash. -/
  | escape (content : Content)
  /-- Behind an escape for a leading surrogate. -/
  | paired (content : Content) (lead : Nat)
  /-- Behind an escape for a leading surrogate and a backslash. -/
  | pairedEscape (content : Content) (lead : Nat)
  /-- In the four digits of an escape, last digit first, perhaps behind a leading surrogate. -/
  | code (content : Content) (lead : Option Nat) (digits : List UInt8)
  | malformed
deriving DecidableEq

/-- Tokens read so far, last one first, and what is under way. -/
structure Lexer where
  tokens : List Token := []
  mode : Mode := .between
deriving DecidableEq

namespace Lexer

def isBlank (byte : UInt8) : Bool := byte = 0x20 || byte = 0x0a || byte = 0x09 || byte = 0x0d

/-- The first byte of a token, or a blank. -/
def between (tokens : List Token) (byte : UInt8) : Lexer :=
  if isBlank byte then { tokens }
  else match byte with
    | 0x7b => { tokens := .openBrace :: tokens }
    | 0x7d => { tokens := .closeBrace :: tokens }
    | 0x5b => { tokens := .openBracket :: tokens }
    | 0x5d => { tokens := .closeBracket :: tokens }
    | 0x2c => { tokens := .comma :: tokens }
    | 0x3a => { tokens := .colon :: tokens }
    | 0x22 => { tokens, mode := .string {} }
    | 0x2d => { tokens, mode := .numeral .minus [byte] }
    | 0x30 => { tokens, mode := .numeral .zero [byte] }
    | 0x6e => { tokens, mode := .literal [0x75, 0x6c, 0x6c] .null }
    | 0x74 => { tokens, mode := .literal [0x72, 0x75, 0x65] .true }
    | 0x66 => { tokens, mode := .literal [0x61, 0x6c, 0x73, 0x65] .false }
    | _ => { tokens, mode := if Number.isDigit byte then .numeral .whole [byte] else .malformed }

def literal (tokens : List Token) (rest : List UInt8) (token : Token) (byte : UInt8) : Lexer :=
  match rest with
  | [] => { tokens, mode := .malformed }
  | expected :: rest =>
    if byte ≠ expected then { tokens, mode := .malformed }
    else if rest = [] then { tokens := token :: tokens }
    else { tokens, mode := .literal rest token }

def numeralToken (bytes : List UInt8) : Token := .number (Number.ofBytes? bytes.reverse)

def numeral (tokens : List Token) (part : NumeralPart) (bytes : List UInt8) (byte : UInt8) : Lexer :=
  match part.step byte with
  | .part part => { tokens, mode := .numeral part (byte :: bytes) }
  | .ended => between (numeralToken bytes :: tokens) byte
  | .misfit => { tokens, mode := .malformed }

def string (tokens : List Token) (content : Content) (byte : UInt8) : Lexer :=
  if byte = 0x22 then { tokens := .string content.text? :: tokens }
  else if byte = 0x5c then { tokens, mode := .escape content }
  else if byte < 0x20 then { tokens, mode := .malformed }
  else { tokens, mode := .string (content.push byte) }

/-- The byte that a one-letter escape stands for. -/
def escaped? (byte : UInt8) : Option UInt8 :=
  match byte with
  | 0x22 => some 0x22
  | 0x5c => some 0x5c
  | 0x2f => some 0x2f
  | 0x62 => some 0x08
  | 0x66 => some 0x0c
  | 0x6e => some 0x0a
  | 0x72 => some 0x0d
  | 0x74 => some 0x09
  | _ => none

def escape (tokens : List Token) (content : Content) (byte : UInt8) : Lexer :=
  if byte = 0x75 then { tokens, mode := .code content none [] }
  else match escaped? byte with
    | some byte => { tokens, mode := .string (content.push byte) }
    | none => { tokens, mode := .malformed }

/-- The value of a hexadecimal digit. -/
def hexValue? (byte : UInt8) : Option Nat :=
  if 0x30 ≤ byte && byte ≤ 0x39 then some (byte.toNat - 0x30)
  else if 0x41 ≤ byte && byte ≤ 0x46 then some (byte.toNat - 0x37)
  else if 0x61 ≤ byte && byte ≤ 0x66 then some (byte.toNat - 0x57)
  else none

/-- The number that digits, last one first, stand for. -/
def codeValue? : List UInt8 → Option Nat
  | [] => some 0
  | digit :: rest => do return 16 * (← codeValue? rest) + (← hexValue? digit)

def isLead (code : Nat) : Bool := 0xd800 ≤ code && code ≤ 0xdbff

def isTrail (code : Nat) : Bool := 0xdc00 ≤ code && code ≤ 0xdfff

/-- The character of a pair of surrogates. -/
def pairChar (lead trail : Nat) : Char := .ofNat (0x10000 + (lead - 0xd800) * 0x400 + (trail - 0xdc00))

/-- Takes in the code of an escape. An unpaired surrogate is a flaw of the string. -/
def decoded (content : Content) (lead : Option Nat) (code : Nat) : Mode :=
  match lead with
  | some lead =>
    if isTrail code then .string (content.pushChar (pairChar lead code))
    else if isLead code then .paired content.flaw code
    else .string content.flaw
  | none =>
    if isLead code then .paired content code
    else if isTrail code then .string content.flaw
    else .string (content.pushChar (.ofNat code))

/-- The digits of an escape are looked at when all four are there. -/
def code (tokens : List Token) (content : Content) (lead : Option Nat) (digits : List UInt8)
    (byte : UInt8) : Lexer :=
  let digits := byte :: digits
  if digits.length < 4 then { tokens, mode := .code content lead digits }
  else match codeValue? digits with
    | none => { tokens, mode := .malformed }
    | some code => { tokens, mode := decoded content lead code }

/-- Takes in one byte. -/
def step (lexer : Lexer) (byte : UInt8) : Lexer :=
  match lexer.mode with
  | .between => between lexer.tokens byte
  | .literal rest token => literal lexer.tokens rest token byte
  | .numeral part bytes => numeral lexer.tokens part bytes byte
  | .string content => string lexer.tokens content byte
  | .escape content => escape lexer.tokens content byte
  | .paired content lead =>
    if byte = 0x5c then { lexer with mode := .pairedEscape content lead }
    else string lexer.tokens content.flaw byte
  | .pairedEscape content lead =>
    if byte = 0x75 then { lexer with mode := .code content (some lead) [] }
    else escape lexer.tokens content.flaw byte
  | .code content lead digits => code lexer.tokens content lead digits byte
  | .malformed => lexer

def feed (lexer : Lexer) (bytes : List UInt8) : Lexer := bytes.foldl step lexer

/-- The tokens of a text that ends here. -/
def finish (lexer : Lexer) : List Token × Ending :=
  let ended (ending : Ending) := (lexer.tokens.reverse, ending)
  match lexer.mode with
  | .between => ended .finished
  | .literal _ _ => ended .inLiteral
  | .numeral part bytes =>
    if part.isComplete then ((numeralToken bytes :: lexer.tokens).reverse, .finished)
    else ended .inNumber
  | .string content | .escape content | .paired content _ | .pairedEscape content _
  | .code content _ _ => ended (.inString content.flawed)
  | .malformed => ended .malformed

@[simp] theorem feed_append (lexer : Lexer) (first second : List UInt8) :
    lexer.feed (first ++ second) = (lexer.feed first).feed second := List.foldl_append

end Lexer

end Rebalancing.Json
