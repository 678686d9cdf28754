/-! # Quoted texts of TOML

There are four kinds: in double quotes with escapes, in single quotes without, and each of them in
triple quotes over several lines. Readers take the text behind the opening quotes and give back what
is behind the closing ones. -/

namespace Rebalancing.Toml.Quoted

/-- Characters that stand for themselves: no control characters but the tab. -/
def isPlain (c : Char) : Bool := c = '\t' || (' ' ≤ c && c ≠ '\x7f')

def isBlank (c : Char) : Bool := c = ' ' || c = '\t'

def hexValue? (c : Char) : Option Nat :=
  if '0' ≤ c && c ≤ '9' then some (c.toNat - '0'.toNat)
  else if 'a' ≤ c && c ≤ 'f' then some (c.toNat - 'a'.toNat + 10)
  else if 'A' ≤ c && c ≤ 'F' then some (c.toNat - 'A'.toNat + 10)
  else none

/-- The character with the code that hexadecimal digits give. -/
def codeChar? (digits : List Char) : Option Char := do
  let code ← digits.foldlM (fun code digit => (hexValue? digit).map (16 * code + ·)) 0
  if h : code.isValidChar then some (.ofNatAux code h) else none

/-- What a one-letter escape stands for. -/
def escaped? : Char → Option Char
  | 'b' => some '\x08'
  | 't' => some '\t'
  | 'n' => some '\n'
  | 'f' => some '\x0c'
  | 'r' => some '\r'
  | '"' => some '"'
  | '\\' => some '\\'
  | _ => none

/-- The text up to a closing double quote. -/
def basic : List Char → Option (List Char × List Char)
  | '"' :: rest => some ([], rest)
  | '\\' :: 'u' :: a :: b :: c :: d :: rest => do
    let char ← codeChar? [a, b, c, d]
    let (text, rest) ← basic rest
    return (char :: text, rest)
  | '\\' :: 'U' :: a :: b :: c :: d :: e :: f :: g :: h :: rest => do
    let char ← codeChar? [a, b, c, d, e, f, g, h]
    let (text, rest) ← basic rest
    return (char :: text, rest)
  | '\\' :: e :: rest => do
    let char ← escaped? e
    let (text, rest) ← basic rest
    return (char :: text, rest)
  | c :: rest =>
    if isPlain c && c ≠ '\\' then (basic rest).map fun (text, rest) => (c :: text, rest) else none
  | [] => none

/-- The text up to a closing single quote. -/
def literal : List Char → Option (List Char × List Char)
  | '\'' :: rest => some ([], rest)
  | c :: rest => if isPlain c then (literal rest).map fun (text, rest) => (c :: text, rest) else none
  | [] => none

/-- Where a reader is in a text over several lines. -/
inductive Place where
  | text
  /-- Behind a backslash with nothing but blanks after it on its line. -/
  | lineEnd
  /-- In the blanks and line breaks that such a backslash removes. -/
  | gap
deriving DecidableEq

/-- The text up to three closing double quotes. One or two more belong to the text, and a line break
is always a line feed. -/
def basicLines : Place → List Char → Option (List Char × List Char)
  | .lineEnd, '\n' :: rest => basicLines .gap rest
  | .lineEnd, '\r' :: '\n' :: rest => basicLines .gap rest
  | .lineEnd, c :: rest => if isBlank c then basicLines .lineEnd rest else none
  | .gap, '\n' :: rest => basicLines .gap rest
  | .gap, '\r' :: '\n' :: rest => basicLines .gap rest
  | _, '"' :: '"' :: '"' :: '"' :: '"' :: rest => some (['"', '"'], rest)
  | _, '"' :: '"' :: '"' :: '"' :: rest => some (['"'], rest)
  | _, '"' :: '"' :: '"' :: rest => some ([], rest)
  | _, '\r' :: '\n' :: rest => (basicLines .text rest).map fun (text, rest) => ('\n' :: text, rest)
  | _, '\n' :: rest => (basicLines .text rest).map fun (text, rest) => ('\n' :: text, rest)
  | _, '\\' :: 'u' :: a :: b :: c :: d :: rest => do
    let char ← codeChar? [a, b, c, d]
    let (text, rest) ← basicLines .text rest
    return (char :: text, rest)
  | _, '\\' :: 'U' :: a :: b :: c :: d :: e :: f :: g :: h :: rest => do
    let char ← codeChar? [a, b, c, d, e, f, g, h]
    let (text, rest) ← basicLines .text rest
    return (char :: text, rest)
  | _, '\\' :: '\n' :: rest => basicLines .gap rest
  | _, '\\' :: '\r' :: '\n' :: rest => basicLines .gap rest
  | _, '\\' :: e :: rest =>
    if isBlank e then basicLines .lineEnd rest
    else do
      let char ← escaped? e
      let (text, rest) ← basicLines .text rest
      return (char :: text, rest)
  | place, c :: rest =>
    if place = .gap && isBlank c then basicLines .gap rest
    else if isPlain c && c ≠ '\\' then
      (basicLines .text rest).map fun (text, rest) => (c :: text, rest)
    else none
  | _, [] => none

/-- The text up to three closing single quotes. One or two more belong to the text. -/
def literalLines : List Char → Option (List Char × List Char)
  | '\'' :: '\'' :: '\'' :: '\'' :: '\'' :: rest => some (['\'', '\''], rest)
  | '\'' :: '\'' :: '\'' :: '\'' :: rest => some (['\''], rest)
  | '\'' :: '\'' :: '\'' :: rest => some ([], rest)
  | '\r' :: '\n' :: rest => (literalLines rest).map fun (text, rest) => ('\n' :: text, rest)
  | '\n' :: rest => (literalLines rest).map fun (text, rest) => ('\n' :: text, rest)
  | c :: rest =>
    if isPlain c then (literalLines rest).map fun (text, rest) => (c :: text, rest) else none
  | [] => none

/-- Drops a line break at the front. -/
def dropLineBreak : List Char → List Char
  | '\n' :: rest => rest
  | '\r' :: '\n' :: rest => rest
  | rest => rest

/-- A text in quotes of any kind. -/
def read : List Char → Option (List Char × List Char)
  | '"' :: '"' :: '"' :: rest => basicLines .text (dropLineBreak rest)
  | '"' :: rest => basic rest
  | '\'' :: '\'' :: '\'' :: rest => literalLines (dropLineBreak rest)
  | '\'' :: rest => literal rest
  | _ => none

/-- A text in quotes on one line, as names are. -/
def readLine : List Char → Option (List Char × List Char)
  | '"' :: rest => basic rest
  | '\'' :: rest => literal rest
  | _ => none

/-! ## Writing -/

/-- The four digits of a code. -/
def codeDigits (code : Nat) : List Char :=
  [code / 4096 % 16, code / 256 % 16, code / 16 % 16, code % 16].map fun n => (Nat.digitChar n).toUpper

/-- What is written for a character between double quotes. -/
def escape : Char → List Char
  | '\x08' => ['\\', 'b']
  | '\t' => ['\\', 't']
  | '\n' => ['\\', 'n']
  | '\x0c' => ['\\', 'f']
  | '\r' => ['\\', 'r']
  | '"' => ['\\', '"']
  | '\\' => ['\\', '\\']
  | c => if isPlain c then [c] else '\\' :: 'u' :: codeDigits c.toNat

/-- The same over several lines: line feeds stand for themselves, and so do double quotes as long as
`run`, the number of those just before, stays below two. -/
def escapeLines (run : Nat) : List Char → List Char
  | [] => []
  | '\n' :: rest => '\n' :: escapeLines 0 rest
  | '"' :: rest =>
    if run < 2 then '"' :: escapeLines (run + 1) rest else '\\' :: '"' :: escapeLines 0 rest
  | c :: rest => escape c ++ escapeLines 0 rest

/-- The length of the longest run of a character. -/
def longestRun (c : Char) (text : List Char) : Nat :=
  (text.foldl (fun (longest, current) d =>
    let current := if d = c then current + 1 else 0
    (max longest current, current)) (0, 0)).1

/-- A text in quotes. If there is a way without escapes it is taken: double quotes, else single
quotes, else three of either. -/
def write (text : List Char) : List Char :=
  let control := text.any fun c => !isPlain c && c ≠ '\n'
  let lines := text.contains '\n'
  let feed := if lines then ['\n'] else []
  let basic := '"' :: text.flatMap escape ++ ['"']
  let basicLines := ['"', '"', '"'] ++ feed ++ escapeLines 0 text ++ ['"', '"', '"']
  if !control && !text.contains '\\' && !text.contains '"' && !lines then basic
  else if !control && !text.contains '\'' && !lines then '\'' :: text ++ ['\'']
  else if !control && !text.contains '\\' && longestRun '"' text ≤ 2 then basicLines
  else if !control && longestRun '\'' text ≤ 2 then
    ['\'', '\'', '\''] ++ feed ++ text ++ ['\'', '\'', '\'']
  else if lines then basicLines
  else basic

end Rebalancing.Toml.Quoted
