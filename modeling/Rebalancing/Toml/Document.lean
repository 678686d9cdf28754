import Rebalancing.Toml.Bare
import Rebalancing.Toml.Table

/-! # Reading TOML documents

A document is a sequence of lines: assignments, headers, comments and blank lines. Readers take the
rest of the text and give back what they leave of it. -/

namespace Rebalancing.Toml

/-- A step of reading. -/
abbrev Reader := StateT (List Char) Option

namespace Reader

/-- How deep names and values may be nested. -/
def depthLimit : Nat := 80

def refuse {α : Type} : Reader α := fun _ => none

def skipBlanks : Reader Unit := modify (·.dropWhile Quoted.isBlank)

/-- A character that has to come next. -/
def symbol (c : Char) : Reader Unit := fun text =>
  match text with
  | d :: rest => if c = d then some ((), rest) else none
  | [] => none

/-- Whether a character comes next. -/
def sees (c : Char) : Reader Bool := do return (← get).head? = some c

/-- Runs a function from the front of a text to what it reads and leaves. -/
def ofFront {α : Type} (front : List Char → Option (α × List Char)) : Reader α := front

/-- Drops a comment. -/
def skipComment : Reader Unit := do
  if ← sees '#' then modify (·.dropWhile Quoted.isPlain)

/-- The end of a line, behind blanks and perhaps a comment. -/
def endLine : Reader Unit := do
  skipBlanks
  skipComment
  match ← get with
  | [] => return
  | '\n' :: rest => set rest
  | '\r' :: '\n' :: rest => set rest
  | _ => refuse

/-- Drops blanks, line breaks and comments; `comment` tells whether one is open. -/
def dropTrivia (comment : Bool) : List Char → List Char
  | '\n' :: rest => dropTrivia false rest
  | '\r' :: '\n' :: rest => dropTrivia false rest
  | '#' :: rest => dropTrivia true rest
  | c :: rest =>
    if (comment && Quoted.isPlain c) || Quoted.isBlank c then dropTrivia comment rest else c :: rest
  | [] => []

def skipTrivia : Reader Unit := modify (dropTrivia false)

def isNameChar (c : Char) : Bool := c.isAlphanum || c = '-' || c = '_'

/-- One part of a name. -/
def simpleName : Reader String := do
  match ← get with
  | '"' :: _ | '\'' :: _ => return String.ofList (← ofFront Quoted.readLine)
  | text =>
    let name := text.takeWhile isNameChar
    if name = [] then refuse
    set (text.dropWhile isNameChar)
    return String.ofList name

/-- Further parts of a name, each behind a dot. -/
def moreNames : Nat → Reader (List String)
  | 0 => refuse
  | fuel + 1 => do
    if ← sees '.' then
      symbol '.'
      skipBlanks
      let name ← simpleName
      skipBlanks
      return name :: (← moreNames fuel)
    else return []

/-- A name of one or more parts. -/
def name : Reader (List String) := do
  skipBlanks
  let first ← simpleName
  skipBlanks
  return first :: (← moreNames (depthLimit - 1))

/-- The items of an array up to its end, after the opening bracket or a comma. -/
def items (value : Reader Toml) : Nat → Reader (List Toml)
  | 0 => refuse
  | fuel + 1 => do
    skipTrivia
    if ← sees ']' then
      symbol ']'
      return []
    let item ← value
    skipTrivia
    if ← sees ',' then
      symbol ','
      return item :: (← items value fuel)
    symbol ']'
    return [item]

/-- An assignment: the parts of its name, and the value. -/
def assignment (value : Reader Toml) : Reader (List String × Toml) := do
  let path ← name
  symbol '='
  skipBlanks
  return (path, ← value)

/-- Assignments of an inline table up to its end. No comma may precede that. -/
def members (value : Reader Toml) : Nat → Reader (List (List String × Toml))
  | 0 => refuse
  | fuel + 1 => do
    let member ← assignment value
    skipBlanks
    if ← sees ',' then
      symbol ','
      return member :: (← members value fuel)
    symbol '}'
    return [member]

def assignAll (members : List (List String × Toml)) : Option (List (String × Toml)) := do
  let (_, entries) ← members.foldlM (fun entries (path, value) => do
    Toml.assign path.dropLast (← path.getLast?) value entries) (Origin.header, [])
  return entriesToToml entries

/-- An array of such values. -/
def array (value : Reader Toml) : Reader Toml := do
  symbol '['
  return .array (← items value (← get).length.succ)

/-- A table on one line, of such values. -/
def inlineTable (value : Reader Toml) : Reader Toml := do
  symbol '{'
  skipBlanks
  if ← sees '}' then
    symbol '}'
    return .table []
  let members ← members value (← get).length.succ
  match assignAll members with
  | some entries => return .table entries
  | none => refuse

/-- A value, given the readers of those that hold others. -/
def valueWith (array inlineTable : Reader Toml) : Reader Toml := do
  match (← get).head? with
  | some '"' | some '\'' => return .string (String.ofList (← ofFront Quoted.read))
  | some '[' => array
  | some '{' => inlineTable
  | _ => ofFront Bare.read

/-- A value in which at most `depth` others are open at once. -/
def value : Nat → Reader Toml
  | 0 => valueWith refuse refuse
  | depth + 1 => valueWith (array (value depth)) (inlineTable (value depth))

/-- Runs a change of the draft. -/
def change (draft : Option Draft) : Reader Draft := fun text => draft.map (·, text)

/-- Reads one line. -/
def line (draft : Draft) : Reader Draft := do
  skipBlanks
  match ← get with
  | [] | '\n' :: _ | '\r' :: _ | '#' :: _ =>
    endLine
    return draft
  | '[' :: '[' :: rest =>
    set rest
    let path ← name
    symbol ']'
    symbol ']'
    endLine
    change (draft.openListed path)
  | '[' :: rest =>
    set rest
    let path ← name
    symbol ']'
    endLine
    change (draft.openTable path)
  | _ =>
    let (path, value) ← assignment (value (depthLimit - 1))
    endLine
    match path.getLast? with
    | some name => change (draft.assign path.dropLast name value)
    | none => refuse

/-- Reads lines to the end of the text. -/
def lines : Nat → Draft → Reader Draft
  | 0, draft => return draft
  | fuel + 1, draft => do
    if (← get) = [] then return draft
    lines fuel (← line draft)

end Reader

/-- Drops a byte order mark. -/
def dropMark : List Char → List Char
  | '\ufeff' :: rest => rest
  | text => text

/-- The entries of a document. -/
def parse? (text : String) : Option (List (String × Toml)) := do
  let text := dropMark text.toList
  let (draft, _) ← (Reader.lines (text.length + 1) {}).run text
  draft.finish

end Rebalancing.Toml
