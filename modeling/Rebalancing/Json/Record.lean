import Rebalancing.Json.Tree

/-! # Reading records from tokens

A record is an object with known members, or an array of its fields in order. It is read as its
tokens come, so that of several faults the first in the text is the one that counts. Members that are
not known are skimmed. -/

namespace Rebalancing.Json

/-- The tokens that are left, and how their text ends. -/
structure Source where
  tokens : List Token
  ending : Ending

/-- A step of reading. -/
abbrev Reader := StateT Source (Except Fault)

namespace Reader

def fail {α : Type} (fault : Fault) : Reader α := throw fault

/-- The next token, which stays. `wanted` tells what is wrong if there is none. -/
def peek (wanted : Wanted) : Reader Token := do
  let source ← get
  match source.tokens with
  | token :: _ => return token
  | [] => fail (source.ending.fault .read wanted)

/-- Drops a token that has been looked at. -/
def skip : Reader Unit := modify fun source => { source with tokens := source.tokens.tail }

def next (wanted : Wanted) : Reader Token := do
  let token ← peek wanted
  skip
  return token

/-- A value of any kind, inside `outer` containers. -/
def tree (manner : Manner) (outer : Nat) : Reader Json := do
  let source ← get
  match Builder.run manner outer source.ending {} source.tokens with
  | .error fault => fail fault
  | .ok (value, tokens) =>
    set { source with tokens }
    return value

/-- The fault of a token that is not the wanted value. A leaf is read before it is refused. -/
def refusal : Token → Fault
  | .string none | .number none => .malformed
  | .comma | .colon | .closeBrace | .closeBracket => .malformed
  | _ => .mismatch

def text : Reader String := do
  match ← next .value with
  | .string (some text) => return text
  | token => fail (refusal token)

/-- An integer between two bounds. -/
def integer (low high : Int) : Reader Int := do
  match ← next .value with
  | .number (some (.integer n)) => if low ≤ n ∧ n ≤ high then return n else fail .mismatch
  | token => fail (refusal token)

/-- A value that may be null. -/
def optional {α : Type} (reader : Reader α) : Reader (Option α) := do
  if (← peek .value) = .null then
    skip
    return none
  else return some (← reader)

/-- A text that has to make sense to `check`. -/
def checked {α β : Type} (reader : Reader α) (check : α → Option β) : Reader β := do
  match check (← reader) with
  | some value => return value
  | none => fail .mismatch

/-- A field of a record under construction. -/
structure Field (σ : Type) where
  name : String
  read : σ → Reader σ

/-- Reads fields in order, up to the end of an array. `first` tells whether none has been read. -/
def items {σ : Type} (first : Bool) (record : σ) : List (Field σ) → Reader σ
  | [] => do
    match ← peek .commaOrClose with
    | .closeBracket => skip; return record
    | _ => fail .malformed
  | field :: rest => do
    let token ← peek (if first then .valueOrClose else .commaOrClose)
    if token = .closeBracket then
      skip
      return record
    if !first then
      if token ≠ .comma then fail .malformed
      skip
      if (← peek .value) = .closeBracket then fail .malformed
    items false (← field.read record) rest

/-- Reads the members of an object up to its end; `seen` are the known names so far. -/
def members {σ : Type} (fields : List (Field σ)) (outer : Nat) :
    Nat → List String → Bool → σ → Reader σ
  | 0, _, _, _ => fail .cut
  | fuel + 1, seen, first, record => do
    let token ← peek (if first then .nameOrClose else .commaOrClose)
    if token = .closeBrace then
      skip
      return record
    if !first then
      if token ≠ .comma then fail .malformed
      skip
    match ← next .name with
    | .string (some name) =>
      match fields.find? (·.name = name) with
      | some field =>
        if seen.contains name then fail .mismatch
        colon
        members fields outer fuel (name :: seen) false (← field.read record)
      | none =>
        colon
        let _ ← tree .skim outer
        members fields outer fuel seen false record
    | _ => fail .malformed
where
  colon : Reader Unit := do
    if (← next .colon) ≠ .colon then fail .malformed

/-- Reads a record inside `outer` containers. -/
def record {σ α : Type} (fields : List (Field σ)) (outer : Nat) (start : σ) (finish : σ → Option α) :
    Reader α := do
  match ← next .value with
  | .openBrace =>
    let fuel := (← get).tokens.length + 1
    checked (members fields (outer + 1) fuel [] true start) finish
  | .openBracket => checked (items true start fields) finish
  | token => fail (refusal token)

/-- Reads a whole text. -/
def whole {α : Type} (reader : Reader α) (lexer : Lexer) : Except Fault α :=
  let (tokens, ending) := lexer.finish
  match reader.run ⟨tokens, ending⟩ with
  | .error fault => .error fault
  | .ok (value, rest) =>
    if rest.tokens = [] ∧ rest.ending = .finished then .ok value else .error .malformed

end Reader

end Rebalancing.Json
