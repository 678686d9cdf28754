import Rebalancing.Json.Value

/-! # Values of token sequences

Tokens are put together to values by a machine with a stack of open containers. A value that is read
must have a value at each of its leaves and may not be nested too deeply; a value that is only
skimmed need not. What is wrong with a text is what is wrong first. -/

namespace Rebalancing.Json

/-- What is wrong with a text. -/
inductive Fault where
  /-- It ends too early. -/
  | cut
  /-- It is no JSON text. -/
  | malformed
  /-- It is no text of what is wanted. -/
  | mismatch
deriving DecidableEq

/-- How a value is taken in. -/
inductive Manner where
  | read
  | skim
deriving DecidableEq

/-- The most containers that may be open around and in a value that is read. -/
def depthLimit : Nat := 127

/-- An open container. -/
inductive Frame where
  /-- The items so far, last one first. -/
  | items (done : List Json)
  /-- The members so far, last one first, whether all their names can be read, and the name of the
  member under way. -/
  | members (done : List (String × Json)) (readable : Bool) (name : String)

/-- What may come next. -/
inductive Wanted where
  | value
  | valueOrClose
  | name
  | nameOrClose
  | colon
  | commaOrClose
deriving DecidableEq

structure Builder where
  stack : List Frame := []
  wanted : Wanted := .value

inductive Builder.Step where
  | open (builder : Builder)
  | done (value : Json)

namespace Builder

/-- Puts a complete value into the innermost container. -/
def complete (stack : List Frame) (value : Json) : Step :=
  match stack with
  | [] => .done value
  | .items done :: rest => .open ⟨.items (value :: done) :: rest, .commaOrClose⟩
  | .members done readable name :: rest =>
    .open ⟨.members ((name, value) :: done) readable name :: rest, .commaOrClose⟩

/-- A leaf that may lack a value. -/
def leaf (manner : Manner) (stack : List Frame) (value : Option Json) : Except Fault Step :=
  match value, manner with
  | some value, _ => .ok (complete stack value)
  | none, .skim => .ok (complete stack .unreadable)
  | none, .read => .error .malformed

/-- Opens a container, unless it lies too deep. -/
def push (manner : Manner) (outer : Nat) (stack : List Frame) (frame : Frame) (wanted : Wanted) :
    Except Fault Step :=
  if manner = .read && depthLimit ≤ outer + stack.length then .error .malformed
  else .ok (.open ⟨frame :: stack, wanted⟩)

def value (manner : Manner) (outer : Nat) (stack : List Frame) : Token → Except Fault Step
  | .null => .ok (complete stack .null)
  | .true => .ok (complete stack (.bool true))
  | .false => .ok (complete stack (.bool false))
  | .string text => leaf manner stack (text.map .string)
  | .number value => leaf manner stack (value.map .number)
  | .openBracket => push manner outer stack (.items []) .valueOrClose
  | .openBrace => push manner outer stack (.members [] true "") .nameOrClose
  | _ => .error .malformed

/-- Closes the innermost container, which the token has to fit. -/
def close (stack : List Frame) (token : Token) : Except Fault Step :=
  match stack, token with
  | .items done :: rest, .closeBracket => .ok (complete rest (.array done.reverse))
  | .members done readable _ :: rest, .closeBrace =>
    .ok (complete rest (if readable then .object done.reverse else .unreadable))
  | _, _ => .error .malformed

def name (manner : Manner) (stack : List Frame) (token : Token) : Except Fault Step :=
  match stack, token with
  | .members done readable _ :: rest, .string text =>
    match text, manner with
    | some name, _ => .ok (.open ⟨.members done readable name :: rest, .colon⟩)
    | none, .skim => .ok (.open ⟨.members done false "" :: rest, .colon⟩)
    | none, .read => .error .malformed
  | _, _ => .error .malformed

/-- What follows a comma. -/
def afterComma (stack : List Frame) : Wanted :=
  match stack with
  | .members _ _ _ :: _ => .name
  | _ => .value

/-- Takes in a token; `outer` containers are open around the value. -/
def step (manner : Manner) (outer : Nat) (builder : Builder) (token : Token) : Except Fault Step :=
  let stack := builder.stack
  match builder.wanted with
  | .value => value manner outer stack token
  | .valueOrClose => if token = .closeBracket then close stack token else value manner outer stack token
  | .name => name manner stack token
  | .nameOrClose => if token = .closeBrace then close stack token else name manner stack token
  | .colon => if token = .colon then .ok (.open ⟨stack, .value⟩) else .error .malformed
  | .commaOrClose =>
    if token = .comma then .ok (.open ⟨stack, afterComma stack⟩) else close stack token

end Builder

/-- What is wrong with a text that ends inside a string. -/
def Ending.stringFault (manner : Manner) (flawed : Bool) : Fault :=
  if manner = .read && flawed then .malformed else .cut

/-- What is wrong with a text that ends where something is wanted. A numeral that is skimmed may not
end early. -/
def Ending.fault (ending : Ending) (manner : Manner) (wanted : Wanted) : Fault :=
  match ending, wanted with
  | .finished, _ => .cut
  | .inString flawed, .value | .inString flawed, .valueOrClose
  | .inString flawed, .name | .inString flawed, .nameOrClose => stringFault manner flawed
  | .inNumber, .value | .inNumber, .valueOrClose => if manner = .read then .cut else .malformed
  | .inLiteral, .value | .inLiteral, .valueOrClose => .cut
  | _, _ => .malformed

/-- Builds the value at the front of a token sequence, and gives back the rest. -/
def Builder.run (manner : Manner) (outer : Nat) (ending : Ending) :
    Builder → List Token → Except Fault (Json × List Token)
  | builder, [] => .error (ending.fault manner builder.wanted)
  | builder, token :: rest =>
    match builder.step manner outer token with
    | .error fault => .error fault
    | .ok (.done value) => .ok (value, rest)
    | .ok (.open builder) => run manner outer ending builder rest

/-- The value of a whole text. -/
def ofLexer (manner : Manner) (lexer : Lexer) : Except Fault Json :=
  let (tokens, ending) := lexer.finish
  match Builder.run manner 0 ending {} tokens with
  | .error fault => .error fault
  | .ok (value, rest) => if rest = [] ∧ ending = .finished then .ok value else .error .malformed

def ofBytes (manner : Manner) (bytes : List UInt8) : Except Fault Json :=
  ofLexer manner (Lexer.feed {} bytes)

end Rebalancing.Json
