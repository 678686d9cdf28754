import Rebalancing.Text.Split

/-! # Command lines

A command line holds options and operands. An option has a long form and may have a short one; it is
a switch, or it takes a value that follows it or is attached to it. Each may be given once. After two
dashes everything is an operand. -/

namespace Rebalancing

namespace Command

/-- An option that a command knows. -/
structure Known where
  /-- The name that what is given is filed under. -/
  name : String
  /-- The long forms, without their dashes. -/
  long : List String
  short : Option Char := none
  /-- Which values it takes; a switch takes none. -/
  accepts : Option (String → Bool) := none

/-- The operands that a command takes. -/
inductive Operands where
  | none
  /-- There may be one. -/
  | one (accepts : String → Bool)
  /-- The first ends the options; what it means is for others to say. -/
  | first

structure Grammar where
  known : List Known
  operands : Operands := .none
  /-- Whether the version can be asked for. -/
  versioned : Bool := false

/-- Why nothing is carried out. -/
inductive Halt where
  | misuse
  | help
  | version
deriving DecidableEq

/-- What is given on a command line. A switch that is given has an empty text. -/
structure Line where
  given : List (String × String) := []
  operand : Option String := none
  /-- The arguments from the first operand on, if that ends the options. -/
  rest : List String := []

namespace Line

def text? (line : Line) (name : String) : Option String := (line.given.find? (·.1 = name)).map (·.2)

def has (line : Line) (name : String) : Bool := (line.text? name).isSome

/-- What is given for an option, if anything is. -/
def read? {α : Type} (line : Line) (name : String) (read : String → Option α) : Option α :=
  (line.text? name).bind read

/-- What is given for an option that may not be left out. -/
def need {α : Type} (line : Line) (name : String) (read : String → Option α) : Except Halt α :=
  (line.read? name read).elim (.error .misuse) .ok

/-- Takes an option in. -/
def take (line : Line) (option : Known) (value : String) : Except Halt Line :=
  if !line.has option.name && option.accepts.all (· value) then
    .ok { line with given := line.given ++ [(option.name, value)] }
  else .error .misuse

end Line

namespace Grammar

/-- What becomes of an option that is not known. -/
def unknown (grammar : Grammar) (help version : Bool) : Halt :=
  if help then .help else if version && grammar.versioned then .version else .misuse

/-- Takes in what follows two dashes; an option that waits for its value is given back. -/
def readLong (grammar : Grammar) (line : Line) (text : List Char) : Except Halt (Line × Option Known) :=
  let (name, value) : List Char × Option (List Char) := match Text.splitOnce '=' text with
    | some (name, value) => (name, some value)
    | none => (text, none)
  match grammar.known.find? (·.long.contains (String.ofList name)), value with
  | none, some _ => .error .misuse
  | none, none => .error (grammar.unknown (text = "help".toList) (text = "version".toList))
  | some option, none =>
    if option.accepts.isSome then .ok (line, some option) else (line.take option "").map (·, none)
  | some option, some value =>
    if option.accepts.isSome then (line.take option (String.ofList value)).map (·, none)
    else .error .misuse

/-- A value without the equals sign that attaches it. -/
def attached : List Char → String
  | '=' :: value => String.ofList value
  | value => String.ofList value

/-- Takes in what follows one dash: switches, and at most one option with a value. -/
def readShort (grammar : Grammar) (line : Line) : List Char → Except Halt (Line × Option Known)
  | [] => .ok (line, none)
  | c :: rest =>
    match grammar.known.find? (·.short = some c) with
    | none => .error (grammar.unknown (c = 'h') (c = 'V'))
    | some option =>
      if option.accepts.isNone then
        match line.take option "" with
        | .ok line => grammar.readShort line rest
        | .error halt => .error halt
      else if rest = [] then .ok (line, some option)
      else (line.take option (attached rest)).map (·, none)

/-- Reads arguments. `pending` is an option that waits for its value, and `isOpen` tells that options may
still come. -/
def scan (grammar : Grammar) (line : Line) (pending : Option Known) (isOpen : Bool) :
    List String → Except Halt Line
  | [] => if pending.isSome then .error .misuse else .ok line
  | arg :: rest =>
    let dashed (read : Except Halt (Line × Option Known)) : Except Halt Line :=
      if pending.isSome then .error .misuse
      else match read with
        | .error halt => .error halt
        | .ok (line, pending) => grammar.scan line pending true rest
    let plain : Except Halt Line :=
      match pending, grammar.operands with
      | some option, _ =>
        match line.take option arg with
        | .error halt => .error halt
        | .ok line => grammar.scan line none isOpen rest
      | none, .none => .error .misuse
      | none, .one accepts =>
        if line.operand.isNone && accepts arg then
          grammar.scan { line with operand := some arg } none isOpen rest
        else .error .misuse
      | none, .first => if isOpen then .ok { line with rest := arg :: rest } else .error .misuse
    if isOpen then
      match arg.toList with
      | '-' :: '-' :: [] =>
        if pending.isSome then .error .misuse else grammar.scan line none false rest
      | '-' :: '-' :: text => dashed (grammar.readLong line text)
      | '-' :: c :: text => dashed (grammar.readShort line (c :: text))
      | _ => plain
    else plain

/-- The meaning of arguments. -/
def read (grammar : Grammar) (arguments : List String) : Except Halt Line :=
  grammar.scan {} none true arguments

end Grammar

end Command

end Rebalancing
