import Rebalancing.Api.Body
import Rebalancing.Command.Line

/-! # Commands

What the operator can order from the command line: to write a first configuration, or to ask a running
node something over its interface. -/

namespace Rebalancing

/-- Where a node is looked for if nothing else is said. -/
def defaultEndpoint : String := "http://127.0.0.1:9101"

/-- What a running node is asked. -/
inductive Inquiry where
  | status
  | peers
  /-- A route, which is shown as JSON too if `asJson` is set. -/
  | route (question : Api.RouteQuestion) (asJson : Bool)
  | rebalance (order : Api.RebalanceOrder)
deriving DecidableEq

inductive Command where
  /-- Write a configuration for the Lightning node at `rpcPath`. -/
  | init (directory rpcPath : String)
  | ask (inquiry : Inquiry) (endpoint : String)
deriving DecidableEq

namespace Command

/-! ## Values -/

def anyText (text : String) : Option String := some text

/-- A path is any text but the empty one. -/
def path? (text : String) : Option String := if text = "" then none else some text

def word? (text : String) : Option UInt64 := (Decimal.parse? 0xffffffffffffffff text.toList).map .ofNat

/-- Sixteen bits. There may be a sign of either kind, but nothing is below zero. -/
def portNumber? (text : String) : Option UInt16 :=
  match text.toList with
  | '-' :: digits =>
    if digits.all Char.isDigit then (Decimal.parse? 0 digits).map .ofNat else none
  | digits => (Decimal.parse? 0xffff digits).map .ofNat

def scid? (text : String) : Option ShortChannelId := (ShortChannelId.parse text).toOption

/-- An option whose value is read by `read`. -/
def valued {α : Type} (name : String) (short : Option Char) (read : String → Option α)
    (others : List String := []) : Known where
  name
  long := name :: others
  short
  accepts := some fun text => (read text).isSome

def switch (name : String) (short : Option Char) : Known := { name, long := [name], short }

/-! ## Grammars -/

def verbose : Known := switch "verbose" (some 'v')

def endpoint : Known := valued "endpoint" (some 'e') anyText

def amount : Known := valued "amount" (some 'a') word?

def mainGrammar : Grammar where
  known := [verbose]
  operands := .first
  versioned := true

def initGrammar : Grammar where
  known := [verbose, valued "rpc-path" none path?]
  operands := .one fun text => (path? text).isSome

/-- The grammar of a command that asks a node. -/
def askGrammar (known : List Known) : Grammar where
  known := verbose :: endpoint :: known

def routeGrammar : Grammar := askGrammar [
  amount,
  valued "to" (some 't') anyText,
  valued "from" (some 'f') anyText,
  valued "max-hops" none word?,
  switch "json" none]

def rebalanceGrammar : Grammar := askGrammar [
  amount,
  valued "out" none scid?,
  valued "in" none scid?,
  valued "max-ppm" none word?,
  valued "initial-max-hops" none word? ["max-hops"]]

/-! ## Meanings -/

def askOf (inquiry : Inquiry) (line : Line) : Command :=
  .ask inquiry ((line.text? "endpoint").getD defaultEndpoint)

def initOf (line : Line) : Except Halt Command :=
  .ok (.init (line.operand.getD ".") ((line.text? "rpc-path").getD ({} : Settings).rpcPath))

def routeOf (line : Line) : Except Halt Command := do
  let question : Api.RouteQuestion := {
    source := (line.text? "from").map NodeId.mk
    destination := ⟨← line.need "to" anyText⟩
    amount := ← line.need "amount" word?
    maxHops := line.read? "max-hops" word? }
  return askOf (.route question (line.has "json")) line

def rebalanceOf (line : Line) : Except Halt Command := do
  let order : Api.RebalanceOrder := {
    outgoing := ← line.need "out" scid?
    incoming := ← line.need "in" scid?
    amount := ← line.need "amount" word?
    maxPpm := line.read? "max-ppm" word?
    initialMaxHops := line.read? "initial-max-hops" word? }
  return askOf (.rebalance order) line

/-- The command of the given name. -/
def ofWord (word : String) (arguments : List String) : Except Halt Command :=
  match word with
  | "init" => (initGrammar.read arguments).bind initOf
  | "status" => ((askGrammar []).read arguments).map (askOf .status)
  | "peers" => ((askGrammar []).read arguments).map (askOf .peers)
  | "route" => (routeGrammar.read arguments).bind routeOf
  | "rebalance" => (rebalanceGrammar.read arguments).bind rebalanceOf
  | "help" => .error .help
  | _ => .error .misuse

/-- The command that arguments give. -/
def ofArguments (arguments : List String) : Except Halt Command :=
  match mainGrammar.read arguments with
  | .error halt => .error halt
  | .ok line =>
    match line.rest with
    | [] => .error .misuse
    | word :: rest => ofWord word rest

end Command

end Rebalancing
