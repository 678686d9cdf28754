import Rebalancing.Api.Phrase
import Rebalancing.Api.Service
import Rebalancing.Command.Basic
import Rebalancing.Command.Outcome
import Rebalancing.Json.Pretty

/-! # Reports

How a node is asked something, and what is printed for its answer. -/

namespace Rebalancing

namespace Command

/-- A request as it goes out. -/
structure Call where
  method : String
  url : String
  body : Option Json := none

/-- A response as it comes in. -/
structure Answer where
  status : Nat
  body : List UInt8

def Answer.succeeded (answer : Answer) : Bool := 200 ≤ answer.status && answer.status < 300

def Answer.json? (answer : Answer) : Option Json := (Json.ofBytes .skim answer.body).toOption

/-! ## Calls -/

/-- The call that asks a node. -/
def callOf (inquiry : Inquiry) (endpoint : String) : Call :=
  let asking (target : Api.Endpoint) (body : Option Json) : Call :=
    { method := target.method, url := endpoint ++ target.path, body }
  match inquiry with
  | .status => asking .status none
  | .peers => asking .peers none
  | .route question _ => asking .route (some question.toJson)
  | .rebalance order => asking .rebalance (some order.toJson)

/-- The scheme of a URL: letters, digits and some signs in front of a colon, a letter first. -/
def scheme? (url : String) : Option String :=
  match Text.splitOnce ':' url.toList with
  | some (c :: rest, _) =>
    if c.isAlpha && rest.all fun d => d.isAlphanum || d = '+' || d = '-' || d = '.' then
      some (String.ofList ((c :: rest).map Char.toLower))
    else none
  | _ => none

/-- Whether requests can go to a URL. -/
def isReachable (url : String) : Bool := scheme? url = some "http" || scheme? url = some "https"

/-- Why there is no answer from a URL. -/
def silence (url : String) : String :=
  if isReachable url then "error sending request for url (" ++ url ++ ")"
  else if (scheme? url).isSome then "builder error for url (" ++ url ++ ")"
  else "builder error"

/-! ## Texts -/

def lines (texts : List String) : String := String.join (texts.map (· ++ "\n"))

/-- A text in at least `width` columns. -/
def padded (width : Nat) (text : String) : String :=
  text ++ String.ofList (List.replicate (width - text.length) ' ')

def unreachable (endpoint url : String) : String := lines [
  "Could not reach node at " ++ endpoint,
  "  Error: " ++ silence url,
  "",
  "Is the node running? Start it with: circular-node"]

def word (fields : Json.Fields) (name : String) : Option String :=
  (fields.need name Json.uint64?).map fun n => Decimal.text n.toNat

/-- Nodes, channels, and the capacity in whole satoshis. -/
def graphText? (json : Json) : Option String := do
  let fields ← json.fields? ["nodes", "channels", "total_capacity"]
  let capacity ← fields.need "total_capacity" Json.uint64?
  return (← word fields "nodes") ++ " nodes, " ++ (← word fields "channels") ++ " channels, "
    ++ Decimal.text (capacity / 1000).toNat ++ " sat capacity"

def statusText? (json : Json) : Option String := do
  let fields ← json.fields?
    ["version", "node_id", "alias", "uptime_secs", "graph", "peers", "connected_peers"]
  return lines [
    "Node Status:",
    "  Version:    " ++ (← fields.need "version" Json.text?),
    "  Node ID:    " ++ (← fields.need "node_id" Json.text?),
    "  Alias:      " ++ ((← fields.optional "alias" Json.text?).getD "(none)"),
    "  Uptime:     " ++ (← word fields "uptime_secs") ++ "s",
    "  Peers:      " ++ (← word fields "peers") ++ " (" ++ (← word fields "connected_peers")
      ++ " connected)",
    "  Graph:      " ++ (← fields.need "graph" graphText?)]

def peerText? (json : Json) : Option String := do
  let fields ← json.fields? ["id", "alias", "connected", "num_channels"]
  let connected ← fields.need "connected" Json.bool?
  let channels ← fields.need "num_channels" Json.uint32?
  return "  " ++ (← fields.need "id" Json.text?)
    ++ " " ++ padded 24 (← fields.need "alias" Json.text?)
    ++ " " ++ padded 12 (if connected then "connected" else "disconnected")
    ++ " channels=" ++ Decimal.text channels.toNat

def peersText? (json : Json) : Option String := do
  let fields ← json.fields? ["peers", "count"]
  let peers ← fields.need "peers" (Json.list? peerText?)
  return lines (
    ("Peers (" ++ (← word fields "count") ++ "):") :: if peers = [] then ["  (none)"] else peers)

def feeText? (fields : Json.Fields) : Option String := do
  return (← word fields "fee") ++ " msat (" ++ (← word fields "fee_ppm") ++ " ppm)"

/-- The text of a value, with the last of repeated members. -/
def valueText? (json : Json) : Option String :=
  if json.isReadable then
    String.fromUTF8? ⟨(Json.pretty 0 json.distinct.sorted).toArray⟩
  else none

def routeText? (asJson : Bool) (json : Json) : Option String := do
  let fields ← json.fields? ["summary", "fee", "fee_ppm", "total_delay", "route"]
  let delay ← fields.need "total_delay" Json.uint32?
  let route ← fields.need "route" valueText?
  return lines ([
    ← fields.need "summary" Json.text?,
    "  Fee:    " ++ (← feeText? fields),
    "  Delay:  " ++ Decimal.text delay.toNat ++ " blocks"]
      ++ if asJson then [route] else [])

def rebalanceText? (json : Json) : Option String := do
  let fields ← json.fields? ["summary", "fee", "fee_ppm", "attempts", "preimage"]
  return lines [
    "Rebalance succeeded!",
    "  Route:     " ++ (← fields.need "summary" Json.text?),
    "  Fee:       " ++ (← feeText? fields),
    "  Attempts:  " ++ (← word fields "attempts"),
    "  Preimage:  " ++ (← fields.need "preimage" Json.text?)]

def errorText? (json : Json) : Option String := do
  let fields ← json.fields? ["error"]
  fields.need "error" Json.text?

/-! ## Outcomes -/

/-- The failure that a node answers with. -/
def refusal (name : String) (answer : Answer) : Failure :=
  let status := Decimal.text answer.status ++ " " ++ Api.phrase answer.status
  let detail := ((answer.json?.bind errorText?).map (": " ++ ·)).getD ""
  .message (name ++ " failed (HTTP " ++ status ++ ")" ++ detail)

/-- What is printed before anything is asked. -/
def announcement : Inquiry → String
  | .rebalance order =>
    "Rebalancing " ++ Decimal.text order.amount.toNat ++ " msat from " ++ order.outgoing.text
      ++ " to " ++ order.incoming.text ++ "...\n"
  | _ => ""

/-- The name of what is asked, and the text for an answer to it. -/
def reading : Inquiry → String × (Json → Option String)
  | .status => ("status", statusText?)
  | .peers => ("peers", peersText?)
  | .route _ asJson => ("route", routeText? asJson)
  | .rebalance _ => ("rebalance", rebalanceText?)

/-- The outcome for an answer. One that cannot be read is a failure; silence is not. -/
def report (inquiry : Inquiry) (endpoint : String) (answer : Option Answer) : Outcome :=
  let (name, text?) := reading inquiry
  let before := announcement inquiry
  match answer with
  | none => { output := before ++ unreachable endpoint (callOf inquiry endpoint).url }
  | some answer =>
    if answer.succeeded then
      match answer.json?.bind text? with
      | some text => { output := before ++ text }
      | none => .failed before .unworded
    else .failed before (refusal name answer)

end Command

end Rebalancing
