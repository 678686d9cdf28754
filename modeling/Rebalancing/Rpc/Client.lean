import Rebalancing.Attempt.Engine
import Rebalancing.Rpc.Listing
import Rebalancing.Rpc.Reply
import Rebalancing.Wire.Attempt

/-! # Talking to the Lightning node

Every call opens a connection of its own to the node's socket, sends one numbered request and reads
one reply. -/

namespace Rebalancing

/-- What becomes of a connection. -/
inductive Connection where
  /-- After so many nanoseconds it is not accepted, or breaks off before it has taken the request. -/
  | refused (duration : Nat)
  /-- It takes the request, and brings something back. -/
  | accepted (delivery : Delivery)

/-- The socket of a Lightning node, as a client finds it. -/
structure Socket where
  /-- What becomes of the connection for the request of a number. -/
  connection : Nat → Connection := fun _ => .accepted .closed
  /-- The number of the next request. -/
  nextId : Nat := 1
  /-- The requests received, last one first. -/
  requests : List Json := []
  /-- The time in nanoseconds. -/
  clock : Nat := 0

/-- Why an exchange with the node gives no result. -/
inductive Interruption where
  | failure (error : ClientError)
  /-- The node is silent, and the client waits on without end. -/
  | silence
  /-- The client breaks down because a time is longer than it can tell. -/
  | overflow
deriving DecidableEq

/-- A step of an exchange with the node. -/
abbrev Rpc := ExceptT Interruption (StateM Socket)

namespace Rpc

def request (id : Nat) (method : String) (params : Json) : Json := .object [
  ("jsonrpc", .string "2.0"),
  ("id", .nat id),
  ("method", .string method),
  ("params", params)]

/-- What a connection answers and how long it takes, unless it falls silent. -/
def answer? (method : String) : Connection → Option (Nat × Except ClientError Json)
  | .refused duration => some (duration, .error (.transport none))
  | .accepted delivery => Reply.ofDelivery method delivery

/-- The requests that have been received behind one more. -/
def received (request : Json) (requests : List Json) : Connection → List Json
  | .refused _ => requests
  | .accepted _ => request :: requests

/-- One call, and its result. -/
def call (method : String) (params : Json) : Rpc Json := do
  let socket ← get
  let connection := socket.connection socket.nextId
  let opened := { socket with
    nextId := socket.nextId + 1
    requests := received (request socket.nextId method params) socket.requests connection }
  match answer? method connection with
  | none =>
    set opened
    throw .silence
  | some (passed, result) =>
    set { opened with clock := opened.clock + passed }
    match result with
    | .ok result => return result
    | .error error => throw (.failure error)

/-- A call whose result has to decode. -/
def ask {α : Type} (method : String) (params : Json) (decode : Json → Option α) : Rpc α := do
  match decode (← call method params) with
  | some value => return value
  | none => throw (.failure (.decode none))

def getInfo : Rpc NodeInfo := ask "getinfo" (.object []) NodeInfo.ofJson?

def listChannels : Rpc (List ListedChannel) :=
  ask "listchannels" (.object []) (Json.listing? "channels" ListedChannel.ofListing?)

def listNodes : Rpc (List ListedNode) :=
  ask "listnodes" (.object []) (Json.listing? "nodes" ListedNode.ofJson?)

def listPeers : Rpc (List ListedPeer) :=
  ask "listpeers" (.object []) (Json.listing? "peers" ListedPeer.ofListing?)

/-- The payment hash and the payment secret of an invoice. -/
def invoice? (json : Json) : Option (String × String) := do
  let fields ← json.fields? ["payment_hash", "payment_secret"]
  return (← fields.need "payment_hash" Json.text?, ← fields.need "payment_secret" Json.text?)

/-- An invoice to the payer itself that settles with the given preimage. The node's payment secret for
it comes back, and the hash has to be the preimage's. -/
def invoice (label : String) (amount : Msat) (secret : PaymentSecret) : Rpc String := do
  let (hash, paymentSecret) ← ask "invoice" (.object [
    ("amount_msat", .nat amount.toNat),
    ("label", .string label),
    ("description", .string "circular rebalance"),
    ("preimage", .string secret.preimage.toHex)]) invoice?
  if hash ≠ secret.hashHex then throw (.failure (.decode none))
  return paymentSecret

def hopJson (hop : Hop) : Json := .object [
  ("id", hop.channel.destination.toJson),
  ("channel", hop.channel.scid.toJson),
  ("direction", hop.channel.direction.toJson),
  ("amount_msat", .nat hop.amount.toNat),
  ("delay", .nat hop.delay.toNat),
  ("style", .string "tlv")]

/-- A route as the node wants it: for every hop the node that it leads to. -/
def routeJson (route : Route) : Json := .array (route.hops.map hopJson)

def sendpay (route : Route) (secret : PaymentSecret) (paymentSecret : String) : Rpc Unit := do
  let _ ← call "sendpay" (.object [
    ("route", routeJson route),
    ("payment_hash", .string secret.hashHex),
    ("payment_secret", .string paymentSecret),
    ("amount_msat", .nat route.amount.toNat)])

/-- The code of an error that says that a payment is still pending. -/
def stillPending : Int := 2000

/-- The revealed preimage of a payment under way. -/
def revealed? (json : Json) : Option Preimage := do
  let fields ← json.fields? ["payment_preimage"]
  let text ← fields.need "payment_preimage" Json.text?
  (Preimage.ofHex text).toOption

/-- Waits for the outcome of a payment. The node is asked to answer within `timeout` seconds. -/
def waitsendpay (secret : PaymentSecret) (timeout : UInt64) : Rpc Preimage := do
  let params := .object [("payment_hash", .string secret.hashHex), ("timeout", .nat timeout.toNat)]
  tryCatch (ask "waitsendpay" params revealed?) fun interruption =>
    match interruption with
    | .failure (.rpc code _) =>
      throw (if code = stillPending then .failure .timeout else interruption)
    | _ => throw interruption

/-- How many seconds longer than the node is asked to wait the client waits itself. -/
def grace : Nat := 5

/-- Whether the client can tell how long it waits. A time holds less than 2 ^ 64 seconds. -/
def isTellable (timeout : UInt64) : Bool := timeout.toNat + grace < UInt64.size

/-- How many nanoseconds the client waits for the outcome of a payment. -/
def patience (timeout : UInt64) : Nat := (timeout.toNat + grace) * 1000000000

/-- Whether an exchange that ends in this way is over before a deadline. -/
def isOverBefore {α : Type} (deadline : Nat) : Except Interruption α × Socket → Bool
  | (.error .silence, _) => false
  | (_, socket) => socket.clock < deadline

/-- Gives up an exchange that is not over before `limit` nanoseconds have passed. -/
def within {α : Type} (limit : Nat) (exchange : Rpc α) : Rpc α := ExceptT.mk fun socket =>
  let deadline := socket.clock + limit
  let ending := exchange.run.run socket
  if isOverBefore deadline ending then ending
  else (.error (.failure .timeout), { ending.2 with clock := deadline })

/-- Pays along a route, and waits for the outcome. -/
def sendPay (label : String) (route : Route) (secret : PaymentSecret) (timeout : UInt64) :
    Rpc Preimage := do
  let paymentSecret ← invoice label route.amount secret
  sendpay route secret paymentSecret
  if !isTellable timeout then throw .overflow
  within (patience timeout) (waitsendpay secret timeout)

end Rpc

end Rebalancing
