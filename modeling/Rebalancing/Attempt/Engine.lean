import Rebalancing.Attempt.Error
import Rebalancing.Path.Search
import Rebalancing.Payment.Preimage

/-! # Rebalancing

Funds are moved around a circle: out over one of the payer's own channels, through the network to the
peer behind another own channel, and back in over that one. A route is looked for under a hop limit
that widens while nothing is found, and it is paid only if its fee is acceptable. -/

namespace Rebalancing

open Std

/-- Move `amount` out over one channel and back in over another. -/
structure RebalanceRequest where
  outgoing : ShortChannelId
  incoming : ShortChannelId
  amount : Msat
  maxPpm : UInt64
  /-- The hop limit of the first search between the two peers; zero searches once, without a limit. -/
  initialMaxHops : UInt64
deriving DecidableEq

/-- The limits of the engine. Times are in seconds. -/
structure Tuning where
  /-- The hop limit that searches widen to. -/
  maxHopsCeiling : UInt64 := 10
  /-- By how much the hop limit grows after a search in vain. -/
  hopStep : UInt64 := 1
  /-- The delay that the payer asks for as the payee. -/
  finalDelay : UInt32 := 9
  paymentTimeout : UInt64 := 60
  /-- How long searches may go on. -/
  deadline : UInt64 := 300
deriving DecidableEq

/-- A payment handed to the Lightning node. -/
structure Payment where
  route : Route
  secret : PaymentSecret
  timeout : UInt64
deriving DecidableEq

structure RebalanceOutcome where
  route : Route
  preimage : Preimage
  /-- How many searches it took. -/
  attempts : Nat
deriving DecidableEq

/-- What an attempt has done so far. -/
structure Progress where
  state : AttemptState := .idle
  payments : List Payment := []

/-- A step of an attempt, which keeps something of type `σ` about itself, also when it fails. -/
abbrev Attempt (σ : Type) := ExceptT RebalanceError (StateM σ)

/-- How an attempt keeps something about itself. -/
class Ledger (σ : Type) where
  /-- Takes in an event, or refuses it. -/
  take : AttemptEvent → σ → Except RebalanceError σ
  /-- Takes in a payment. -/
  record : Payment → σ → σ

/-- An event is refused that does not fit the state. -/
instance : Ledger Progress where
  take event progress :=
    match progress.state.after event with
    | .ok state => .ok { progress with state }
    | .error target => .error (.model (.transition progress.state target))
  record payment progress := { progress with payments := progress.payments ++ [payment] }

variable {σ : Type} [Ledger σ]

/-- Feeds an event to an attempt. -/
def Attempt.advance (event : AttemptEvent) : Attempt σ Unit := do
  match Ledger.take event (← get) with
  | .ok kept => set kept
  | .error error => throw error

/-- The engine of one node. -/
structure Rebalancer where
  graph : Graph
  self : NodeId
  tuning : Tuning := {}

/-- The node's answer to a payment. -/
abbrev Payer := Payment → Except ClientError Preimage

namespace Rebalancer

open Attempt (advance)

/-- The search for a way between two peers that avoids the payer. -/
def query (engine : Rebalancer) (amount : Msat) (source destination : NodeId) (limit : UInt64) :
    Query where
  source
  destination
  amount
  excluded := (∅ : ExtTreeSet NodeId).insert engine.self
  maxHops := limit.toNat

/-- The widest hop limit of a request. -/
def ceiling (engine : Rebalancer) (request : RebalanceRequest) : UInt64 :=
  max engine.tuning.maxHopsCeiling request.initialMaxHops

/-- The hop limit after one that was too narrow. -/
def wider (engine : Rebalancer) (request : RebalanceRequest) (limit : UInt64) : UInt64 :=
  min (limit.satAdd (max engine.tuning.hopStep 1)) (engine.ceiling request)

theorem lt_wider (engine : Rebalancer) (request : RebalanceRequest) {limit : UInt64}
    (h : limit < engine.ceiling request) : limit.toNat < (engine.wider request limit).toNat := by
  have hc := (engine.ceiling request).toNat_lt
  have h' := UInt64.lt_iff_toNat_lt.mp h
  have hs : 1 ≤ (max engine.tuning.hopStep 1).toNat := by
    simp only [max, Max.max]
    split
    next => decide
    next hle =>
      rw [UInt64.le_iff_toNat_le, show (1 : UInt64).toNat = 1 from rfl] at hle
      omega
  simp only [wider, min]
  split
  next => rw [UInt64.toNat_satAdd]; omega
  next => exact h'

/-- Searches with wider and wider hop limits, `attempts` being the searches already made. The time is
checked before each of them. -/
def widen (engine : Rebalancer) (request : RebalanceRequest) (source destination : NodeId)
    (elapsed : Nat → Nat) (limit : UInt64) (attempts : Nat) : Attempt σ (Route × Nat) := do
  if engine.tuning.deadline.toNat ≤ elapsed attempts then throw (.deadlineExceeded attempts)
  advance .requestRoute
  match engine.graph.findRoute (engine.query request.amount source destination limit) with
  | .ok route =>
    advance .routeFound
    return (route, attempts + 1)
  | .error (.noRoute _ _) =>
    advance .routeNotFound
    if h : limit ≠ 0 ∧ limit < engine.ceiling request then
      widen engine request source destination elapsed (engine.wider request limit) (attempts + 1)
    else throw (.noRoute source destination limit)
  | .error error => throw (.routing error)
termination_by (engine.ceiling request).toNat - limit.toNat
decreasing_by
  have := engine.lt_wider request h.2
  have := UInt64.lt_iff_toNat_lt.mp h.2
  omega

/-- A way between the two peers, and the searches it took. Two channels to one peer need none. -/
def interior (engine : Rebalancer) (request : RebalanceRequest) (source destination : NodeId)
    (elapsed : Nat → Nat) : Attempt σ (Route × Nat) := do
  if source = destination then
    advance .requestRoute
    advance .routeFound
    return (.ofHops source destination request.amount [], 1)
  else widen engine request source destination elapsed request.initialMaxHops 0

/-- The circle over a way between the peers. -/
def circle (engine : Rebalancer) (outgoing incoming : Channel) (route : Route) : Route :=
  ((route.prepend outgoing).append incoming).withFinalDelay engine.tuning.finalDelay

/-- The payer's own channels that a request names. -/
def ownChannels (engine : Rebalancer) (request : RebalanceRequest) :
    Except RebalanceError (Channel × Channel) := do
  if request.amount = 0 then throw (.invalidRequest .zeroAmount)
  if request.outgoing = request.incoming then throw (.invalidRequest (.sameChannel request.outgoing))
  match engine.graph.outgoing? engine.self request.outgoing with
  | none => throw (.unknownChannel request.outgoing)
  | some outgoing =>
    match engine.graph.incoming? engine.self request.incoming with
    | none => throw (.unknownChannel request.incoming)
    | some incoming => return (outgoing, incoming)

/-- Checks the price of a route, and that its first channel can bear what is sent. -/
def approve (request : RebalanceRequest) (outgoing : Channel) (route : Route) : Attempt σ Unit := do
  if request.maxPpm < route.feePpm then
    advance .feeRejected
    throw (.tooExpensive route.feePpm request.maxPpm)
  if !outgoing.canUse route.sent then
    throw (.insufficientLiquidity route.sent outgoing.liquidity)
  advance .feeAccepted

/-- Hands a payment to the node and takes in its answer. -/
def pay (payer : Payer) (payment : Payment) : Attempt σ Preimage := do
  advance .paymentDispatched
  modify (Ledger.record payment)
  match payer payment with
  | .ok preimage =>
    advance .paymentSucceeded
    return preimage
  | .error error =>
    advance .paymentFailed
    throw (if error = .timeout then .paymentTimeout else .temporaryFailure)

/-- Runs a request. `elapsed k` is the whole seconds that have passed before search number `k`. -/
def rebalance (engine : Rebalancer) (request : RebalanceRequest) (payer : Payer)
    (secret : PaymentSecret) (elapsed : Nat → Nat) : Attempt σ RebalanceOutcome := do
  let (outgoing, incoming) ← engine.ownChannels request
  let (interior, attempts) ←
    engine.interior request outgoing.destination incoming.source elapsed
  let route := engine.circle outgoing incoming interior
  approve request outgoing route
  let preimage ← pay payer { route, secret, timeout := engine.tuning.paymentTimeout }
  return { route, preimage, attempts }

/-- The result of a request together with what was done for it. -/
def run (engine : Rebalancer) (request : RebalanceRequest) (payer : Payer) (secret : PaymentSecret)
    (elapsed : Nat → Nat) : Except RebalanceError RebalanceOutcome × Progress :=
  (engine.rebalance request payer secret elapsed).run.run ({} : Progress)

end Rebalancer

end Rebalancing
