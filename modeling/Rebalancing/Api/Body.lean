import Rebalancing.Api.Message
import Rebalancing.Attempt.Engine
import Rebalancing.Json.Record
import Rebalancing.Settings.Basic
import Rebalancing.Wire.Channel

/-! # Bodies of requests

What clients ask for in JSON, read in the order of the text: a body that is no JSON is told from one
that is not what is wanted. -/

namespace Rebalancing

namespace Api

open Json (Reader)

/-- The question for a route. -/
structure RouteQuestion where
  source : Option NodeId := none
  destination : NodeId
  amount : Msat
  maxHops : Option UInt64 := none
deriving DecidableEq

/-- The order to rebalance. The node has defaults for its limits. -/
structure RebalanceOrder where
  outgoing : ShortChannelId
  incoming : ShortChannelId
  amount : Msat
  maxPpm : Option UInt64 := none
  initialMaxHops : Option UInt64 := none
deriving DecidableEq

/-- A member that is left out if there is nothing to say. -/
def ifGiven (name : String) (value : Option Json) : List (String × Json) :=
  (value.map (name, ·)).toList

/-- A 64-bit word. -/
def readWord : Reader UInt64 := do return .ofNat (← Reader.integer 0 0xffffffffffffffff).toNat

def readNode : Reader NodeId := do return ⟨← Reader.text⟩

def readScid : Reader ShortChannelId :=
  Reader.checked Reader.text fun text => (ShortChannelId.parse text).toOption

namespace RouteQuestion

/-- A question of which some fields have been read. -/
structure Draft where
  source : Option NodeId := none
  destination : Option NodeId := none
  amount : Option Msat := none
  maxHops : Option UInt64 := none

def Draft.finish (draft : Draft) : Option RouteQuestion := do
  return {
    source := draft.source
    destination := ← draft.destination
    amount := ← draft.amount
    maxHops := draft.maxHops }

def fields : List (Reader.Field Draft) := [
  ⟨"from", fun draft => do return { draft with source := ← Reader.optional readNode }⟩,
  ⟨"to", fun draft => do return { draft with destination := some (← readNode) }⟩,
  ⟨"amount", fun draft => do return { draft with amount := some (← readWord) }⟩,
  ⟨"max_hops", fun draft => do return { draft with maxHops := ← Reader.optional readWord }⟩]

def reader : Reader RouteQuestion := Reader.record fields 0 {} Draft.finish

/-- The body that asks the question. -/
def toJson (question : RouteQuestion) : Json := .object (
  ifGiven "from" (question.source.map NodeId.toJson)
    ++ [("to", question.destination.toJson), ("amount", .nat question.amount.toNat)]
    ++ ifGiven "max_hops" (question.maxHops.map fun n => .nat n.toNat))

end RouteQuestion

namespace RebalanceOrder

/-- An order of which some fields have been read. -/
structure Draft where
  outgoing : Option ShortChannelId := none
  incoming : Option ShortChannelId := none
  amount : Option Msat := none
  maxPpm : Option UInt64 := none
  initialMaxHops : Option UInt64 := none

def Draft.finish (draft : Draft) : Option RebalanceOrder := do
  return {
    outgoing := ← draft.outgoing
    incoming := ← draft.incoming
    amount := ← draft.amount
    maxPpm := draft.maxPpm
    initialMaxHops := draft.initialMaxHops }

def fields : List (Reader.Field Draft) := [
  ⟨"out_scid", fun draft => do return { draft with outgoing := some (← readScid) }⟩,
  ⟨"in_scid", fun draft => do return { draft with incoming := some (← readScid) }⟩,
  ⟨"amount", fun draft => do return { draft with amount := some (← readWord) }⟩,
  ⟨"max_ppm", fun draft => do return { draft with maxPpm := ← Reader.optional readWord }⟩,
  ⟨"initial_max_hops", fun draft => do
    return { draft with initialMaxHops := ← Reader.optional readWord }⟩]

def reader : Reader RebalanceOrder := Reader.record fields 0 {} Draft.finish

/-- The body that gives the order. -/
def toJson (order : RebalanceOrder) : Json := .object (
  [("out_scid", order.outgoing.toJson), ("in_scid", order.incoming.toJson),
      ("amount", .nat order.amount.toNat)]
    ++ ifGiven "max_ppm" (order.maxPpm.map fun n => .nat n.toNat)
    ++ ifGiven "initial_max_hops" (order.initialMaxHops.map fun n => .nat n.toNat))

/-- The request that an order makes under the settings of a node. -/
def request (order : RebalanceOrder) (settings : RebalanceSettings) : RebalanceRequest where
  outgoing := order.outgoing
  incoming := order.incoming
  amount := order.amount
  maxPpm := order.maxPpm.getD settings.maxPpm
  initialMaxHops := order.initialMaxHops.getD settings.initialMaxHops

end RebalanceOrder

/-- The status for a body that cannot be read. -/
def faultStatus : Json.Fault → Nat
  | .cut | .malformed => 400
  | .mismatch => 422

/-- Reads the body of a request, which has to say that it is JSON. -/
def Request.read {α : Type} (request : Request) (reader : Reader α) : Except Response α :=
  if !request.isJson then .error { status := 415 }
  else match reader.whole (Json.Lexer.feed {} request.body) with
    | .ok value => .ok value
    | .error fault => .error { status := faultStatus fault }

end Api

end Rebalancing
