import Rebalancing.Attempt.Engine
import Rebalancing.Wire.Channel

/-! # Attempts in JSON -/

namespace Rebalancing

namespace RebalanceRequest

def toJson (request : RebalanceRequest) : Json := .object [
  ("out_scid", request.outgoing.toJson),
  ("in_scid", request.incoming.toJson),
  ("amount", .nat request.amount.toNat),
  ("max_ppm", .nat request.maxPpm.toNat),
  ("initial_max_hops", .nat request.initialMaxHops.toNat)]

def ofJson? (json : Json) : Option RebalanceRequest := do
  let fields ← json.fields? ["out_scid", "in_scid", "amount", "max_ppm", "initial_max_hops"]
  return {
    outgoing := ← fields.need "out_scid" ShortChannelId.ofJson?
    incoming := ← fields.need "in_scid" ShortChannelId.ofJson?
    amount := ← fields.need "amount" Json.uint64?
    maxPpm := ← fields.need "max_ppm" Json.uint64?
    initialMaxHops := ← fields.need "initial_max_hops" Json.uint64? }

end RebalanceRequest

namespace AttemptState

def toJson (state : AttemptState) : Json := .string state.name

/-- A state is given by name, or as an object with its name as the only member and null for a value. -/
def ofJson? : Json → Option AttemptState
  | .string name => ofName? name
  | .object [(name, .null)] => ofName? name
  | _ => none

end AttemptState

namespace Preimage

def toJson (preimage : Preimage) : Json := .string preimage.toHex

def ofJson? (json : Json) : Option Preimage := json.text?.bind fun text => (ofHex text).toOption

end Preimage

end Rebalancing
