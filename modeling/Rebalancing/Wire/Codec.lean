import Rebalancing.Json.Printer
import Rebalancing.Json.Tree
import Rebalancing.Wire.Attempt
import Rebalancing.Wire.Graph

/-! # JSON forms

The types that are stored or sent as JSON, and their texts. -/

namespace Rebalancing

/-- A type whose values have a form in JSON. -/
class Wire (α : Type) where
  toJson : α → Json
  ofJson? : Json → Option α

namespace Wire

instance : Wire NodeId := ⟨NodeId.toJson, NodeId.ofJson?⟩
instance : Wire ShortChannelId := ⟨ShortChannelId.toJson, ShortChannelId.ofJson?⟩
instance : Wire Direction := ⟨Direction.toJson, Direction.ofJson?⟩
instance : Wire ChannelId := ⟨ChannelId.toJson, ChannelId.ofJson?⟩
instance : Wire Channel := ⟨Channel.toJson, Channel.ofJson?⟩
instance : Wire ListedChannel := ⟨ListedChannel.toJson, ListedChannel.ofJson?⟩
instance : Wire ListedNode := ⟨ListedNode.toJson, ListedNode.ofJson?⟩
instance : Wire ListedPeer := ⟨ListedPeer.toJson, ListedPeer.ofJson?⟩
instance : Wire NodeInfo := ⟨NodeInfo.toJson, NodeInfo.ofJson?⟩
instance : Wire Hop := ⟨Hop.toJson, Hop.ofJson?⟩
instance : Wire Route := ⟨Route.toJson, Route.ofJson?⟩
instance : Wire Snapshot := ⟨Snapshot.toJson, Snapshot.ofJson?⟩
instance : Wire Stats := ⟨Stats.toJson, Stats.ofJson?⟩
instance : Wire Aging := ⟨Aging.toJson, Aging.ofJson?⟩
instance : Wire RefreshSummary := ⟨RefreshSummary.toJson, RefreshSummary.ofJson?⟩
instance : Wire RebalanceRequest := ⟨RebalanceRequest.toJson, RebalanceRequest.ofJson?⟩
instance : Wire AttemptState := ⟨AttemptState.toJson, AttemptState.ofJson?⟩
instance : Wire Preimage := ⟨Preimage.toJson, Preimage.ofJson?⟩

/-- The text of a value. -/
def encode {α : Type} [Wire α] (value : α) : List UInt8 := (toJson value).print

/-- The value of a text. Members that are not known may be anything. -/
def decode? {α : Type} [Wire α] (text : List UInt8) : Option α :=
  (Json.ofBytes .skim text).toOption.bind ofJson?

end Wire

end Rebalancing
