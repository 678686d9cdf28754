import Rebalancing.Channel.Basic
import Rebalancing.Json.Decode

/-! # Channels, listings and their names in JSON

Every type has its JSON form, `toJson`, and a decoder `ofJson?` that reads it back. -/

namespace Rebalancing

namespace NodeId

def toJson (node : NodeId) : Json := .string node.text

def ofJson? (json : Json) : Option NodeId := json.text?.map .mk

end NodeId

namespace ShortChannelId

def toJson (scid : ShortChannelId) : Json := .string scid.text

def ofJson? (json : Json) : Option ShortChannelId := json.text?.bind fun text => (parse text).toOption

end ShortChannelId

namespace Direction

def toJson (direction : Direction) : Json := .nat direction.toNat

def ofJson? (json : Json) : Option Direction := json.uint8?.bind fun value => (ofByte value).toOption

end Direction

namespace ChannelId

def toJson (id : ChannelId) : Json :=
  .object [("short_channel_id", id.scid.toJson), ("direction", id.direction.toJson)]

def ofJson? (json : Json) : Option ChannelId := do
  let fields ← json.fields? ["short_channel_id", "direction"]
  return {
    scid := ← fields.need "short_channel_id" ShortChannelId.ofJson?
    direction := ← fields.need "direction" Direction.ofJson? }

end ChannelId

/-- A value that may be missing. -/
def Json.ofOption (json : Option Json) : Json := json.getD .null

namespace Channel

def fieldNames : List String :=
  ["short_channel_id", "source", "destination", "capacity", "liquidity", "base_fee",
    "fee_per_millionth", "min_htlc", "max_htlc", "delay", "active", "last_update"]

def toJson (channel : Channel) : Json := .object [
  ("short_channel_id", channel.scid.toJson),
  ("source", channel.source.toJson),
  ("destination", channel.destination.toJson),
  ("capacity", .nat channel.capacity.toNat),
  ("liquidity", .nat channel.liquidity.toNat),
  ("base_fee", .nat channel.baseFee.toNat),
  ("fee_per_millionth", .nat channel.feePerMillionth.toNat),
  ("min_htlc", .nat channel.minHtlc.toNat),
  ("max_htlc", .nat channel.maxHtlc.toNat),
  ("delay", .nat channel.delay.toNat),
  ("active", .bool channel.active),
  ("last_update", .nat channel.lastUpdate.toNat)]

def ofJson? (json : Json) : Option Channel := do
  let fields ← json.fields? fieldNames
  return {
    scid := ← fields.need "short_channel_id" ShortChannelId.ofJson?
    source := ← fields.need "source" NodeId.ofJson?
    destination := ← fields.need "destination" NodeId.ofJson?
    capacity := ← fields.need "capacity" Json.uint64?
    liquidity := ← fields.need "liquidity" Json.uint64?
    baseFee := ← fields.need "base_fee" Json.uint64?
    feePerMillionth := ← fields.need "fee_per_millionth" Json.uint64?
    minHtlc := ← fields.need "min_htlc" Json.uint64?
    maxHtlc := ← fields.need "max_htlc" Json.uint64?
    delay := ← fields.need "delay" Json.uint32?
    active := ← fields.need "active" Json.bool?
    lastUpdate := ← fields.need "last_update" Json.uint64? }

end Channel

namespace ListedChannel

def fieldNames : List String :=
  ["short_channel_id", "source", "destination", "satoshis", "base_fee_millisatoshi",
    "fee_per_millionth", "htlc_minimum_msat", "htlc_maximum_msat", "delay", "active", "last_update"]

def toJson (listed : ListedChannel) : Json := .object [
  ("short_channel_id", listed.scid.toJson),
  ("source", listed.source.toJson),
  ("destination", listed.destination.toJson),
  ("satoshis", .nat listed.satoshis.toNat),
  ("base_fee_millisatoshi", .nat listed.baseFee.toNat),
  ("fee_per_millionth", .nat listed.feePerMillionth.toNat),
  ("htlc_minimum_msat", .nat listed.htlcMinimum.toNat),
  ("htlc_maximum_msat", .ofOption (listed.htlcMaximum.map fun limit => .nat limit.toNat)),
  ("delay", .nat listed.delay.toNat),
  ("active", .bool listed.active),
  ("last_update", .nat listed.lastUpdate.toNat)]

def ofJson? (json : Json) : Option ListedChannel := do
  let fields ← json.fields? fieldNames
  return {
    scid := ← fields.need "short_channel_id" ShortChannelId.ofJson?
    source := ← fields.need "source" NodeId.ofJson?
    destination := ← fields.need "destination" NodeId.ofJson?
    satoshis := ← fields.need "satoshis" Json.uint64?
    baseFee := ← fields.need "base_fee_millisatoshi" Json.uint64?
    feePerMillionth := ← fields.need "fee_per_millionth" Json.uint64?
    htlcMinimum := ← fields.need "htlc_minimum_msat" Json.uint64?
    htlcMaximum := ← fields.optional "htlc_maximum_msat" Json.uint64?
    delay := ← fields.need "delay" Json.uint32?
    active := ← fields.orDefault "active" true Json.bool?
    lastUpdate := ← fields.orDefault "last_update" 0 Json.uint64? }

end ListedChannel

namespace ListedNode

def toJson (listed : ListedNode) : Json :=
  .object [("nodeid", listed.node.toJson), ("alias", .ofOption (listed.name.map .string))]

def ofJson? (json : Json) : Option ListedNode := do
  let fields ← json.fields? ["nodeid", "alias"]
  return {
    node := ← fields.need "nodeid" NodeId.ofJson?
    name := ← fields.optional "alias" Json.text? }

end ListedNode

namespace ListedPeer

def toJson (peer : ListedPeer) : Json := .object [
  ("id", peer.id.toJson),
  ("connected", .bool peer.connected),
  ("num_channels", .nat peer.channels.toNat),
  ("netaddr", .array (peer.addresses.map .string))]

def ofJson? (json : Json) : Option ListedPeer := do
  let fields ← json.fields? ["id", "connected", "num_channels", "netaddr"]
  return {
    id := ← fields.need "id" NodeId.ofJson?
    connected := ← fields.orDefault "connected" false Json.bool?
    channels := ← fields.orDefault "num_channels" 0 Json.uint32?
    addresses := ← fields.orDefault "netaddr" [] (Json.list? Json.text?) }

end ListedPeer

namespace NodeInfo

def toJson (info : NodeInfo) : Json := .object [
  ("id", info.id.toJson),
  ("alias", .ofOption (info.name.map .string)),
  ("blockheight", .nat info.blockHeight.toNat)]

def ofJson? (json : Json) : Option NodeInfo := do
  let fields ← json.fields? ["id", "alias", "blockheight"]
  return {
    id := ← fields.need "id" NodeId.ofJson?
    name := ← fields.optional "alias" Json.text?
    blockHeight := ← fields.orDefault "blockheight" 0 Json.uint32? }

end NodeInfo

end Rebalancing
