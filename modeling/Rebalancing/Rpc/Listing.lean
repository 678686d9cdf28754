import Rebalancing.Wire.Channel

/-! # Listings as the Lightning node words them

Older nodes give the size of a channel in satoshis, newer ones in millisatoshi, and an amount may be a
number or a text with the unit behind it. -/

namespace Rebalancing

namespace Json

def msatUnit : List Char := ['m', 's', 'a', 't']

/-- A text without the unit, if it ends in one. -/
def dropUnit (text : List Char) : List Char :=
  if msatUnit.isSuffixOf text then text.take (text.length - msatUnit.length) else text

/-- An amount: a number, or a text with the numeral and perhaps the unit. -/
def msat? : Json → Option Msat
  | .string text => (Decimal.parse? 0xffffffffffffffff (dropUnit text.toList)).map .ofNat
  | json => json.uint64?

end Json

namespace ListedChannel

/-- The size in satoshis, given in either unit; the satoshis decide. -/
def listedSize (satoshis : Option UInt64) (amount : Option Msat) : UInt64 :=
  (satoshis.or (amount.map (· / 1000))).getD 0

def listedNames : List String :=
  ["source", "destination", "short_channel_id", "amount_msat", "satoshis", "active", "last_update",
    "base_fee_millisatoshi", "fee_per_millionth", "delay", "htlc_minimum_msat", "htlc_maximum_msat"]

/-- A record of the node's own listing. -/
def ofListing? (json : Json) : Option ListedChannel := do
  let fields ← json.fields? listedNames
  let amount ← fields.optional "amount_msat" Json.msat?
  let satoshis ← fields.optional "satoshis" Json.uint64?
  let minimum ← fields.optional "htlc_minimum_msat" Json.msat?
  return {
    scid := ← fields.need "short_channel_id" ShortChannelId.ofJson?
    source := ← fields.need "source" NodeId.ofJson?
    destination := ← fields.need "destination" NodeId.ofJson?
    satoshis := listedSize satoshis amount
    baseFee := ← fields.need "base_fee_millisatoshi" Json.uint64?
    feePerMillionth := ← fields.need "fee_per_millionth" Json.uint64?
    htlcMinimum := minimum.getD 0
    htlcMaximum := ← fields.optional "htlc_maximum_msat" Json.msat?
    delay := ← fields.need "delay" Json.uint32?
    active := ← fields.orDefault "active" true Json.bool?
    lastUpdate := ← fields.orDefault "last_update" 0 Json.uint64? }

end ListedChannel

namespace ListedPeer

/-- The number of channels, given as such or by the channels themselves. -/
def listedCount (count : Option UInt32) (channels : Option (List Json)) : UInt32 :=
  (count.or (channels.map fun channels => .ofNat channels.length)).getD 0

/-- A record of the node's own listing. -/
def ofListing? (json : Json) : Option ListedPeer := do
  let fields ← json.fields? ["id", "connected", "netaddr", "num_channels", "channels"]
  let count ← fields.optional "num_channels" Json.uint32?
  let channels ← fields.optional "channels" (Json.list? some)
  return {
    id := ← fields.need "id" NodeId.ofJson?
    connected := ← fields.orDefault "connected" false Json.bool?
    channels := listedCount count channels
    addresses := ← fields.orDefault "netaddr" [] (Json.list? Json.text?) }

end ListedPeer

/-- The items of the only field of a record. -/
def Json.listing? {α : Type} (name : String) (decode : Json → Option α) (json : Json) :
    Option (List α) := do
  let fields ← json.fields? [name]
  fields.need name (Json.list? decode)

end Rebalancing
