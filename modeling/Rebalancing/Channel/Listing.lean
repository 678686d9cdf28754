import Rebalancing.Channel.Id
import Rebalancing.Saturating

/-! # Listings

What a Lightning node tells about the network: one record for each announced direction of a channel,
node announcements, its peers, and itself. -/

namespace Rebalancing

/-- Millisatoshi. -/
abbrev Msat := UInt64

/-- One direction of a channel as gossip announces it. -/
structure ListedChannel where
  scid : ShortChannelId
  source : NodeId
  destination : NodeId
  satoshis : UInt64
  baseFee : Msat
  feePerMillionth : UInt64
  htlcMinimum : Msat
  /-- Old gossip leaves the maximum out; the capacity takes its place. -/
  htlcMaximum : Option Msat
  delay : UInt32
  active : Bool
  lastUpdate : UInt64
deriving DecidableEq

/-- Why a record describes no usable edge. -/
inductive ListingError where
  | missingEndpoint (scid : ShortChannelId)
  | selfLoop (scid : ShortChannelId)
deriving DecidableEq

def ListingError.message : ListingError → String
  | .missingEndpoint scid => "invalid channel listing: " ++ scid.text ++ ": missing endpoint"
  | .selfLoop scid => "invalid channel listing: " ++ scid.text ++ ": source equals destination"

namespace ListedChannel

def direction (listed : ListedChannel) : Direction := .between listed.source listed.destination

def id (listed : ListedChannel) : ChannelId := ⟨listed.scid, listed.direction⟩

def capacity (listed : ListedChannel) : Msat := listed.satoshis.satMul 1000

/-- A usable record names two different nodes. -/
def validate (listed : ListedChannel) : Except ListingError Unit :=
  if listed.source.isEmpty || listed.destination.isEmpty then .error (.missingEndpoint listed.scid)
  else if listed.source = listed.destination then .error (.selfLoop listed.scid)
  else .ok ()

def isValid (listed : ListedChannel) : Bool :=
  !listed.source.isEmpty && !listed.destination.isEmpty && listed.source != listed.destination

theorem isValid_iff (listed : ListedChannel) : listed.isValid ↔ listed.validate = .ok () := by
  by_cases hs : listed.source.isEmpty <;> by_cases hd : listed.destination.isEmpty <;>
    by_cases h : listed.source = listed.destination <;> simp [isValid, validate, hs, hd, h]

end ListedChannel

/-- A node announcement. -/
structure ListedNode where
  node : NodeId
  name : Option String
deriving DecidableEq

/-- A peer the node has, or had, a connection with. -/
structure ListedPeer where
  id : NodeId
  connected : Bool
  channels : UInt32
  addresses : List String
deriving DecidableEq

/-- The identity of a node. -/
structure NodeInfo where
  id : NodeId
  name : Option String
  blockHeight : UInt32
deriving DecidableEq

end Rebalancing
