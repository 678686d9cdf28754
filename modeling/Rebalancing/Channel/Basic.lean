import Rebalancing.Channel.Listing

/-! # Channels

One forwarding direction of a payment channel, with an estimate of the part of its capacity that can
leave its source now. -/

namespace Rebalancing

structure Channel where
  scid : ShortChannelId
  source : NodeId
  destination : NodeId
  capacity : Msat
  /-- What the source is believed to be able to send. -/
  liquidity : Msat
  baseFee : Msat
  feePerMillionth : UInt64
  minHtlc : Msat
  maxHtlc : Msat
  /-- The blocks by which forwarding lengthens the time lock. -/
  delay : UInt32
  active : Bool
  lastUpdate : UInt64
deriving DecidableEq

namespace Channel

/-- The channel that a record describes. The estimate is kept within the capacity. -/
def ofListed (listed : ListedChannel) (liquidity : Msat) : Channel where
  scid := listed.scid
  source := listed.source
  destination := listed.destination
  capacity := listed.capacity
  liquidity := min liquidity listed.capacity
  baseFee := listed.baseFee
  feePerMillionth := listed.feePerMillionth
  minHtlc := listed.htlcMinimum
  maxHtlc := listed.htlcMaximum.getD listed.capacity
  delay := listed.delay
  active := listed.active
  lastUpdate := listed.lastUpdate

def direction (channel : Channel) : Direction := .between channel.source channel.destination

def id (channel : Channel) : ChannelId := ⟨channel.scid, channel.direction⟩

/-- Whether the source can forward `amount`. -/
def canUse (channel : Channel) (amount : Msat) : Bool :=
  channel.minHtlc ≤ amount && amount ≤ channel.maxHtlc && amount ≤ channel.liquidity

/-- What the source charges for forwarding `amount`, rounded down. -/
def fee (channel : Channel) (amount : Msat) : Msat :=
  channel.baseFee.satAdd (.clamp (channel.feePerMillionth.toNat * amount.toNat / 1000000))

@[simp] theorem id_ofListed (listed : ListedChannel) (liquidity : Msat) :
    (ofListed listed liquidity).id = listed.id := rfl

@[simp] theorem capacity_ofListed (listed : ListedChannel) (liquidity : Msat) :
    (ofListed listed liquidity).capacity = listed.capacity := rfl

theorem canUse_iff (channel : Channel) (amount : Msat) :
    channel.canUse amount ↔
      channel.minHtlc ≤ amount ∧ amount ≤ channel.maxHtlc ∧ amount ≤ channel.liquidity := by
  simp [canUse, and_assoc]

theorem toNat_fee (channel : Channel) (amount : Msat) :
    (channel.fee amount).toNat =
      min (channel.baseFee.toNat + channel.feePerMillionth.toNat * amount.toNat / 1000000)
        0xffffffffffffffff := by
  rw [fee, UInt64.toNat_satAdd, UInt64.toNat_clamp]
  omega

end Channel

end Rebalancing
