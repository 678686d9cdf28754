import Rebalancing.Channel.Basic

/-! # Routes

A route is a list of hops in payment order. The last hop delivers the route's amount with the final
delay; every earlier hop carries in addition the fee and the delay of the hop behind it. The payer
owns the first channel, so its fee is not part of the route's fee. -/

namespace Rebalancing

/-- One channel traversal. -/
structure Hop where
  channel : Channel
  /-- What the channel forwards. -/
  amount : Msat
  /-- The time lock that remains when the payment leaves over the channel. -/
  delay : UInt32
deriving DecidableEq

/-- What has to enter a hop for its amount and delay to come out. -/
def Hop.entering (hop : Hop) : Msat × UInt32 :=
  (hop.amount.satAdd (hop.channel.fee hop.amount), hop.delay.satAdd hop.channel.delay)

structure Route where
  source : NodeId
  destination : NodeId
  /-- What the destination receives. -/
  amount : Msat
  finalDelay : UInt32
  hops : List Hop
deriving DecidableEq

namespace Route

/-- What enters a list of hops, or the given amount and delay when there are none. -/
def entering (amount : Msat) (delay : UInt32) : List Hop → Msat × UInt32
  | [] => (amount, delay)
  | hop :: _ => hop.entering

/-- The hops over `channels` that deliver `amount` with `delay`. -/
def chain (amount : Msat) (delay : UInt32) : List Channel → List Hop
  | [] => []
  | channel :: rest =>
    let hops := chain amount delay rest
    let (amount, delay) := entering amount delay hops
    ⟨channel, amount, delay⟩ :: hops

def channels (route : Route) : List Channel := route.hops.map (·.channel)

/-- Derives every hop again, from the last one backward. -/
def settle (route : Route) : Route :=
  { route with hops := chain route.amount route.finalDelay route.channels }

/-- The route over the channels of `hops`. The final delay is that of the last hop. -/
def ofHops (source destination : NodeId) (amount : Msat) (hops : List Hop) : Route :=
  settle { source, destination, amount, finalDelay := (hops.getLast?.map (·.delay)).getD 0, hops }

/-- Puts a channel in front; its source becomes the payer. -/
def prepend (route : Route) (channel : Channel) : Route :=
  settle { route with source := channel.source, hops := ⟨channel, 0, 0⟩ :: route.hops }

/-- Adds a channel at the end; its destination becomes the payee. -/
def append (route : Route) (channel : Channel) : Route :=
  settle { route with destination := channel.destination, hops := route.hops ++ [⟨channel, 0, 0⟩] }

def withFinalDelay (route : Route) (delay : UInt32) : Route :=
  settle { route with finalDelay := delay }

/-- What the payer puts into the first hop. -/
def sent (route : Route) : Msat := (route.hops.head?.map (·.amount)).getD route.amount

/-- What the intermediate nodes keep. -/
def fee (route : Route) : Msat := route.sent.satSub route.amount

/-- The fee in millionths of the delivered amount, rounded down. -/
def feePpm (route : Route) : UInt64 :=
  if route.amount = 0 then 0 else .clamp (route.fee.toNat * 1000000 / route.amount.toNat)

/-- The longest time for which the payer's funds can be locked. -/
def totalDelay (route : Route) : UInt32 := (route.hops.head?.map (·.delay)).getD route.finalDelay

/-- What the node forwarding over the hop at `index` charges; the payer charges nothing. -/
def hopFee (route : Route) (index : Nat) : Msat :=
  if index = 0 then 0
  else ((route.hops[index]?).map fun hop => hop.channel.fee hop.amount).getD 0

/-- The nodes visited, payer first. -/
def nodes (route : Route) : List NodeId :=
  route.source :: route.hops.map (·.channel.destination)

/-- Whether hops lead from `node` to `destination`, each starting where the one before ended. -/
def connects (destination : NodeId) : NodeId → List Hop → Bool
  | node, [] => node = destination
  | node, hop :: rest => hop.channel.source = node && connects destination hop.channel.destination rest

def isContiguous (route : Route) : Bool := connects route.destination route.source route.hops

@[simp] theorem map_channel_chain (amount : Msat) (delay : UInt32) (channels : List Channel) :
    (chain amount delay channels).map (·.channel) = channels := by
  induction channels with
  | nil => rfl
  | cons channel rest ih => simp [chain, ih]

@[simp] theorem channels_settle (route : Route) : route.settle.channels = route.channels := by
  simp [settle, channels]

variable (route : Route) (channel : Channel) (delay : UInt32)

@[simp] theorem channels_prepend : (route.prepend channel).channels = channel :: route.channels :=
  channels_settle _

@[simp] theorem source_prepend : (route.prepend channel).source = channel.source := rfl

@[simp] theorem destination_prepend : (route.prepend channel).destination = route.destination := rfl

@[simp] theorem channels_append :
    (route.append channel).channels = route.channels ++ [channel] := by
  rw [append, channels_settle, channels, List.map_append]
  rfl

@[simp] theorem source_append : (route.append channel).source = route.source := rfl

@[simp] theorem destination_append : (route.append channel).destination = channel.destination := rfl

@[simp] theorem channels_withFinalDelay : (route.withFinalDelay delay).channels = route.channels :=
  channels_settle _

@[simp] theorem source_withFinalDelay : (route.withFinalDelay delay).source = route.source := rfl

@[simp] theorem destination_withFinalDelay :
    (route.withFinalDelay delay).destination = route.destination := rfl

@[simp] theorem channels_ofHops (source destination : NodeId) (amount : Msat) (hops : List Hop) :
    (ofHops source destination amount hops).channels = hops.map (·.channel) :=
  channels_settle _

end Route

end Rebalancing
