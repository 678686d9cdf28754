import Rebalancing.Proofs.Attempt.Circle

/-!
# Payment safety

In an indexed graph without loops an attempt makes at most one payment, and it makes one
exactly when it reports a success, a payment of unknown outcome or one that failed.  What
is paid is a circle that `Rebalancer.Serves` the request: it leaves over the outgoing
channel, arrives over the incoming one, does not come by the payer in between, delivers
the amount asked for and is cheap enough.
-/

namespace Rebalancing

namespace Rebalancer

variable {engine : Rebalancer} {request : RebalanceRequest} {elapsed : Nat → Nat}
  {outgoing incoming : Channel} {interior : Route} {attempts : Nat}

/-- What a route that is paid for a request looks like: its first hop, those between the peers, and
its last. -/
structure Serves (engine : Rebalancer) (request : RebalanceRequest) (route : Route) (first : Hop)
    (between : List Hop) (last : Hop) : Prop where
  hops : route.hops = first :: (between ++ [last])
  source : route.source = engine.self
  destination : route.destination = engine.self
  contiguous : route.isContiguous
  outgoing : ∃ direction,
    engine.graph.channel? ⟨request.outgoing, direction⟩ = some first.channel
  leaves : first.channel.source = engine.self
  incoming : ∃ direction,
    engine.graph.channel? ⟨request.incoming, direction⟩ = some last.channel
  arrives : last.channel.destination = engine.self
  /-- No node strictly between the ends is the payer. -/
  avoids : ∀ node ∈ route.nodes.tail.dropLast, node ≠ engine.self
  amount : route.amount = request.amount
  delivers : last.amount = request.amount
  delay : last.delay = engine.tuning.finalDelay
  cheap : route.feePpm ≤ request.maxPpm
  bearable : first.channel.canUse first.amount
  /-- A request that sets a hop limit has a limited number of hops between the peers. -/
  limited : request.initialMaxHops ≠ 0 →
    between.length ≤ max engine.tuning.maxHopsCeiling.toNat request.initialMaxHops.toNat

/-- An approved circle serves the request. -/
theorem Approves.serves (h : engine.Approves request elapsed outgoing incoming interior attempts)
    (indexed : engine.graph.IsIndexed) (loopFree : engine.graph.IsLoopFree) :
    engine.Serves request (engine.circle outgoing incoming interior)
      (engine.leaving outgoing incoming interior) (engine.passing incoming interior)
      (engine.arriving incoming interior) := by
  obtain ⟨positive, -, hout, hin⟩ := ownChannels_eq_ok.mp h.own
  obtain ⟨storedOut, leaves⟩ := Graph.stored_of_outgoing? hout
  obtain ⟨storedIn, arrives⟩ := Graph.stored_of_incoming? hin
  obtain ⟨amount, limit, hlimit, way⟩ := h.sought.isWay indexed positive
  have connects : Route.connects incoming.source outgoing.destination
      (engine.passing incoming interior) := by
    rw [← way.connects]
    apply Route.connects_congr
    rw [map_channel_passing, Query.hopsOver, Route.map_channel_chain]
  refine ⟨hops_circle, leaves, arrives, isContiguous_circle connects, storedOut, leaves, storedIn,
    arrives, ?_, amount, amount, rfl, h.cheap, ?_, ?_⟩
  · intro node mem hself
    rw [nodes_circle] at mem
    rcases Route.eq_or_mem_source_of_connects connects mem with rfl | ⟨hop, hhop, rfl⟩
    · obtain ⟨direction, stored⟩ := storedIn
      exact loopFree _ _ stored (hself.trans arrives.symm)
    · have hchannel : hop.channel ∈ interior.channels := by
        rw [← map_channel_passing engine incoming interior]
        exact List.mem_map_of_mem hhop
      apply way.permitted _ hchannel
      show hop.channel.source ∈ (∅ : Std.ExtTreeSet NodeId).insert engine.self
      rw [hself]
      exact Std.ExtTreeSet.mem_insert_self
  · rw [← sent_circle]
    exact h.bearable
  · intro initial
    obtain ⟨hne, hle⟩ := hlimit initial
    rw [length_passing, ← toNat_ceiling]
    rcases way.within with hzero | hlength
    · have hzero : limit.toNat = (0 : UInt64).toNat := hzero
      exact absurd (UInt64.toNat_inj.mp hzero) hne
    · exact Nat.le_trans hlength (UInt64.le_iff_toNat_le.mp hle)

/-- **Payment safety.**  At most one payment is made, exactly if the attempt succeeds or fails like
a payment; its route serves the request; and a success reports the route that was paid for. -/
theorem payments_run_safe (indexed : engine.graph.IsIndexed) (loopFree : engine.graph.IsLoopFree)
    (request : RebalanceRequest) (payer : Payer) (secret : PaymentSecret) (elapsed : Nat → Nat) :
    let ending := engine.run request payer secret elapsed
    ending.2.payments.length ≤ 1 ∧
    (ending.2.payments ≠ [] ↔ (∃ outcome, ending.1 = .ok outcome) ∨
      ending.1 = .error .paymentTimeout ∨ ending.1 = .error .temporaryFailure) ∧
    (∀ payment ∈ ending.2.payments,
      ∃ first between last, engine.Serves request payment.route first between last) ∧
    ∀ outcome, ending.1 = .ok outcome → ending.2.payments.map (·.route) = [outcome.route] := by
  have ends := engine.run_ends request payer secret elapsed
  refine ⟨ends.length_payments_le_one, ends.payments_ne_nil_iff, ?_,
    fun _ => ends.map_route_payments⟩
  intro payment mem
  obtain ⟨outgoing, incoming, interior, attempts, approves, rfl⟩ := ends.approves mem
  exact ⟨_, _, _, approves.serves indexed loopFree⟩

/-! ### A triangle -/

/-- A channel of the triangle, which charges a flat fee. -/
def triangleChannel (block : UInt32) (source destination : String) (liquidity baseFee : Msat) :
    Channel where
  scid := .ofParts block 0 0
  source := ⟨source⟩
  destination := ⟨destination⟩
  capacity := 100000000
  liquidity
  baseFee
  feePerMillionth := 0
  minHtlc := 1
  maxHtlc := 100000000
  delay := 10
  active := true
  lastUpdate := 0

/-- From the payer `S` to its peer `X`, on to its peer `Y`, and back. -/
def triangleChannels : List Channel :=
  [triangleChannel 1 "S" "X" 50000000 0, triangleChannel 2 "X" "Y" 1000000 500,
    triangleChannel 3 "Y" "S" 0 1000]

def triangle : Rebalancer where
  graph := Graph.empty.addAll triangleChannels
  self := ⟨"S"⟩

/-- All that the channel from `X` to `Y` can send is moved around the triangle. -/
def triangleRequest : RebalanceRequest where
  outgoing := .ofParts 1 0 0
  incoming := .ofParts 3 0 0
  amount := 1000000
  maxPpm := 2000
  initialMaxHops := 1

theorem triangle_isIndexed : triangle.graph.IsIndexed :=
  Graph.isIndexed_empty.addAll (by decide +kernel) (by decide +kernel)

theorem triangle_isLoopFree : triangle.graph.IsLoopFree := by
  intro id channel h
  have all : ∀ channel ∈ triangleChannels, channel.source ≠ channel.destination := by
    decide +kernel
  exact all channel (Graph.mem_of_channel?_empty_addAll h)

/-- A payment that settles reveals its secret. -/
def reveal : Payer := fun payment => .ok payment.secret.preimage

def triangleSecret : PaymentSecret := .ofPreimage ⟨.replicate 32 90⟩

/-- One payment is made around the triangle, and it serves the request. -/
theorem payments_run_triangle_safe :
    ∃ payment,
      (triangle.run triangleRequest reveal triangleSecret fun _ => 0).2.payments = [payment] ∧
      payment.route.hops.map (·.amount) = [1001500, 1001000, 1000000] ∧
      ∃ first between last, triangle.Serves triangleRequest payment.route first between last := by
  have amounts : (triangle.run triangleRequest reveal triangleSecret fun _ => 0).2.payments.map
      (fun payment => payment.route.hops.map (·.amount)) = [[1001500, 1001000, 1000000]] := by
    decide +kernel
  obtain ⟨payment, hpayments, hamounts⟩ := List.map_eq_singleton_iff.mp amounts
  refine ⟨payment, hpayments, hamounts, ?_⟩
  apply (payments_run_safe triangle_isIndexed triangle_isLoopFree triangleRequest reveal
    triangleSecret fun _ => 0).2.2.1
  rw [hpayments]
  exact List.mem_singleton_self payment

end Rebalancer

end Rebalancing
