import Rebalancing.Proofs.Attempt.Safety

/-!
# What the hops of a payment can bear

The search has the hops between the peers deliver the amount of a request, and only
then the incoming channel is put behind them.  What it charges for arriving is added to
every amount in front of it.  The outgoing channel is checked again for what it carries
in the end; the hops between the peers and the incoming channel are not.
-/

namespace Rebalancing

namespace Rebalancer

variable {engine : Rebalancer} {request : RebalanceRequest} {elapsed : Nat → Nat}
  {outgoing incoming : Channel} {interior : Route} {attempts : Nat}

/-- What the hops of a payment for a request are known to bear. -/
structure Bears (request : RebalanceRequest) (route : Route) (first : Hop) (between : List Hop)
    (last : Hop) : Prop where
  hops : route.hops = first :: (between ++ [last])
  leaving : first.channel.canUse first.amount
  /-- The hops between the peers can bear what it takes for them to deliver the amount. -/
  searched : ∀ hop ∈ Route.chain request.amount 0 (between.map (·.channel)),
    hop.channel.canUse hop.amount
  /-- They carry what it takes to deliver, on top of that, what the incoming channel charges. -/
  carried : Route.Parallel (· = ·)
    (Route.chain (request.amount.satAdd (last.channel.fee request.amount)) 0
      (between.map (·.channel))) between
  /-- That is no less. -/
  raised : Route.Parallel (· ≤ ·)
    (Route.chain request.amount 0 (between.map (·.channel))) between
  /-- So none of them carries less than its minimum. -/
  least : ∀ hop ∈ between, hop.channel.minHtlc ≤ hop.amount
  /-- The incoming channel carries the amount itself. -/
  delivers : last.amount = request.amount
  /-- If it charges nothing, they can bear what they carry. -/
  free : last.channel.fee request.amount = 0 → ∀ hop ∈ between, hop.channel.canUse hop.amount

/-- The hops of an approved circle. -/
theorem Approves.bears (h : engine.Approves request elapsed outgoing incoming interior attempts)
    (indexed : engine.graph.IsIndexed) :
    Bears request (engine.circle outgoing incoming interior)
      (engine.leaving outgoing incoming interior) (engine.passing incoming interior)
      (engine.arriving incoming interior) := by
  obtain ⟨amount, limit, -, way⟩ := h.sought.isWay indexed (ownChannels_eq_ok.mp h.own).1
  have searched : ∀ hop ∈ Route.chain request.amount 0 interior.channels,
      hop.channel.canUse hop.amount := way.usable
  have entering : (engine.arriving incoming interior).entering.1 =
      request.amount.satAdd (incoming.fee request.amount) := by
    rw [← amount]
    rfl
  have carried : Route.Parallel (· = ·)
      (Route.chain (request.amount.satAdd (incoming.fee request.amount)) 0 interior.channels)
      (engine.passing incoming interior) := by
    rw [passing, entering]
    exact Route.parallel_chain_delay
  have raised : Route.Parallel (· ≤ ·) (Route.chain request.amount 0 interior.channels)
      (engine.passing incoming interior) := by
    apply Route.parallel_chain_of_le
    rw [entering]
    exact UInt64.le_satAdd _ _
  refine ⟨hops_circle, ?_, ?_, ?_, ?_, ?_, amount, ?_⟩
  · rw [← sent_circle]
    exact h.bearable
  · rw [map_channel_passing]
    exact searched
  · rw [map_channel_passing]
    exact carried
  · rw [map_channel_passing]
    exact raised
  · intro hop mem
    obtain ⟨before, hbefore, hchannel, hle⟩ := raised.exists_mem mem
    have husable := (Channel.canUse_iff _ _).mp (searched before hbefore)
    rw [← hchannel]
    exact UInt64.le_trans husable.1 hle
  · intro hfee hop mem
    have hfee : incoming.fee request.amount = 0 := hfee
    rw [hfee, UInt64.satAdd_zero] at carried
    obtain ⟨before, hbefore, hchannel, hamount⟩ := carried.exists_mem mem
    rw [← hchannel, ← hamount]
    exact searched before hbefore

/-- The outgoing channel of every payment can bear what it carries.  The hops between the peers can
bear what the search had them carry, and carry no less; what the incoming channel charges on top of
that is not checked, and neither is the incoming channel itself. -/
theorem payments_run_bear (indexed : engine.graph.IsIndexed) (request : RebalanceRequest)
    (payer : Payer) (secret : PaymentSecret) (elapsed : Nat → Nat) :
    ∀ payment ∈ (engine.run request payer secret elapsed).2.payments,
      ∃ first between last, Bears request payment.route first between last := by
  intro payment mem
  obtain ⟨outgoing, incoming, interior, attempts, approves, rfl⟩ :=
    (engine.run_ends request payer secret elapsed).approves mem
  exact ⟨_, _, _, approves.bears indexed⟩

/-- One payment is made around the triangle, and its hops bear as much. -/
theorem payments_run_triangle_bear :
    ∃ payment,
      (triangle.run triangleRequest reveal triangleSecret fun _ => 0).2.payments = [payment] ∧
      ∃ first between last, Bears triangleRequest payment.route first between last := by
  have single : (triangle.run triangleRequest reveal triangleSecret fun _ => 0).2.payments.length =
      1 := by decide +kernel
  obtain ⟨payment, hpayments⟩ := List.length_eq_one_iff.mp single
  refine ⟨payment, hpayments, ?_⟩
  apply payments_run_bear triangle_isIndexed triangleRequest reveal triangleSecret fun _ => 0
  rw [hpayments]
  exact List.mem_singleton_self payment

/-- More is not known of a payment.  The channel from `X` to `Y` can send the amount that is moved
around the triangle, but not what the channel from `Y` charges on top of it; and that one can send
nothing at all. -/
theorem triangle_not_feasible : triangle.graph.IsIndexed ∧ triangle.graph.IsLoopFree ∧
    ∃ payment,
      (triangle.run triangleRequest reveal triangleSecret fun _ => 0).2.payments = [payment] ∧
      payment.route.hops.map (fun hop => hop.channel.canUse hop.amount) = [true, false, false] := by
  refine ⟨triangle_isIndexed, triangle_isLoopFree, ?_⟩
  have usable : (triangle.run triangleRequest reveal triangleSecret fun _ => 0).2.payments.map
      (fun payment => payment.route.hops.map fun hop => hop.channel.canUse hop.amount) =
        [[true, false, false]] := by decide +kernel
  obtain ⟨payment, hpayments, husable⟩ := List.map_eq_singleton_iff.mp usable
  exact ⟨payment, hpayments, husable⟩

end Rebalancer

end Rebalancing
