import Rebalancing.Path.Search
import Rebalancing.Proofs.Graph.Index
import Rebalancing.Proofs.Route.Chain

/-!
# Ways to a destination

A way is what a path search chooses from: stored channels that lead from a node to
the destination of a query, within its hop limit and past its excluded nodes, each
able to bear the amount that the rest of the way asks for.  What a channel has to
bear depends on the channels behind it alone, so every tail of a way is a way.

The fees of a way are summed exactly.  The words of a search saturate, so a sum
counts as a price only while it stays below the greatest word.
-/

namespace Rebalancing

open Std

namespace Query

variable {query : Query} {graph : Graph} {node : NodeId} {channel : Channel}
  {channels rest : List Channel}

/-- The hops over `channels` that deliver the amount of a query. -/
def hopsOver (query : Query) (channels : List Channel) : List Hop :=
  Route.chain query.amount 0 channels

/-- What has to enter `channels` for the amount of a query to come out, with its delay. -/
def carried (query : Query) (channels : List Channel) : Msat × UInt32 :=
  Route.entering query.amount 0 (query.hopsOver channels)

@[simp] theorem hopsOver_nil : query.hopsOver [] = [] := rfl

@[simp] theorem hopsOver_cons : query.hopsOver (channel :: rest) =
    ⟨channel, (query.carried rest).1, (query.carried rest).2⟩ :: query.hopsOver rest := rfl

@[simp] theorem map_channel_hopsOver : (query.hopsOver channels).map (·.channel) = channels :=
  Route.map_channel_chain query.amount 0 channels

@[simp] theorem length_hopsOver : (query.hopsOver channels).length = channels.length := by
  rw [← List.length_map (f := fun hop : Hop => hop.channel), map_channel_hopsOver]

/-- A route over the hops of a query goes over their channels. -/
theorem channels_ofHops_hopsOver (source destination : NodeId) (amount : Msat) :
    (Route.ofHops source destination amount (query.hopsOver channels)).channels = channels := by
  rw [Route.channels_ofHops, map_channel_hopsOver]

theorem carried_cons : query.carried (channel :: rest) =
    ((query.carried rest).1.satAdd (channel.fee (query.carried rest).1),
      (query.carried rest).2.satAdd channel.delay) := rfl

@[simp] theorem feeSum_hopsOver_cons : Hop.feeSum (query.hopsOver (channel :: rest)) =
    (channel.fee (query.carried rest).1).toNat + Hop.feeSum (query.hopsOver rest) := rfl

/-- What enters is the amount and all fees, up to the greatest word. -/
theorem toNat_carried : (query.carried channels).1.toNat =
    min (query.amount.toNat + Hop.feeSum (query.hopsOver channels)) 0xffffffffffffffff :=
  Route.toNat_entering_chain

/-- Stored channels that lead from `node` to the destination of a query, and that a payment may
take. -/
structure IsWay (query : Query) (graph : Graph) (node : NodeId) (channels : List Channel) :
    Prop where
  stored : ∀ channel ∈ channels, graph.Stores channel
  connects : Route.connects query.destination node (query.hopsOver channels)
  within : query.maxHops = 0 ∨ channels.length ≤ query.maxHops
  permitted : ∀ channel ∈ channels, channel.source ∉ query.excluded
  usable : ∀ hop ∈ query.hopsOver channels, hop.channel.canUse hop.amount
  priced : Hop.feeSum (query.hopsOver channels) < 0xffffffffffffffff

/-- The empty way leads from the destination to itself. -/
theorem isWay_nil : query.IsWay graph query.destination [] where
  stored := by simp
  connects := by simp [Route.connects]
  within := .inr (Nat.zero_le _)
  permitted := by simp
  usable := by simp
  priced := by simp

/-- A way and a channel in front of it. -/
theorem isWay_cons : query.IsWay graph node (channel :: rest) ↔
    query.IsWay graph channel.destination rest ∧ graph.Stores channel ∧ channel.source = node ∧
      (query.maxHops = 0 ∨ rest.length + 1 ≤ query.maxHops) ∧
      channel.source ∉ query.excluded ∧ channel.canUse (query.carried rest).1 ∧
      Hop.feeSum (query.hopsOver rest) + (channel.fee (query.carried rest).1).toNat <
        0xffffffffffffffff := by
  constructor
  · rintro ⟨stored, connects, within, permitted, usable, priced⟩
    rw [feeSum_hopsOver_cons] at priced
    simp only [List.forall_mem_cons, hopsOver_cons, Route.connects, Bool.and_eq_true,
      decide_eq_true_eq, List.length_cons] at stored connects within permitted usable
    exact ⟨⟨stored.2, connects.2, by omega, permitted.2, usable.2, by omega⟩, stored.1, connects.1,
      within, permitted.1, usable.1, by omega⟩
  · rintro ⟨way, stored, starts, within, permitted, usable, priced⟩
    refine ⟨?_, ?_, within, ?_, ?_, ?_⟩
    · exact List.forall_mem_cons.mpr ⟨stored, way.stored⟩
    · simp only [hopsOver_cons, Route.connects, Bool.and_eq_true, decide_eq_true_eq]
      exact ⟨starts, way.connects⟩
    · exact List.forall_mem_cons.mpr ⟨permitted, way.permitted⟩
    · exact List.forall_mem_cons.mpr ⟨usable, way.usable⟩
    · rw [feeSum_hopsOver_cons]
      omega

/-! ## Ways that a search does not see -/

/-- A way is shadowed if, at one of its channels, a cheaper way behind that channel asks for less than
the channel accepts. -/
def IsShadowed (query : Query) (graph : Graph) (channels : List Channel) : Prop :=
  ∃ front channel rest cheaper, channels = front ++ channel :: rest ∧
    query.IsWay graph channel.destination cheaper ∧
    (query.maxHops = 0 ∨ cheaper.length ≤ rest.length) ∧
    Hop.feeSum (query.hopsOver cheaper) < Hop.feeSum (query.hopsOver rest) ∧
    (query.carried cheaper).1 < channel.minHtlc

/-- The amount asked for is the least that any way asks for. -/
theorem amount_le_carried : query.amount ≤ (query.carried channels).1 := by
  have := query.amount.toNat_lt
  rw [UInt64.le_iff_toNat_le, toNat_carried]
  omega

theorem IsShadowed.cons (h : query.IsShadowed graph rest) :
    query.IsShadowed graph (channel :: rest) := by
  obtain ⟨front, at', behind, cheaper, rfl, h⟩ := h
  exact ⟨channel :: front, at', behind, cheaper, rfl, h⟩

/-- Only a channel that does not accept the amount asked for makes a way be shadowed. -/
theorem IsShadowed.exists_lt_minHtlc (h : query.IsShadowed graph channels) :
    ∃ channel ∈ channels, query.amount < channel.minHtlc := by
  obtain ⟨front, channel, rest, cheaper, rfl, -, -, -, least⟩ := h
  refine ⟨channel, List.mem_append_right _ List.mem_cons_self, ?_⟩
  exact UInt64.lt_of_le_of_lt amount_le_carried least

/-- A way that asks for less is cheaper. -/
theorem feeSum_lt_of_carried_lt {cheaper : List Channel}
    (h : (query.carried cheaper).1 < (query.carried channels).1) :
    Hop.feeSum (query.hopsOver cheaper) < Hop.feeSum (query.hopsOver channels) := by
  rw [UInt64.lt_iff_toNat_lt, toNat_carried, toNat_carried] at h
  omega

/-- The first channel of a way accepts what the rest asks for. -/
theorem IsWay.minHtlc_le (way : query.IsWay graph node (channel :: rest)) :
    channel.minHtlc ≤ (query.carried rest).1 := by
  obtain ⟨-, -, -, -, -, usable, -⟩ := isWay_cons.mp way
  exact ((channel.canUse_iff _).mp usable).1

/-- A way is shadowed at its first channel if another way from its end asks for too little. -/
theorem IsWay.isShadowed {cheaper : List Channel} (way : query.IsWay graph node (channel :: rest))
    (other : query.IsWay graph channel.destination cheaper)
    (within : query.maxHops = 0 ∨ cheaper.length ≤ rest.length)
    (least : (query.carried cheaper).1 < channel.minHtlc) :
    query.IsShadowed graph (channel :: rest) := by
  have lower := feeSum_lt_of_carried_lt (UInt64.lt_of_lt_of_le least way.minHtlc_le)
  exact ⟨[], channel, rest, cheaper, rfl, other, within, lower, least⟩

/-! ## The channels in front of a node -/

/-- The channels that a path may be extended by, read off the inbound index. -/
theorem mem_edges {peer : NodeId} : (peer, channel) ∈ query.edges graph node ↔
    peer ∉ query.excluded ∧ peer ≠ query.destination ∧
      ∃ scid ∈ graph.inbound.edge node peer,
        graph.channel? ⟨scid, .between peer node⟩ = some channel := by
  unfold edges
  simp only [List.mem_flatMap, Prod.exists, ExtTreeMap.mem_toList_iff_getElem?_eq_some]
  constructor
  · rintro ⟨peer', edge, found, h⟩
    split at h
    next => cases h
    next allowed =>
      simp only [List.mem_filterMap, ExtTreeSet.mem_toList, Option.map_eq_some_iff,
        Prod.mk.injEq] at h
      obtain ⟨scid, hscid, channel', hchannel, rfl, rfl⟩ := h
      simp only [Bool.or_eq_true, decide_eq_true_eq, not_or, ExtTreeSet.contains_iff_mem] at allowed
      refine ⟨allowed.1, allowed.2, scid, ?_, hchannel⟩
      rw [Links.edge, ExtTreeMap.getD_eq_getD_getElem?, found]
      exact hscid
  · rintro ⟨hexcluded, hdestination, scid, hscid, hchannel⟩
    rw [Links.edge, ExtTreeMap.getD_eq_getD_getElem?] at hscid
    cases found : (graph.inbound.getD node ∅)[peer]? with
    | none =>
      rw [found] at hscid
      simp at hscid
    | some edge =>
      rw [found] at hscid
      refine ⟨peer, edge, found, ?_⟩
      rw [if_neg (by simp [hexcluded, hdestination])]
      simp only [List.mem_filterMap, ExtTreeSet.mem_toList, Option.map_eq_some_iff, Prod.mk.injEq]
      exact ⟨scid, hscid, channel, hchannel, trivial, rfl⟩

/-- In an indexed graph these are the stored channels into the node. -/
theorem mem_edges_iff (indexed : graph.IsIndexed) {peer : NodeId} :
    (peer, channel) ∈ query.edges graph node ↔
      graph.Stores channel ∧ channel.source = peer ∧ channel.destination = node ∧
        peer ∉ query.excluded ∧ peer ≠ query.destination := by
  rw [mem_edges]
  constructor
  · rintro ⟨hexcluded, hdestination, scid, hscid, hchannel⟩
    rw [indexed.mem_inbound] at hscid
    obtain ⟨joining, hjoining, hsource, hdest⟩ := hscid
    cases hchannel.symm.trans hjoining
    subst hsource hdest
    exact ⟨⟨scid, hchannel⟩, rfl, rfl, hexcluded, hdestination⟩
  · rintro ⟨⟨scid, hchannel⟩, rfl, rfl, hexcluded, hdestination⟩
    refine ⟨hexcluded, hdestination, scid, ?_, hchannel⟩
    rw [indexed.mem_inbound]
    exact ⟨channel, hchannel, rfl, rfl⟩

end Query

end Rebalancing
