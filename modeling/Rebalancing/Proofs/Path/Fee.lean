import Rebalancing.Proofs.Path.Agreement

/-!
# The fee of the cheapest path

A search minds the fees of all channels, the fee of a route leaves out that of the first: the
payer owns that channel and charges itself nothing.  So the route over the path found is the
cheapest by the first count, but not always by the second.  `Query.IsCheapest` says how far
the two counts may differ, and a small network with a dear first channel shows that they do.
-/

namespace Rebalancing

open Std

namespace Route

/-- What the first channel would charge a payer who did not own it. -/
def firstFee (route : Route) : Msat :=
  (route.hops.head?.map fun hop => hop.channel.fee hop.amount).getD 0

variable {route : Route} {amount : Msat} {delay delay' : UInt32} {channels : List Channel}

theorem feeSum_eq_firstFee_add (route : Route) :
    Hop.feeSum route.hops = route.firstFee.toNat + Hop.feeSum route.hops.tail := by
  unfold firstFee
  cases route.hops with
  | nil => rfl
  | cons => rfl

/-- Parallel hops that carry the same charge the same. -/
theorem Parallel.feeSum_eq {hops hops' : List Hop} (h : Parallel (· = ·) hops hops') :
    Hop.feeSum hops = Hop.feeSum hops' := by
  induction h with
  | nil => rfl
  | cons same _ ih =>
    obtain ⟨channel, amount⟩ := same
    rw [Hop.feeSum_cons, Hop.feeSum_cons, ih, channel, amount]

end Route

namespace Query

variable {query : Query} {graph : Graph} {route other : Route}

/-- A route that answers a query: its hops are derived from the amount asked for, and lead from the
source to the destination over stored channels that can bear them, within the limits. -/
structure Admits (query : Query) (graph : Graph) (route : Route) : Prop where
  source : route.source = query.source
  destination : route.destination = query.destination
  amount : route.amount = query.amount
  settled : route.IsSettled
  contiguous : route.isContiguous
  stored : ∀ hop ∈ route.hops, graph.Stores hop.channel
  usable : ∀ hop ∈ route.hops, hop.channel.canUse hop.amount
  permitted : ∀ hop ∈ route.hops, hop.channel.source ∉ query.excluded
  within : query.maxHops = 0 ∨ route.hops.length ≤ query.maxHops

/-- What is promised of the route over a path that is found. -/
structure IsCheapest (query : Query) (graph : Graph) (route : Route) : Prop where
  admitted : query.Admits graph route
  /-- Its channels charge the least, the first one included. -/
  least : ∀ other, query.Admits graph other → Hop.feeSum route.hops ≤ Hop.feeSum other.hops
  /-- A route that has a smaller fee has a dearer first channel, by no less than it saves. -/
  fee : ∀ other, query.Admits graph other → other.fee < route.fee →
    route.fee.toNat + route.firstFee.toNat ≤ other.fee.toNat + other.firstFee.toNat

/-- The route over a way answers the query. -/
theorem IsWay.admits {channels : List Channel} (way : query.IsWay graph query.source channels) :
    query.Admits graph (query.routeOver (query.hopsOver channels)) where
  source := rfl
  destination := rfl
  amount := rfl
  settled := query.isSettled_routeOver channels
  contiguous := way.connects
  stored hop mem := way.stored _ (channel_mem_of_mem_hopsOver mem)
  usable := way.usable
  permitted hop mem := way.permitted _ (channel_mem_of_mem_hopsOver mem)
  within := by
    rw [routeOver, length_hopsOver]
    exact way.within

/-- The hops of a route that answers a query are those over its channels, but for the delays. -/
theorem Admits.parallel (h : query.Admits graph route) :
    Route.Parallel (· = ·) route.hops (query.hopsOver route.channels) := by
  rw [show route.hops = _ from h.settled, h.amount]
  exact Route.parallel_chain_delay

/-- It goes over a way, unless its fees are no price. -/
theorem Admits.isWay (h : query.Admits graph route)
    (priced : Hop.feeSum route.hops < 0xffffffffffffffff) :
    query.IsWay graph query.source route.channels where
  stored := List.forall_mem_map.mpr h.stored
  connects := by
    have contiguous := h.contiguous
    rw [Route.isContiguous, h.source, h.destination] at contiguous
    rw [← contiguous]
    exact Route.connects_congr map_channel_hopsOver
  within := by
    rw [Route.channels, List.length_map]
    exact h.within
  permitted := List.forall_mem_map.mpr h.permitted
  usable hop mem := by
    obtain ⟨hop', mem', channel, amount⟩ := h.parallel.exists_mem mem
    rw [← channel, ← amount]
    exact h.usable hop' mem'
  priced := h.parallel.feeSum_eq ▸ priced

/-- If no route that answers a query charges less, none has a smaller fee without having a dearer
first channel. -/
theorem Admits.fee_add_firstFee_le (h : query.Admits graph route) (h' : query.Admits graph other)
    (le : Hop.feeSum route.hops ≤ Hop.feeSum other.hops) (smaller : other.fee < route.fee) :
    route.fee.toNat + route.firstFee.toNat ≤ other.fee.toNat + other.firstFee.toNat := by
  rw [route.feeSum_eq_firstFee_add, other.feeSum_eq_firstFee_add] at le
  rw [UInt64.lt_iff_toNat_lt] at smaller
  rw [h.settled.toNat_fee, h'.settled.toNat_fee, h.amount, h'.amount] at *
  omega

end Query

namespace Search

/-- The route over what a search arrives with is the cheapest. -/
theorem Reaches.isCheapest {graph : Graph} {query : Query} {settled : List Label}
    {search : Search} {visit : Visit} {rest : List Visit}
    (h : Reaches graph query settled search visit rest) (indexed : graph.IsIndexed)
    (ends : query.source ≠ query.destination)
    (least : ∀ channel, graph.Stores channel → channel.minHtlc ≤ query.amount) :
    ∃ hops, (search.arrival query visit rest).path? query = some hops ∧
      query.IsCheapest graph (Route.ofHops query.source query.destination query.amount hops) := by
  obtain ⟨channels, way, price, hpath⟩ := h.exists_way indexed
  refine ⟨_, hpath, ?_⟩
  rw [way.ofHops_hopsOver ends]
  have cheapest : ∀ other, query.Admits graph other →
      Hop.feeSum (query.hopsOver channels) ≤ Hop.feeSum other.hops := by
    intro other admits
    by_cases priced : Hop.feeSum other.hops < 0xffffffffffffffff
    · rw [price, admits.parallel.feeSum_eq]
      exact h.cost_le indexed least (admits.isWay priced)
    · exact Nat.le_of_lt (Nat.lt_of_lt_of_le way.priced (Nat.not_lt.mp priced))
  refine ⟨way.admits, cheapest, fun other admits => ?_⟩
  exact way.admits.fee_add_firstFee_le admits (cheapest other admits)

end Search

namespace Graph

variable {graph : Graph} {query : Query}

/-- **Fees.**  In an indexed graph whose channels all accept the amount asked for, no route that answers
a query charges less than the one found, if the first channel is counted; one that has a smaller fee
without it has a dearer first channel, by no less than it saves.  So is the route of any other order
among visits of equal cost. -/
theorem findRoute_isCheapest (indexed : graph.IsIndexed)
    (least : ∀ channel, graph.Stores channel → channel.minHtlc ≤ query.amount) :
    (∀ route, graph.findRoute query = .ok route → query.IsCheapest graph route) ∧
    ∀ settled search visit rest, query.source ≠ query.destination →
      Search.Reaches graph query settled search visit rest →
        ∃ hops, (search.arrival query visit rest).path? query = some hops ∧
          query.IsCheapest graph
            (Route.ofHops query.source query.destination query.amount hops) := by
  refine ⟨?_, fun _ _ _ _ ends reaches => reaches.isCheapest indexed ends least⟩
  intro route found
  cases hfound : graph.findPath query with
  | error error =>
    rw [findRoute, hfound] at found
    cases found
  | ok hops =>
    rw [findRoute, hfound] at found
    cases found
    obtain ⟨ends, _, _, _, _, reaches, -, hpath⟩ := exists_arrival_of_findPath_eq_ok hfound
    obtain ⟨hops', hpath', cheapest⟩ := reaches.isCheapest indexed ends least
    obtain rfl : hops' = hops := Option.some.inj (hpath'.symm.trans hpath)
    exact cheapest

/-! ### A dear first channel -/

/-- By `A` only the first channel charges, by `B` only the last one, and less. -/
def forkChannels : List Channel :=
  [diamondChannel 1 "S" "A" 1000, diamondChannel 2 "A" "D" 0, diamondChannel 3 "S" "B" 0,
    diamondChannel 4 "B" "D" 500]

def fork : Graph := empty.addAll forkChannels

def forkQuery : Query where
  source := ⟨"S"⟩
  destination := ⟨"D"⟩
  amount := 1000000

/-- The route by `A`, which has no fee. -/
def forkRoute : Route :=
  forkQuery.routeOver (forkQuery.hopsOver [diamondChannel 1 "S" "A" 1000, diamondChannel 2 "A" "D" 0])

theorem fork_isIndexed : fork.IsIndexed :=
  isIndexed_empty.addAll (by decide +kernel) (by decide +kernel)

theorem minHtlc_le_of_fork_stores {channel : Channel} (h : fork.Stores channel) :
    channel.minHtlc ≤ forkQuery.amount := by
  obtain ⟨scid, h⟩ := h
  have all : ∀ channel ∈ forkChannels, channel.minHtlc ≤ forkQuery.amount := by decide +kernel
  exact all channel (mem_of_channel?_empty_addAll h)

theorem forkRoute_admits : forkQuery.Admits fork forkRoute where
  source := rfl
  destination := rfl
  amount := rfl
  settled := by
    rw [Route.IsSettled]
    decide +kernel
  contiguous := by decide +kernel
  stored := by
    have all : ∀ hop ∈ forkRoute.hops,
        fork.channel? ⟨hop.channel.scid, hop.channel.direction⟩ = some hop.channel := by
      decide +kernel
    exact fun hop mem => ⟨_, all hop mem⟩
  usable := by decide +kernel
  permitted := by decide +kernel
  within := by decide +kernel

/-- The search goes by `B`, where 500 are charged, though nothing would be kept of a payment by `A`. -/
theorem findRoute_fork : fork.findRoute forkQuery = .ok (forkQuery.routeOver
    (forkQuery.hopsOver [diamondChannel 3 "S" "B" 0, diamondChannel 4 "B" "D" 500])) := by
  decide +kernel

/-- The route by `A` saves 500 and has a first channel that charges 1000 more. -/
theorem findRoute_fork_isCheapest : forkRoute.fee = 0 ∧ forkRoute.firstFee = 1000 ∧
    ∃ route, fork.findRoute forkQuery = .ok route ∧ route.fee = 500 ∧ route.firstFee = 0 ∧
      route.fee.toNat + route.firstFee.toNat ≤ forkRoute.fee.toNat + forkRoute.firstFee.toNat := by
  have cheapest := (findRoute_isCheapest fork_isIndexed fun _ => minHtlc_le_of_fork_stores).1 _
    findRoute_fork
  refine ⟨by decide +kernel, by decide +kernel, _, findRoute_fork, by decide +kernel,
    by decide +kernel, cheapest.fee _ forkRoute_admits (by decide +kernel)⟩

/-- So the route that is found need not have the smallest fee. -/
theorem fee_findRoute_not_least : ¬ ∀ (graph : Graph) (query : Query) (route other : Route),
    graph.IsIndexed → query.source ≠ query.destination → 0 < query.amount →
    (∀ channel, graph.Stores channel → channel.minHtlc ≤ query.amount) →
    graph.findRoute query = .ok route → query.Admits graph other → route.fee ≤ other.fee := by
  intro least
  have le := least fork forkQuery _ forkRoute fork_isIndexed (by decide) (by decide)
    (fun _ => minHtlc_le_of_fork_stores) findRoute_fork forkRoute_admits
  exact absurd le (by decide +kernel)

end Graph

end Rebalancing
