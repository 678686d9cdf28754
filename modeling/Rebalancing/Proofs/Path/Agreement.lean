import Rebalancing.Proofs.Path.Sound
import Rebalancing.Proofs.Route.Edits

/-!
# The route over a path

What a hop has to carry is derived twice: by the search, when it settles the label behind
the hop, and by the route that is made of the hops, from the last one backward.  The two
agree, since every hop on a path was recorded from the label that the rest of the path was
read off from.  What the search counts for the source is the fee of that route and the fee
of its first channel, which a payer does not pay, as long as no amount reaches the greatest
word.
-/

namespace Rebalancing

open Std

namespace Query

variable {query : Query} {graph : Graph} {node : NodeId} {channel : Channel}
  {channels rest : List Channel} {hops : List Hop}

/-- The route of a query over hops that lead to its destination, as they are. -/
def routeOver (query : Query) (hops : List Hop) : Route where
  source := query.source
  destination := query.destination
  amount := query.amount
  finalDelay := 0
  hops

/-- What is promised of the route that is made of the hops a search answers with, the cost of the
source being `cost`. -/
structure Agrees (query : Query) (hops : List Hop) (cost : UInt64) : Prop where
  /-- Every hop is derived again as it was recorded, and the final delay is zero. -/
  derived : Route.ofHops query.source query.destination query.amount hops = query.routeOver hops
  contiguous : (query.routeOver hops).isContiguous
  /-- The cost is made up of the fees, unless what is sent saturates. -/
  cost_eq : ∃ first, hops.head? = some first ∧
    (cost.toNat = (query.routeOver hops).fee.toNat + (first.channel.fee first.amount).toNat ↔
      query.amount.toNat + Hop.feeSum hops.tail ≤ 0xffffffffffffffff)

/-- A route over the hops of a way derives them as they are. -/
theorem IsWay.ofHops_hopsOver (way : query.IsWay graph node channels)
    (ends : node ≠ query.destination) :
    Route.ofHops query.source query.destination query.amount (query.hopsOver channels) =
      query.routeOver (query.hopsOver channels) := by
  have nonempty : channels ≠ [] := by
    rintro rfl
    exact ends (by simpa [Route.connects] using way.connects)
  obtain ⟨last, hlast, -, -, hdelay⟩ := getLast?_hopsOver way.connects nonempty
  have final : ((query.hopsOver channels).getLast?.map (·.delay)).getD 0 = 0 := by
    simp [hlast, hdelay]
  simp only [Route.ofHops, final, Route.settle, Route.channels, map_channel_hopsOver]
  rfl

/-- The hops of a query over some channels are what deriving them again leads to. -/
theorem isSettled_routeOver (query : Query) (channels : List Channel) :
    (query.routeOver (query.hopsOver channels)).IsSettled := by
  rw [Route.IsSettled, Route.channels, routeOver, map_channel_hopsOver]
  rfl

/-- The route over a way agrees with the price of the way. -/
theorem IsWay.agrees {cost : UInt64} (way : query.IsWay graph query.source channels)
    (ends : query.source ≠ query.destination)
    (price : Hop.feeSum (query.hopsOver channels) = cost.toNat) :
    query.Agrees (query.hopsOver channels) cost := by
  refine ⟨way.ofHops_hopsOver ends, way.connects, ?_⟩
  cases channels with
  | nil => exact absurd (by simpa [Route.connects] using way.connects) ends
  | cons channel rest =>
    refine ⟨⟨channel, (query.carried rest).1, (query.carried rest).2⟩, rfl, ?_⟩
    have hamount := query.amount.toNat_lt
    have hfee := (query.isSettled_routeOver (channel :: rest)).toNat_fee
    simp only [routeOver, hopsOver_cons, List.tail_cons] at hfee
    rw [← price, routeOver, hopsOver_cons, hfee, Hop.feeSum_cons, List.tail_cons]
    omega

end Query

namespace Search

/-- What a search arrives with agrees with the route that is made of it. -/
theorem Reaches.exists_agrees {graph : Graph} {query : Query} {settled : List Label}
    {search : Search} {visit : Visit} {rest : List Visit}
    (h : Reaches graph query settled search visit rest) (indexed : graph.IsIndexed)
    (ends : query.source ≠ query.destination) :
    ∃ hops, (search.arrival query visit rest).path? query = some hops ∧
      query.Agrees hops visit.cost := by
  obtain ⟨channels, way, price, hpath⟩ := h.exists_way indexed
  exact ⟨_, hpath, way.agrees ends price⟩

end Search

namespace Graph

variable {graph : Graph} {query : Query}

/-- **Agreement.**  In an indexed graph the route over the path that is found has the hops of the path,
each with the amount and the delay that the search recorded, and its fees make up the cost that the
search settled for the source.  The same is so of any other order among visits of equal cost. -/
theorem findRoute_agrees (indexed : graph.IsIndexed) (query : Query) :
    (∀ hops, graph.findPath query = .ok hops →
      graph.findRoute query = .ok (query.routeOver hops) ∧
      ∃ arrival, Search.run graph query (Search.fuel graph query) (Search.start query) =
          some arrival ∧
        arrival.path? query = some hops ∧ query.Agrees hops arrival.cost) ∧
    (graph.findRoute query).map (·.hops) = graph.findPath query ∧
    ∀ settled search visit rest, query.source ≠ query.destination →
      Search.Reaches graph query settled search visit rest →
        ∃ hops, (search.arrival query visit rest).path? query = some hops ∧
          query.Agrees hops visit.cost := by
  have found : ∀ hops, graph.findPath query = .ok hops →
      graph.findRoute query = .ok (query.routeOver hops) ∧
      ∃ arrival, Search.run graph query (Search.fuel graph query) (Search.start query) =
          some arrival ∧
        arrival.path? query = some hops ∧ query.Agrees hops arrival.cost := by
    intro hops found
    obtain ⟨ends, settled, search, visit, rest, reaches, hrun, hpath⟩ :=
      exists_arrival_of_findPath_eq_ok found
    obtain ⟨hops', hpath', agrees⟩ := reaches.exists_agrees indexed ends
    obtain rfl : hops' = hops := Option.some.inj (hpath'.symm.trans hpath)
    refine ⟨?_, _, hrun, hpath, agrees⟩
    rw [findRoute, found, ← agrees.derived]
    rfl
  refine ⟨found, ?_, fun _ _ _ _ ends reaches => reaches.exists_agrees indexed ends⟩
  cases hpath : graph.findPath query with
  | error error =>
    rw [findRoute, hpath]
    rfl
  | ok hops =>
    rw [(found hops hpath).1]
    rfl

/-- The route over the cheapest path through the diamond. -/
theorem findRoute_diamond_agrees :
    diamond.findRoute diamondQuery = .ok (diamondQuery.routeOver (diamondQuery.hopsOver
      [diamondChannel 3 "A" "C" 100, diamondChannel 7 "C" "D" 2000])) ∧
    ∃ arrival, Search.run diamond diamondQuery (Search.fuel diamond diamondQuery)
        (Search.start diamondQuery) = some arrival ∧
      arrival.path? diamondQuery = some (diamondQuery.hopsOver
        [diamondChannel 3 "A" "C" 100, diamondChannel 7 "C" "D" 2000]) ∧
      diamondQuery.Agrees (diamondQuery.hopsOver
        [diamondChannel 3 "A" "C" 100, diamondChannel 7 "C" "D" 2000]) arrival.cost := by
  have found : diamond.findPath diamondQuery = .ok (diamondQuery.hopsOver
      [diamondChannel 3 "A" "C" 100, diamondChannel 7 "C" "D" 2000]) := by decide +kernel
  exact (findRoute_agrees diamond_isIndexed diamondQuery).1 _ found

end Graph

end Rebalancing
