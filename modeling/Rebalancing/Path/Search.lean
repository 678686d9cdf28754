import Rebalancing.Path.Query

/-! # Path search

The search runs backward from the destination, since the amount that a node has to forward is known
only once the rest of the path is fixed. It keeps, for every label, the least fee found so far and
the hop that achieves it, and settles visits in the order of their cost. Which of several visits of
equal cost is settled first is left to `Visit.takeCheapest`; the step itself works for any choice. -/

namespace Rebalancing

open Std

/-- A node, searched at a number of hops from the destination. -/
structure Label where
  node : NodeId
  layer : Nat
deriving DecidableEq

namespace Label

instance : Ord Label := ⟨compareLex (compareOn node) (compareOn layer)⟩
instance : TransOrd Label := inferInstanceAs (TransCmp (compareLex (compareOn node) (compareOn layer)))
instance : LawfulEqOrd Label where
  eq_of_compare {a b} h := by
    have h : compareLex (compareOn node) (compareOn layer) a b = .eq := h
    rw [compareLex_eq_eq] at h
    cases a; cases b
    exact congr (congrArg Label.mk (LawfulEqOrd.eq_of_compare (α := NodeId) h.1))
      (LawfulEqOrd.eq_of_compare (α := Nat) h.2)

end Label

/-- A partial path, from `node` to the destination. -/
structure Visit where
  node : NodeId
  /-- The fees of all its hops. -/
  cost : UInt64
  /-- What the node has to forward. -/
  amount : Msat
  delay : UInt32
  hops : Nat
deriving DecidableEq

/-- A visit of least cost, and the others. -/
def Visit.takeCheapest : List Visit → Option (Visit × List Visit)
  | [] => none
  | visit :: rest =>
    match takeCheapest rest with
    | none => some (visit, [])
    | some (least, others) =>
      if visit.cost ≤ least.cost then some (visit, rest) else some (least, visit :: others)

/-- The tables of a search, and the visits still to settle. -/
structure Search where
  costs : ExtTreeMap Label UInt64
  hops : ExtTreeMap Label Hop
  queue : List Visit

/-- What settling a visit leads to. -/
inductive Search.Step where
  /-- The source was reached. -/
  | reached (layer : Nat) (cost : UInt64)
  | next (search : Search)

namespace Search

def start (query : Query) : Search where
  costs := (∅ : ExtTreeMap Label UInt64).insert ⟨query.destination, 0⟩ 0
  hops := ∅
  queue := [⟨query.destination, 0, query.amount, 0, 0⟩]

/-- The least cost known for a label; the greatest word stands for none. -/
def costOf (search : Search) (label : Label) : UInt64 := search.costs.getD label 0xffffffffffffffff

/-- Extends a visit of cost `cost` by a channel in front, if that can carry the amount and is strictly
cheaper than what the label in front has. -/
def offer (query : Query) (visit : Visit) (cost : UInt64) (search : Search)
    (edge : NodeId × Channel) : Search :=
  let (peer, channel) := edge
  let label : Label := ⟨peer, query.layer (visit.hops + 1)⟩
  let fee := channel.fee visit.amount
  let total := cost.satAdd fee
  if channel.canUse visit.amount && total < search.costOf label then
    { costs := search.costs.insert label total
      hops := search.hops.insert label ⟨channel, visit.amount, visit.delay⟩
      queue := ⟨peer, total, visit.amount.satAdd fee, visit.delay.satAdd channel.delay, visit.hops + 1⟩
        :: search.queue }
  else search

/-- Extends a visit by every channel in front of it. -/
def expand (graph : Graph) (query : Query) (visit : Visit) (search : Search) : Search :=
  let cost := search.costOf ⟨visit.node, query.layer visit.hops⟩
  (query.edges graph visit.node).foldl (offer query visit cost) search

/-- Settles a visit that has been taken out of the queue. A visit dearer than its label is stale. -/
def settle (graph : Graph) (query : Query) (visit : Visit) (search : Search) : Step :=
  let layer := query.layer visit.hops
  if search.costOf ⟨visit.node, layer⟩ < visit.cost then .next search
  else if visit.node = query.source then .reached layer visit.cost
  else if query.isFull visit.hops then .next search
  else .next (expand graph query visit search)

/-- The final tables of a search that reached the source. -/
structure Arrival where
  search : Search
  layer : Nat
  cost : UInt64

/-- Settles visits until the source is reached or none is left. -/
def run (graph : Graph) (query : Query) : Nat → Search → Option Arrival
  | 0, _ => none
  | fuel + 1, search =>
    match Visit.takeCheapest search.queue with
    | none => none
    | some (visit, rest) =>
      match settle graph query visit { search with queue := rest } with
      | .reached layer cost => some ⟨{ search with queue := rest }, layer, cost⟩
      | .next search => run graph query fuel search

/-- More steps than any search takes: each either shortens the queue or lowers the cost of a label,
of which there is one for each indexed neighbour and layer. -/
def fuel (graph : Graph) (query : Query) : Nat :=
  let neighbours := graph.inbound.values.foldr (fun peers count => peers.size + count) 0
  0x20000000000000000 * (neighbours + 1) * (query.maxHops + 1)

/-- Follows the hops from a label to the destination, for at most `steps` hops. -/
def trace (query : Query) (hops : ExtTreeMap Label Hop) (steps : Nat) (label : Label) :
    Option (List Hop) :=
  if label.node = query.destination then some []
  else match hops[label]?, steps with
    | some hop, steps + 1 =>
      (trace query hops steps ⟨hop.channel.destination, query.layer (label.layer - 1)⟩).map (hop :: ·)
    | _, _ => none

/-- The hops of an arrival, in payment order. -/
def Arrival.path? (query : Query) (arrival : Arrival) : Option (List Hop) :=
  trace query arrival.search.hops arrival.search.hops.size ⟨query.source, arrival.layer⟩

end Search

namespace Graph

/-- The cheapest path, by the fees of all its hops. -/
def findPath (graph : Graph) (query : Query) : Except RoutingError (List Hop) :=
  if query.source = query.destination then .error (.sameEndpoints query.source)
  else if query.amount = 0 then .error .zeroAmount
  else
    let arrival := Search.run graph query (Search.fuel graph query) (Search.start query)
    match arrival.bind (Search.Arrival.path? query) with
    | some hops => .ok hops
    | none => .error (.noRoute query.source query.destination)

/-- The cheapest path as a route. -/
def findRoute (graph : Graph) (query : Query) : Except RoutingError Route :=
  (graph.findPath query).map (Route.ofHops query.source query.destination query.amount)

end Graph

end Rebalancing
