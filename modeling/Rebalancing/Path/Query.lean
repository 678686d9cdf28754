import Rebalancing.Graph.Basic
import Rebalancing.Route.Basic

/-! # Route queries

What a path search is asked for, and why it may have no answer. -/

namespace Rebalancing

open Std

/-- The most hops of a path if nothing else is asked for. -/
def Query.defaultMaxHops : Nat := 20

structure Query where
  source : NodeId
  destination : NodeId
  /-- What the destination is to receive. -/
  amount : Msat
  /-- Nodes that no hop may start from. -/
  excluded : ExtTreeSet NodeId := ∅
  /-- The most hops a path may have; zero sets no limit. -/
  maxHops : Nat := Query.defaultMaxHops

inductive RoutingError where
  | noRoute (source destination : NodeId)
  | sameEndpoints (node : NodeId)
  | unknownChannel (id : ChannelId)
  | zeroAmount
deriving DecidableEq

def RoutingError.message : RoutingError → String
  | .noRoute source destination => "no route found from " ++ source.text ++ " to " ++ destination.text
  | .sameEndpoints node => "source and destination are the same node: " ++ node.text
  | .unknownChannel id => "channel not in graph: " ++ id.text
  | .zeroAmount => "cannot route a zero amount"

/-- On which side of a channel its owner is. -/
inductive Side where
  | outgoing
  | incoming
deriving DecidableEq

/-- The channel of `scid` that `node` owns and that leads away from or towards it. -/
def Graph.own (graph : Graph) (node : NodeId) (scid : ShortChannelId) (side : Side) :
    Except RoutingError Channel :=
  let found := match side with
    | .outgoing => graph.outgoing? node scid
    | .incoming => graph.incoming? node scid
  found.elim (.error (.unknownChannel ⟨scid, .zero⟩)) .ok

namespace Query

/-- With a hop limit a node is searched once for each number of hops to the destination: a cheap long
path must not shadow a dearer short one that still fits. Without a limit there is one layer. -/
def layer (query : Query) (hops : Nat) : Nat := if query.maxHops = 0 then 0 else hops

/-- Whether a path of this many hops may not grow. -/
def isFull (query : Query) (hops : Nat) : Bool := query.maxHops ≠ 0 && query.maxHops ≤ hops

/-- The channels a path may be extended by in front of `node`, with the node each starts from. -/
def edges (query : Query) (graph : Graph) (node : NodeId) : List (NodeId × Channel) :=
  (graph.inbound.getD node ∅).toList.flatMap fun (peer, edge) =>
    if query.excluded.contains peer || peer = query.destination then []
    else edge.toList.filterMap fun scid =>
      (graph.channel? ⟨scid, .between peer node⟩).map (peer, ·)

end Query

end Rebalancing
