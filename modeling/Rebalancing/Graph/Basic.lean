import Rebalancing.Channel.Basic
import Rebalancing.Graph.Links

/-! # The channel graph

The network as one node sees it: the channel records by id, two adjacency indices derived from them,
the names of nodes, and the ids of the last listing. A graph value may hold indices that disagree
with its records; `Graph.add` leads to one when it replaces a record by one with other endpoints. -/

namespace Rebalancing

open Std

structure Graph where
  channels : ExtTreeMap ChannelId Channel := ∅
  /-- `outbound[a][b]`: channels that move funds from `a` to `b`. -/
  outbound : Links := ∅
  /-- `inbound[b][a]`: channels that move funds from `a` to `b`. -/
  inbound : Links := ∅
  names : ExtTreeMap NodeId String := ∅
  /-- The ids seen in the last listing, if one has been applied. -/
  listed : Option (ExtTreeSet ChannelId) := none

namespace Graph

def empty : Graph := {}

def channel? (graph : Graph) (id : ChannelId) : Option Channel := graph.channels[id]?

/-- Whether `Graph.add` has to index the channel. -/
def isNew (graph : Graph) (channel : Channel) : Bool := !graph.channels.contains channel.id

/-- Stores a channel. A channel whose id is known replaces the record and leaves the indices alone. -/
def add (graph : Graph) (channel : Channel) : Graph :=
  let stored := graph.channels.insert channel.id channel
  if graph.isNew channel then
    { graph with
      channels := stored
      outbound := graph.outbound.link channel.source channel.destination channel.scid
      inbound := graph.inbound.link channel.destination channel.source channel.scid }
  else { graph with channels := stored }

/-- Forgets a channel, in the indices under the endpoints of its record. -/
def remove (graph : Graph) (id : ChannelId) : Graph :=
  match graph.channel? id with
  | none => graph
  | some channel =>
    { graph with
      channels := graph.channels.erase id
      outbound := graph.outbound.unlink channel.source channel.destination channel.scid
      inbound := graph.inbound.unlink channel.destination channel.source channel.scid }

/-- Changes a stored record in place. -/
def modify (graph : Graph) (id : ChannelId) (change : Channel → Channel) : Graph :=
  { graph with channels := graph.channels.modify id change }

/-- The channels that can forward from `a` to `b`, by short channel id. -/
def between (graph : Graph) (a b : NodeId) : List Channel :=
  (graph.outbound.edge a b).toList.filterMap fun scid => graph.channel? ⟨scid, .between a b⟩

def containsNode (graph : Graph) (node : NodeId) : Bool :=
  graph.outbound.contains node || graph.inbound.contains node

/-- The nodes of either index. -/
def nodes (graph : Graph) : ExtTreeSet NodeId :=
  ExtTreeSet.ofList (graph.outbound.keys ++ graph.inbound.keys)

/-- The name of a node, or else its id. -/
def nameOf (graph : Graph) (node : NodeId) : String := graph.names.getD node node.text

/-- The channel of `scid` that leads away from `node`. -/
def outgoing? (graph : Graph) (node : NodeId) (scid : ShortChannelId) : Option Channel :=
  ([Direction.zero, .one].filterMap fun d => graph.channel? ⟨scid, d⟩).find? (·.source = node)

/-- The channel of `scid` that leads towards `node`. -/
def incoming? (graph : Graph) (node : NodeId) (scid : ShortChannelId) : Option Channel :=
  ([Direction.zero, .one].filterMap fun d => graph.channel? ⟨scid, d⟩).find? (·.destination = node)

@[simp] theorem channels_add (graph : Graph) (channel : Channel) :
    (graph.add channel).channels = graph.channels.insert channel.id channel := by
  unfold add; split <;> rfl

@[simp] theorem names_add (graph : Graph) (channel : Channel) :
    (graph.add channel).names = graph.names := by
  unfold add; split <;> rfl

@[simp] theorem listed_add (graph : Graph) (channel : Channel) :
    (graph.add channel).listed = graph.listed := by
  unfold add; split <;> rfl

@[simp] theorem channels_remove (graph : Graph) (id : ChannelId) :
    (graph.remove id).channels = graph.channels.erase id := by
  unfold remove channel?
  split
  next h =>
    refine ExtTreeMap.ext_getElem? fun k => ?_
    rw [ExtTreeMap.getElem?_erase]
    split
    next hk => rw [← LawfulEqOrd.eq_of_compare hk, h]
    next => rfl
  next => rfl

@[simp] theorem names_remove (graph : Graph) (id : ChannelId) :
    (graph.remove id).names = graph.names := by
  unfold remove; split <;> rfl

@[simp] theorem listed_remove (graph : Graph) (id : ChannelId) :
    (graph.remove id).listed = graph.listed := by
  unfold remove; split <;> rfl

end Graph

end Rebalancing
