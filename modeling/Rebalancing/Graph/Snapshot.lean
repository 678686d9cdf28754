import Rebalancing.Graph.Basic

/-! # Snapshots

What of a graph is kept between runs: the records and the names. The indices are rebuilt by adding
the records again. -/

namespace Rebalancing

open Std

structure Snapshot where
  channels : List Channel
  names : ExtTreeMap NodeId String := ∅

/-- Counters of a graph. -/
structure Stats where
  channels : Nat
  nodes : Nat
  names : Nat
  totalCapacity : Msat
deriving DecidableEq

namespace Graph

def addAll (graph : Graph) (channels : List Channel) : Graph := channels.foldl add graph

def ofSnapshot (snapshot : Snapshot) : Graph :=
  { empty.addAll snapshot.channels with names := snapshot.names }

/-- The records by id, and the names. -/
def snapshot (graph : Graph) : Snapshot := ⟨graph.channels.values, graph.names⟩

/-- A physical channel has one record in each direction, so capacities are summed over direction
zero alone. -/
def totalCapacity (graph : Graph) : Msat :=
  (graph.channels.values.filter (·.direction = .zero)).foldl (fun sum c => sum.satAdd c.capacity) 0

def stats (graph : Graph) : Stats where
  channels := graph.channels.size
  nodes := graph.nodes.size
  names := graph.names.size
  totalCapacity := graph.totalCapacity

end Graph

end Rebalancing
