import Rebalancing.Graph.Basic
import Rebalancing.Liquidity.Aging

/-! # Bringing a graph up to date

A listing of channels adds and updates records, a prune drops the records that the last listing left
out, and a listing of nodes renews names. The two directions of a physical channel share its
capacity: whatever one of them is believed to hold, the other holds the remainder. How remainders are
subtracted is a parameter, since builds differ in what becomes of a difference below zero. -/

namespace Rebalancing

open Std

/-- What a refresh did. -/
structure RefreshSummary where
  added : Nat := 0
  updated : Nat := 0
  skipped : Nat := 0
  pruned : Nat := 0
deriving DecidableEq

/-- A refresh under way. -/
structure Refresh where
  graph : Graph
  words : WordSupply
  seen : ExtTreeSet ChannelId := ∅
  summary : RefreshSummary := {}

namespace Refresh

section

variable {m : Type → Type} [Monad m] (sub : Msat → Msat → m Msat)

/-- A direction that is not stored yet takes what its opposite leaves free, or half of the capacity
when the opposite is not stored either. The opposite is cut down to the capacity. -/
def enterBy (graph : Graph) (listed : ListedChannel) : m Graph := do
  let capacity := listed.capacity
  match graph.channel? listed.id.opposite with
  | none => return graph.add (.ofListed listed (capacity / 2))
  | some opposite =>
    let kept := min opposite.liquidity capacity
    let rest ← sub capacity kept
    return (graph.modify listed.id.opposite fun c =>
      { c with capacity := capacity, liquidity := kept }).add (.ofListed listed rest)

/-- A stored direction gets the estimate `liquidity`, and its opposite the remainder. -/
def renewBy (graph : Graph) (listed : ListedChannel) (liquidity : Msat) : m Graph := do
  let capacity := listed.capacity
  let rest ← sub capacity liquidity
  return (graph.modify listed.id.opposite fun c =>
    { c with capacity := capacity, liquidity := rest }).add (.ofListed listed liquidity)

/-- Takes in one record. -/
def recordBy (aging : Aging) (state : Refresh) (listed : ListedChannel) : m Refresh := do
  if !listed.isValid then
    return { state with summary.skipped := state.summary.skipped + 1 }
  let seen := state.seen.insert listed.id
  match state.graph.channel? listed.id with
  | none =>
    let graph ← enterBy sub state.graph listed
    return { state with graph, seen, summary.added := state.summary.added + 1 }
  | some known =>
    let (drift, words) := aging.draw state.words
    let graph ← renewBy sub state.graph listed (Aging.age known.liquidity drift listed.capacity)
    return { graph, words, seen
             summary := { state.summary with updated := state.summary.updated + 1 } }

end

/-- Subtraction that goes on below zero from the greatest word. -/
def wrapping (a b : Msat) : Id Msat := pure (a - b)

def enter (graph : Graph) (listed : ListedChannel) : Graph := (enterBy wrapping graph listed).run

def renew (graph : Graph) (listed : ListedChannel) (liquidity : Msat) : Graph :=
  (renewBy wrapping graph listed liquidity).run

def record (aging : Aging) (state : Refresh) (listed : ListedChannel) : Refresh :=
  (recordBy wrapping aging state listed).run

end Refresh

namespace Graph

/-- Takes in the records of a listing in order, and remembers their ids. -/
def refreshBy {m : Type → Type} [Monad m] (sub : Msat → Msat → m Msat) (graph : Graph)
    (aging : Aging) (listing : List ListedChannel) (words : WordSupply) : m Refresh := do
  let state ← listing.foldlM (Refresh.recordBy sub aging) { graph, words }
  return { state with graph := { state.graph with listed := some state.seen } }

def refresh (graph : Graph) (aging : Aging) (listing : List ListedChannel) (words : WordSupply) :
    Refresh :=
  (graph.refreshBy Refresh.wrapping aging listing words).run

theorem refresh_eq (graph : Graph) (aging : Aging) (listing : List ListedChannel)
    (words : WordSupply) : graph.refresh aging listing words =
      let state := listing.foldl (Refresh.record aging) { graph, words }
      { state with graph := { state.graph with listed := some state.seen } } := by
  rw [refresh, refreshBy, Id.run_bind, List.idRun_foldlM]
  rfl

/-- The ids of the records that the last listing left out. -/
def stale (graph : Graph) : List ChannelId :=
  match graph.listed with
  | none => []
  | some seen => graph.channels.keys.filter (! seen.contains ·)

/-- Drops the records that the last listing left out, if there has been one. -/
def prune (graph : Graph) : Graph := graph.stale.foldl remove graph

/-- Refreshes and prunes. -/
def applyListing (graph : Graph) (aging : Aging) (listing : List ListedChannel)
    (words : WordSupply) : Refresh :=
  let state := graph.refresh aging listing words
  { state with
    graph := state.graph.prune
    summary := { state.summary with pruned := state.graph.stale.length } }

/-- The names that announcements give. -/
def announced (nodes : List ListedNode) : List (NodeId × String) :=
  nodes.filterMap fun listed => (listed.name.filter (· ≠ "")).map (listed.node, ·)

/-- Renews the names that are announced; nodes announced without one keep the name they have. -/
def renewNames (graph : Graph) (nodes : List ListedNode) : Graph :=
  { graph with
    names := (announced nodes).foldl (fun names (node, name) => names.insert node name) graph.names }

end Graph

end Rebalancing
