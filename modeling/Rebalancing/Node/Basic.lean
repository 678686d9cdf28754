import Rebalancing.Graph.Refresh
import Rebalancing.Node.Peers
import Rebalancing.Settings.Basic
import Rebalancing.Storage.GraphFile

/-! # The node

A node keeps a graph and a peer table in step with what a Lightning node lists, answers questions
about them, and rebalances. The graph is saved after every change, and found again by the next run. -/

namespace Rebalancing

/-- A Lightning node, as what it answers at some moment. -/
structure Lightning where
  info : Except ClientError NodeInfo
  channels : Except ClientError (List ListedChannel)
  nodes : Except ClientError (List ListedNode)
  peers : Except ClientError (List ListedPeer)
  payer : Payer

structure Node where
  settings : Settings
  /-- What the Lightning node said about itself at the start. -/
  info : NodeInfo
  graph : Graph := {}
  peers : PeerTable := ∅

/-- Why something did not get done. -/
inductive NodeError where
  | listing (error : ClientError)
  | storage
deriving DecidableEq

/-- The text of an error; there is none where the operating system words it. -/
def NodeError.message? : NodeError → Option String
  | .listing error => error.message?.map ("listing retrieval failed: " ++ ·)
  | .storage => none

/-- A node and the disk that its graph is saved on. -/
structure Site where
  node : Node
  disk : Disk

/-- What a node does again and again. -/
inductive Task where
  | refreshGraph
  | refreshPeers
  | report
deriving DecidableEq

structure NodeStatus where
  node : NodeId
  name : Option String
  graph : Stats
  peers : Nat
  connected : Nat
deriving DecidableEq

namespace Node

def graphFile (settings : Settings) : Location := Path.location settings.graphPath

/-- A node that starts from the saved graph, or from an empty one. -/
def connect (settings : Settings) (lightning : Lightning) (disk : Disk) : Except NodeError Node :=
  match lightning.info with
  | .error error => .error (.listing error)
  | .ok info => .ok {
      settings
      info
      graph := ((GraphFile.load disk (graphFile settings)).map Graph.ofSnapshot).getD {} }

/-- The engine for the channels of this node. -/
def engine (node : Node) : Rebalancer where
  graph := node.graph
  self := node.info.id
  tuning := node.settings.rebalance.tuning

/-- Looks for a route without paying, from this node if no other is named. -/
def route (node : Node) (source : Option NodeId) (destination : NodeId) (amount : Msat)
    (maxHops : Option UInt64) : Except RoutingError Route :=
  node.graph.findRoute {
    source := source.getD node.info.id
    destination
    amount
    maxHops := (maxHops.map UInt64.toNat).getD Query.defaultMaxHops }

def status (node : Node) : NodeStatus where
  node := node.info.id
  name := node.info.name
  graph := node.graph.stats
  peers := node.peers.size
  connected := node.peers.connected.length

/-- The tasks of a running node and how many seconds apart they are done. -/
def tasks (settings : Settings) : List (Task × UInt64) := [
  (.refreshGraph, max settings.refresh.graphInterval 1),
  (.refreshPeers, max settings.refresh.peerInterval 1),
  (.report, max settings.refresh.statsInterval 1)]

end Node

namespace Site

/-- Saves the graph, and tells whether it is saved. The node is the same if it is not. -/
def save (site : Site) : Site × Bool :=
  let (disk, saved) :=
    GraphFile.save site.disk (Node.graphFile site.node.settings) site.node.graph.snapshot
  ({ site with disk }, saved)

/-- Saves the graph and then answers, unless saving fails. -/
def saveThen {α : Type} (site : Site) (answer : Except NodeError α) : Site × Except NodeError α :=
  let (site, saved) := site.save
  (site, if saved then answer else .error .storage)

/-- Saves the graph one last time. -/
def shutdown (site : Site) : Site × Except NodeError Unit := site.saveThen (.ok ())

/-- Brings the graph up to date and saves it. If the nodes cannot be listed, what the channels brought
stays and is saved too; only the names are left as they were. -/
def refreshGraph (site : Site) (lightning : Lightning) (words : WordSupply) :
    Site × Except NodeError RefreshSummary :=
  match lightning.channels with
  | .error error => (site, .error (.listing error))
  | .ok listing =>
    let refresh := site.node.graph.applyListing site.node.settings.aging listing words
    match lightning.nodes with
    | .error error =>
      { site with node.graph := refresh.graph }.saveThen (.error (.listing error))
    | .ok nodes =>
      { site with node.graph := refresh.graph.renewNames nodes }.saveThen (.ok refresh.summary)

/-- Replaces the peer table by a fresh listing, and counts the listing. -/
def refreshPeers (site : Site) (lightning : Lightning) : Site × Except NodeError Nat :=
  match lightning.peers with
  | .error error => (site, .error (.listing error))
  | .ok listing =>
    let (peers, _) := site.node.peers.replace listing
    ({ site with node.peers := peers }, .ok listing.length)

/-- The first refreshes of a run. That they fail does not stop it. -/
def start (site : Site) (lightning : Lightning) (words : WordSupply) : Site :=
  ((site.refreshGraph lightning words).1.refreshPeers lightning).1

/-- The node of the next run on the same disk. -/
def restart (site : Site) (lightning : Lightning) : Except NodeError Site :=
  (Node.connect site.node.settings lightning site.disk).map fun node => { site with node }

end Site

end Rebalancing
