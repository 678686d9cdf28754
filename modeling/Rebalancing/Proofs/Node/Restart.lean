import Rebalancing.Node.Basic
import Rebalancing.Proofs.Graph.Keyed
import Rebalancing.Proofs.Storage.GraphFile

/-!
# Restarting a node

What a node knows is saved whenever it changes, and a save may fail.  A `Session` is a run
of a node together with what an onlooker remembers of it: the snapshot that the node held
when it started or was last saved, and whether a save has failed since a listing was
applied.  A restart leads back to that snapshot, at any moment of any run.
-/

namespace Rebalancing

open Std

/-! ## What a run is made of -/

/-- What is done with a running node, with the answers that it meets. -/
inductive Action where
  | refreshGraph (lightning : Lightning) (words : WordSupply)
  | refreshPeers (lightning : Lightning)
  | route (source : Option NodeId) (destination : NodeId) (amount : Msat) (maxHops : Option UInt64)
  | rebalance (request : RebalanceRequest) (payer : Payer) (secret : PaymentSecret)
      (elapsed : Nat → Nat)
  | status
  | save
  | shutdown

namespace Action

/-- What comes of an action. -/
inductive Result where
  | refreshedGraph (result : Except NodeError RefreshSummary)
  | refreshedPeers (result : Except NodeError Nat)
  | routed (result : Except RoutingError Route)
  | rebalanced (result : Except RebalanceError RebalanceOutcome)
  | status (status : NodeStatus)
  | saved (done : Bool)
  | stopped (result : Except NodeError Unit)

/-- Whether an action applies a listing of channels. -/
def applies : Action → Bool
  | .refreshGraph lightning _ => lightning.channels.toBool
  | _ => false

/-- Whether an action came to a save, and whether that succeeded, as the result tells. -/
def attempt? : Action → Result → Option Bool
  | .refreshGraph lightning _, .refreshedGraph result =>
    if lightning.channels.toBool then
      some (match result with | .error .storage => false | _ => true)
    else none
  | .save, .saved done => some done
  | .shutdown, .stopped result => some result.toBool
  | _, _ => none

end Action

namespace Site

def perform (site : Site) : Action → Site × Action.Result
  | .refreshGraph lightning words => (site.refreshGraph lightning words).map id .refreshedGraph
  | .refreshPeers lightning => (site.refreshPeers lightning).map id .refreshedPeers
  | .route source destination amount maxHops =>
    (site, .routed (site.node.route source destination amount maxHops))
  | .rebalance request payer secret elapsed =>
    (site, .rebalanced (site.node.engine.run request payer secret elapsed).1)
  | .status => (site, .status site.node.status)
  | .save => site.save.map id .saved
  | .shutdown => site.shutdown.map id .stopped

end Site

structure Session where
  site : Site
  /-- What the node held when it started, or when it was last saved. -/
  kept : Snapshot
  /-- Whether a save has failed since a listing was last applied. -/
  lagging : Bool

namespace Session

def start (node : Node) (disk : Disk) : Session := ⟨⟨node, disk⟩, node.graph.snapshot, false⟩

def act (session : Session) (action : Action) : Session :=
  let (site, result) := session.site.perform action
  let attempt := action.attempt? result
  { site
    kept := if attempt = some true then site.node.graph.snapshot else session.kept
    lagging := attempt = some false || (session.lagging && !action.applies) }

/-- The sessions that begin with whatever is in the graph file.  Between actions the disk may become
another one, as long as the graph file stays as it is. -/
inductive Reached (settings : Settings) : Session → Prop
  | start {lightning : Lightning} {disk : Disk} {node : Node} :
      Node.connect settings lightning disk = .ok node → Reached settings (start node disk)
  | act {session : Session} (action : Action) :
      Reached settings session → Reached settings (session.act action)
  | outside {session : Session} (disk : Disk) :
      disk.read? (Node.graphFile settings) = session.site.disk.read? (Node.graphFile settings) →
      Reached settings session → Reached settings { session with site.disk := disk }

end Session

/-! ## What an action can do -/

namespace Site

variable {site site' : Site} {lightning : Lightning}

/-- A save touches nothing but the disk. -/
theorem save_eq (site : Site) :
    ∃ disk done, GraphFile.save site.disk (Node.graphFile site.node.settings)
        site.node.graph.snapshot = (disk, done) ∧ site.save = ({ site with disk }, done) := by
  unfold save
  cases GraphFile.save site.disk (Node.graphFile site.node.settings) site.node.graph.snapshot with
  | mk disk done => exact ⟨disk, done, rfl, rfl⟩

theorem saveThen_eq {α : Type} (site : Site) (answer : Except NodeError α) :
    ∃ disk done, GraphFile.save site.disk (Node.graphFile site.node.settings)
        site.node.graph.snapshot = (disk, done) ∧
      site.saveThen answer = ({ site with disk }, if done then answer else .error .storage) := by
  obtain ⟨disk, done, hsave, heq⟩ := site.save_eq
  exact ⟨disk, done, hsave, by rw [saveThen, heq]⟩

/-- Nothing happens if the channels cannot be listed. -/
theorem refreshGraph_of_no_channels {error : ClientError} (h : lightning.channels = .error error)
    (words : WordSupply) :
    site.refreshGraph lightning words = (site, .error (.listing error)) := by
  rw [refreshGraph, h]

/-- The graph after the channels have been listed, and perhaps the nodes. -/
def refreshed (site : Site) (listing : List ListedChannel)
    (nodes : Except ClientError (List ListedNode)) (words : WordSupply) : Graph :=
  let graph := (site.node.graph.applyListing site.node.settings.aging listing words).graph
  match nodes with
  | .ok nodes => graph.renewNames nodes
  | .error _ => graph

/-- What a refresh answers after the channels have been listed, if it is saved. -/
def answered (site : Site) (listing : List ListedChannel)
    (nodes : Except ClientError (List ListedNode)) (words : WordSupply) :
    Except NodeError RefreshSummary :=
  match nodes with
  | .ok _ => .ok (site.node.graph.applyListing site.node.settings.aging listing words).summary
  | .error error => .error (.listing error)

/-- If the channels can be listed, what they and the nodes bring is saved. -/
theorem refreshGraph_of_channels {listing : List ListedChannel}
    (h : lightning.channels = .ok listing) (words : WordSupply) :
    site.refreshGraph lightning words =
      { site with node.graph := site.refreshed listing lightning.nodes words }.saveThen
        (site.answered listing lightning.nodes words) := by
  unfold refreshGraph
  rw [h]
  cases lightning.nodes with
  | error error => rfl
  | ok nodes => rfl

/-- What an action can do.  The graph changes by listings only.  If the action comes to a save, then
that is the last it does, and if not, it touches neither the graph nor the disk. -/
theorem perform_cases {action : Action} {result : Action.Result}
    (h : site.perform action = (site', result)) :
    site'.node.settings = site.node.settings ∧
    (site'.node.graph = site.node.graph ∨
      ∃ listing nodes words, site'.node.graph = site.refreshed listing nodes words) ∧
    ((action.attempt? result = none ∧ action.applies = false ∧
        site'.node.graph = site.node.graph ∧ site'.disk = site.disk) ∨
      ∃ done, action.attempt? result = some done ∧
        GraphFile.save site.disk (Node.graphFile site.node.settings) site'.node.graph.snapshot =
          (site'.disk, done)) := by
  cases action with
  | refreshGraph lightning words =>
    rw [perform] at h
    cases hchannels : lightning.channels with
    | error error =>
      rw [refreshGraph_of_no_channels hchannels] at h
      cases h
      refine ⟨rfl, .inl rfl, .inl ⟨?_, ?_, rfl, rfl⟩⟩
      · simp [Action.attempt?, hchannels, Except.toBool]
      · simp [Action.applies, hchannels, Except.toBool]
    | ok listing =>
      obtain ⟨disk, done, hsave, hthen⟩ :=
        saveThen_eq { site with node.graph := site.refreshed listing lightning.nodes words }
          (site.answered listing lightning.nodes words)
      rw [refreshGraph_of_channels hchannels, hthen] at h
      cases h
      refine ⟨rfl, .inr ⟨_, _, _, rfl⟩, .inr ⟨done, ?_, hsave⟩⟩
      cases done <;> cases lightning.nodes <;>
        simp [Action.attempt?, answered, hchannels, Except.toBool]
  | refreshPeers lightning =>
    rw [perform, refreshPeers] at h
    cases hpeers : lightning.peers with
    | error error =>
      rw [hpeers] at h
      cases h
      exact ⟨rfl, .inl rfl, .inl ⟨rfl, rfl, rfl, rfl⟩⟩
    | ok listing =>
      rw [hpeers] at h
      cases h
      exact ⟨rfl, .inl rfl, .inl ⟨rfl, rfl, rfl, rfl⟩⟩
  | route source destination amount maxHops =>
    cases h
    exact ⟨rfl, .inl rfl, .inl ⟨rfl, rfl, rfl, rfl⟩⟩
  | rebalance request payer secret elapsed =>
    cases h
    exact ⟨rfl, .inl rfl, .inl ⟨rfl, rfl, rfl, rfl⟩⟩
  | status =>
    cases h
    exact ⟨rfl, .inl rfl, .inl ⟨rfl, rfl, rfl, rfl⟩⟩
  | save =>
    obtain ⟨disk, done, hsave, heq⟩ := site.save_eq
    rw [perform, heq] at h
    cases h
    exact ⟨rfl, .inl rfl, .inr ⟨done, rfl, hsave⟩⟩
  | shutdown =>
    obtain ⟨disk, done, hsave, hthen⟩ := site.saveThen_eq (.ok ())
    rw [perform, shutdown, hthen] at h
    cases h
    refine ⟨rfl, .inl rfl, .inr ⟨done, ?_, hsave⟩⟩
    cases done <;> rfl

theorem isKeyed_refreshed (keyed : site.node.graph.IsKeyed) (listing : List ListedChannel)
    (nodes : Except ClientError (List ListedNode)) (words : WordSupply) :
    (site.refreshed listing nodes words).IsKeyed := by
  have applied := keyed.applyListing site.node.settings.aging listing words
  unfold refreshed
  cases nodes with
  | error error => exact applied
  | ok nodes => exact applied.congr fun _ => rfl

end Site

/-! ## What a run keeps -/

/-- The graph that a node finds when it starts. -/
def Node.found (disk : Disk) (settings : Settings) : Graph :=
  ((GraphFile.load disk (graphFile settings)).map Graph.ofSnapshot).getD {}

theorem Node.isKeyed_found (disk : Disk) (settings : Settings) :
    (found disk settings).IsKeyed := by
  unfold found
  cases GraphFile.load disk (graphFile settings) with
  | none => exact Graph.isKeyed_empty
  | some snapshot => exact Graph.isKeyed_ofSnapshot snapshot

theorem Node.found_congr {disk disk' : Disk} {settings : Settings}
    (same : disk'.read? (graphFile settings) = disk.read? (graphFile settings)) :
    found disk' settings = found disk settings := by
  unfold found GraphFile.load
  rw [same]

/-- A node starts with the graph that it finds. -/
theorem Node.connect_eq_ok {settings : Settings} {lightning : Lightning} {disk : Disk} {node : Node} :
    Node.connect settings lightning disk = .ok node ↔ ∃ info, lightning.info = .ok info ∧
      node = { settings, info, graph := found disk settings } := by
  unfold connect
  cases lightning.info with
  | error error => simp
  | ok info => simp [found, eq_comm]

namespace Session

variable {settings : Settings} {session : Session}

/-- What a restart would find is what the onlooker remembers, and that is what the node holds unless a
save has failed. -/
structure IsFaithful (settings : Settings) (session : Session) : Prop where
  configured : session.site.node.settings = settings
  keyed : session.site.node.graph.IsKeyed
  recalls : (Node.found session.site.disk settings).snapshot = session.kept
  current : session.lagging = false → session.kept = session.site.node.graph.snapshot

theorem isFaithful_start {lightning : Lightning} {disk : Disk} {node : Node}
    (h : Node.connect settings lightning disk = .ok node) : (start node disk).IsFaithful settings := by
  obtain ⟨info, -, rfl⟩ := Node.connect_eq_ok.mp h
  exact {
    configured := rfl
    keyed := Node.isKeyed_found disk settings
    recalls := rfl
    current := fun _ => rfl }

/-- An action that succeeds in saving is remembered, and one that does not leaves the graph file as it
was. -/
theorem IsFaithful.act (faithful : session.IsFaithful settings) (action : Action) :
    (session.act action).IsFaithful settings := by
  unfold Session.act
  cases h : session.site.perform action with | mk site result => ?_
  obtain ⟨hsettings, hgraph, hcases⟩ := Site.perform_cases h
  have keyed : site.node.graph.IsKeyed := by
    obtain hgraph | ⟨listing, nodes, words, hgraph⟩ := hgraph
    · exact hgraph ▸ faithful.keyed
    · exact hgraph ▸ Site.isKeyed_refreshed faithful.keyed listing nodes words
  rw [faithful.configured] at hcases hsettings
  obtain ⟨hattempt, happlies, hsame, hdisk⟩ | ⟨done, hattempt, hsave⟩ := hcases
  · -- nothing is saved, and there is nothing to save
    refine ⟨hsettings, keyed, ?_, ?_⟩
    · simpa [hattempt, hdisk] using faithful.recalls
    · intro hlagging
      have hkept := faithful.current (by simpa [hattempt, happlies] using hlagging)
      simpa [hattempt, hsame] using hkept
  cases done with
  | true =>
    refine ⟨hsettings, keyed, ?_, ?_⟩
    · have hload := GraphFile.load_save hsave
      simpa [hattempt, Node.found, hload] using keyed.snapshot_ofSnapshot
    · intro _
      simp [hattempt]
  | false =>
    refine ⟨hsettings, keyed, ?_, ?_⟩
    · have hload := GraphFile.load_save_of_failed hsave
      simpa [hattempt, Node.found, hload] using faithful.recalls
    · intro hlagging
      simp [hattempt] at hlagging

theorem Reached.isFaithful (reached : Reached settings session) : session.IsFaithful settings := by
  induction reached with
  | start h => exact isFaithful_start h
  | act action _ ih => exact ih.act action
  | outside disk same _ ih =>
    exact { ih with recalls := (congrArg Graph.snapshot (Node.found_congr same)).trans ih.recalls }

/-- **Restart.**  At any moment of any run a restart leads to the snapshot that the node held when it
started or was last saved, and that is what it holds now unless a save has failed since the last
listing.  Whatever changes the graph comes to a save.  If the channels cannot be listed nothing
changes, and if only the nodes cannot, the channels are brought up to date and saved, and the names
stay. -/
theorem restart_recalls (reached : Reached settings session) :
    (∀ lightning info, lightning.info = .ok info → ∃ site,
      session.site.restart lightning = .ok site ∧ site.node.graph.snapshot = session.kept) ∧
    (session.lagging = false → session.kept = session.site.node.graph.snapshot) ∧
    (∀ action site result, session.site.perform action = (site, result) →
      (action.attempt? result = none ∧ site.node.graph = session.site.node.graph ∧
        site.disk = session.site.disk) ∨
      ∃ done, action.attempt? result = some done ∧
        GraphFile.save session.site.disk (Node.graphFile settings) site.node.graph.snapshot =
          (site.disk, done)) ∧
    (∀ lightning words error, lightning.channels = .error error →
      session.site.refreshGraph lightning words = (session.site, .error (.listing error))) ∧
    ∀ lightning words listing error, lightning.channels = .ok listing →
      lightning.nodes = .error error → ∃ graph disk done,
        graph = (session.site.node.graph.applyListing settings.aging listing words).graph ∧
        graph.names = session.site.node.graph.names ∧
        GraphFile.save session.site.disk (Node.graphFile settings) graph.snapshot = (disk, done) ∧
        session.site.refreshGraph lightning words = (⟨{ session.site.node with graph }, disk⟩,
          .error (if done then .listing error else .storage)) := by
  have faithful := reached.isFaithful
  refine ⟨?_, faithful.current, ?_, ?_, ?_⟩
  · intro lightning info hinfo
    have hnode : Node.connect session.site.node.settings lightning session.site.disk = .ok
        { settings := session.site.node.settings, info,
          graph := Node.found session.site.disk session.site.node.settings } :=
      Node.connect_eq_ok.mpr ⟨info, hinfo, rfl⟩
    refine ⟨_, congrArg (Except.map _) hnode, ?_⟩
    rw [← faithful.recalls, ← faithful.configured]
  · intro action site result h
    obtain ⟨-, -, ⟨hattempt, -, hgraph, hdisk⟩ | saved⟩ := Site.perform_cases h
    · exact .inl ⟨hattempt, hgraph, hdisk⟩
    · exact .inr (faithful.configured ▸ saved)
  · exact fun lightning words error h => Site.refreshGraph_of_no_channels h words
  · intro lightning words listing error hchannels hnodes
    have hrefreshed : session.site.refreshed listing lightning.nodes words =
        (session.site.node.graph.applyListing settings.aging listing words).graph := by
      unfold Site.refreshed
      rw [hnodes, faithful.configured]
    have hanswered : session.site.answered listing lightning.nodes words =
        .error (.listing error) := by
      unfold Site.answered
      rw [hnodes]
    obtain ⟨disk, done, hsave, hthen⟩ := Site.saveThen_eq (α := RefreshSummary)
      { session.site with
        node.graph := (session.site.node.graph.applyListing settings.aging listing words).graph }
      (.error (.listing error))
    rw [faithful.configured] at hsave
    refine ⟨_, disk, done, rfl, Graph.names_applyListing _ _ _ _, hsave, ?_⟩
    rw [Site.refreshGraph_of_channels hchannels, hrefreshed, hanswered, hthen]
    cases done <;> rfl

/-! ### A pier -/

/-- A Lightning node that knows one channel, and cannot list the nodes. -/
def pier (block : UInt32) : Lightning where
  info := .ok ⟨⟨"A"⟩, none, 100⟩
  channels := .ok [{
    scid := .ofParts block 0 0
    source := ⟨"A"⟩
    destination := ⟨"B"⟩
    satoshis := 1000
    baseFee := 0
    feePerMillionth := 0
    htlcMinimum := 1
    htlcMaximum := none
    delay := 10
    active := true
    lastUpdate := 0 }]
  nodes := .error .timeout
  peers := .ok []
  payer := fun _ => .error .timeout

/-- The node of a pier, on a disk without a graph file. -/
def moored : Session :=
  start { settings := {}, info := ⟨⟨"A"⟩, none, 100⟩, graph := Node.found {} {} } {}

/-- A run that saves one listing, and cannot save the next one on a disk that has become read-only. -/
def stranded : Session :=
  let saved := moored.act (.refreshGraph (pier 1) {})
  { saved with site.disk.writable := false }.act (.refreshGraph (pier 2) {})

theorem stranded_reached : Reached {} stranded := by
  have hmoored : Reached {} moored :=
    .start (Node.connect_eq_ok.mpr ⟨_, show (pier 1).info = _ from rfl, rfl⟩)
  unfold stranded
  exact .act _ (.outside _ rfl (.act _ hmoored))

/-- A restart leads back to the first listing, and the node holds the second one. -/
theorem stranded_recalls : Reached {} stranded ∧ stranded.lagging = true ∧
    stranded.kept.channels.map (·.scid) = [.ofParts 1 0 0] ∧
    stranded.site.node.graph.snapshot.channels.map (·.scid) = [.ofParts 2 0 0] ∧
    ∃ site, stranded.site.restart (pier 3) = .ok site ∧
      site.node.graph.snapshot = stranded.kept := by
  obtain ⟨restarts, -⟩ := restart_recalls stranded_reached
  exact ⟨stranded_reached, by decide +kernel, by decide +kernel, by decide +kernel,
    restarts (pier 3) _ rfl⟩

end Session

end Rebalancing
