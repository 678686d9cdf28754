import Rebalancing.Proofs.Graph.Consistent

/-!
# Edits of a graph

A graph comes about by loading snapshots, adding and removing channels, and taking in
listings.  `Graph.Reached` holds of the graphs that any sequence of these edits leads to
from the empty graph, if whatever is added under an id that is stored has the endpoints of
what is stored.  Each of them is consistent, and is found again in its snapshot.
-/

namespace Rebalancing

open Std

/-- Whether the records of a listing keep the endpoints of what is stored under an id when they are
taken in. -/
def Refresh.KeepsEndsAt (aging : Aging) (id : ChannelId) (state : Refresh) :
    List ListedChannel → Prop
  | [] => True
  | listed :: rest =>
    (listed.isValid → listed.id = id →
        state.graph.KeepsEnds id listed.source listed.destination) ∧
      KeepsEndsAt aging id (record aging state listed) rest

instance Refresh.decidableKeepsEndsAt (aging : Aging) (id : ChannelId) :
    (state : Refresh) → (listing : List ListedChannel) →
      Decidable (state.KeepsEndsAt aging id listing)
  | _, [] => .isTrue trivial
  | state, listed :: rest =>
    have := decidableKeepsEndsAt aging id (record aging state listed) rest
    inferInstanceAs (Decidable (_ ∧ _))

theorem Refresh.keepsEndsAt_of_not_mem {aging : Aging} {id : ChannelId} {state : Refresh}
    {listing : List ListedChannel} (other : id ∉ listing.map (·.id)) :
    state.KeepsEndsAt aging id listing := by
  induction listing generalizing state with
  | nil => trivial
  | cons listed rest ih =>
    rw [List.map_cons, List.mem_cons, not_or] at other
    exact ⟨fun _ hid => absurd hid.symm other.1, ih other.2⟩

namespace Graph

variable {graph graph' : Graph} {id : ChannelId} {channels : List Channel}

/-- Whether channels keep the endpoints of what is stored under an id when they are added. -/
def AllKeepEndsAt (graph : Graph) (id : ChannelId) : List Channel → Prop
  | [] => True
  | channel :: rest =>
    (channel.id = id → graph.KeepsEnds id channel.source channel.destination) ∧
      (graph.add channel).AllKeepEndsAt id rest

instance decidableAllKeepEndsAt (id : ChannelId) :
    (graph : Graph) → (channels : List Channel) → Decidable (graph.AllKeepEndsAt id channels)
  | _, [] => .isTrue trivial
  | graph, channel :: rest =>
    have := decidableAllKeepEndsAt id (graph.add channel) rest
    inferInstanceAs (Decidable (_ ∧ _))

theorem allKeepEndsAt_of_not_mem (other : id ∉ channels.map (·.id)) :
    graph.AllKeepEndsAt id channels := by
  induction channels generalizing graph with
  | nil => trivial
  | cons channel rest ih =>
    rw [List.map_cons, List.mem_cons, not_or] at other
    exact ⟨fun hid => absurd hid.symm other.1, ih other.2⟩

/-- What can be done to a graph. -/
inductive Edit where
  | load (snapshot : Snapshot)
  | add (channel : Channel)
  | remove (id : ChannelId)
  | refresh (aging : Aging) (listing : List ListedChannel) (words : WordSupply)
  | prune
  | renewNames (nodes : List ListedNode)

namespace Edit

def apply (graph : Graph) : Edit → Graph
  | .load snapshot => ofSnapshot snapshot
  | .add channel => graph.add channel
  | .remove id => graph.remove id
  | .refresh aging listing words => (graph.refresh aging listing words).graph
  | .prune => graph.prune
  | .renewNames nodes => graph.renewNames nodes

/-- The ids that an edit may put records under. -/
def ids : Edit → List ChannelId
  | .load snapshot => snapshot.channels.map (·.id)
  | .add channel => [channel.id]
  | .refresh _ listing _ => listing.map (·.id)
  | _ => []

/-- Whether an edit keeps the endpoints of what is stored under an id. -/
def KeepsEndsAt (graph : Graph) (id : ChannelId) : Edit → Prop
  | .load snapshot => Graph.empty.AllKeepEndsAt id snapshot.channels
  | .add channel => channel.id = id → graph.KeepsEnds id channel.source channel.destination
  | .refresh aging listing words => Refresh.KeepsEndsAt aging id { graph, words } listing
  | _ => True

instance (graph : Graph) (id : ChannelId) : (edit : Edit) → Decidable (edit.KeepsEndsAt graph id)
  | .load snapshot => inferInstanceAs (Decidable (Graph.empty.AllKeepEndsAt id snapshot.channels))
  | .add channel => inferInstanceAs
      (Decidable (channel.id = id → graph.KeepsEnds id channel.source channel.destination))
  | .refresh aging listing words =>
    inferInstanceAs (Decidable (Refresh.KeepsEndsAt aging id { graph, words } listing))
  | .remove _ | .prune | .renewNames _ => .isTrue trivial

theorem keepsEndsAt_of_not_mem {edit : Edit} (other : id ∉ edit.ids) :
    edit.KeepsEndsAt graph id := by
  cases edit with
  | load => exact allKeepEndsAt_of_not_mem other
  | add channel => exact fun hid => absurd (List.mem_singleton.mpr hid.symm) other
  | refresh => exact Refresh.keepsEndsAt_of_not_mem other
  | remove | prune | renewNames => trivial

/-- Whether it does so under every id. -/
def KeepsEnds (graph : Graph) (edit : Edit) : Prop := ∀ id, edit.KeepsEndsAt graph id

/-- Only the ids that the edit may put records under matter. -/
theorem keepsEnds_iff {edit : Edit} :
    edit.KeepsEnds graph ↔ ∀ id ∈ edit.ids, edit.KeepsEndsAt graph id := by
  refine ⟨fun keeps id _ => keeps id, fun keeps id => ?_⟩
  by_cases mem : id ∈ edit.ids
  · exact keeps id mem
  · exact keepsEndsAt_of_not_mem mem

instance (graph : Graph) (edit : Edit) : Decidable (edit.KeepsEnds graph) :=
  decidable_of_iff' _ keepsEnds_iff

end Edit

/-- The graphs that edits lead to from the empty graph. -/
inductive Reached : Graph → Prop
  | empty : Reached empty
  | edit {graph : Graph} (edit : Edit) : Reached graph → edit.KeepsEnds graph →
      Reached (edit.apply graph)

/-! ## Edits keep a graph consistent -/

theorem IsTidy.addAll (tidy : graph.IsTidy) (channels : List Channel) :
    (graph.addAll channels).IsTidy :=
  List.foldlRecOn channels Graph.add tidy fun _ tidy channel _ => tidy.add channel

theorem IsTidy.removeAll (tidy : graph.IsTidy) (ids : List ChannelId) :
    (ids.foldl Graph.remove graph).IsTidy :=
  List.foldlRecOn ids Graph.remove tidy fun _ tidy id _ => tidy.remove id

theorem IsTidy.record {state : Refresh} (tidy : state.graph.IsTidy) (aging : Aging)
    (listed : ListedChannel) : (Refresh.record aging state listed).graph.IsTidy :=
  Refresh.graph_record aging state listed ▸ tidy.take _ listed

/-- An edit keeps a graph tidy, whatever it adds. -/
theorem IsTidy.edit (tidy : graph.IsTidy) (edit : Edit) : (edit.apply graph).IsTidy := by
  cases edit with
  | load snapshot => exact { isTidy_empty.addAll snapshot.channels with }
  | add channel => exact tidy.add channel
  | remove id => exact tidy.remove id
  | refresh aging listing words =>
    have recorded : (listing.foldl (Refresh.record aging) { graph, words }).graph.IsTidy :=
      listing.foldlRecOn (motive := fun state : Refresh => state.graph.IsTidy) _ tidy
        fun _ tidy listed _ => tidy.record aging listed
    rw [Edit.apply, refresh_eq]
    exact { recorded with }
  | prune => exact tidy.removeAll _
  | renewNames nodes => exact { tidy with }

theorem IsPlaced.addAll (placed : graph.IsPlaced id) (keyed : graph.IsKeyed)
    (keeps : graph.AllKeepEndsAt id channels) : (graph.addAll channels).IsPlaced id := by
  induction channels generalizing graph with
  | nil => exact placed
  | cons channel rest ih => exact ih (placed.add keyed keeps.1) (keyed.add channel) keeps.2

theorem IsPlaced.removeAll (placed : graph.IsPlaced id) (keyed : graph.IsKeyed)
    (ids : List ChannelId) : (ids.foldl Graph.remove graph).IsPlaced id := by
  induction ids generalizing graph with
  | nil => exact placed
  | cons first rest ih => exact ih (placed.remove keyed first) (keyed.remove first)

theorem IsPlaced.recordAll {state : Refresh} (placed : state.graph.IsPlaced id)
    (keyed : state.graph.IsKeyed) {aging : Aging} {listing : List ListedChannel}
    (keeps : state.KeepsEndsAt aging id listing) :
    (listing.foldl (Refresh.record aging) state).graph.IsPlaced id := by
  induction listing generalizing state with
  | nil => exact placed
  | cons first rest ih =>
    refine ih ?_ (keyed.record aging first) keeps.2
    rw [Refresh.graph_record]
    exact placed.take keyed _ keeps.1

/-- An edit leaves an id in its place, if the endpoints of the id stay what they are. -/
theorem IsPlaced.edit (placed : graph.IsPlaced id) (keyed : graph.IsKeyed) (edit : Edit)
    (keeps : edit.KeepsEndsAt graph id) : (edit.apply graph).IsPlaced id := by
  cases edit with
  | load snapshot => exact (isPlaced_empty.addAll isKeyed_empty keeps).congr rfl rfl
  | add channel => exact placed.add keyed keeps
  | remove removed => exact placed.remove keyed removed
  | refresh aging listing words =>
    rw [Edit.apply, refresh_eq]
    exact (IsPlaced.recordAll placed keyed keeps).congr rfl rfl
  | prune => exact placed.removeAll keyed _
  | renewNames nodes => exact placed.congr rfl rfl

/-- So it keeps a graph consistent, if all ids keep their endpoints. -/
theorem IsConsistent.edit (consistent : graph.IsConsistent) (edit : Edit)
    (keeps : edit.KeepsEnds graph) : (edit.apply graph).IsConsistent :=
  (consistent.isTidy.edit edit).isConsistent fun id =>
    (consistent.isPlaced id).edit consistent.keyed edit (keeps id)

theorem isConsistent_empty : empty.IsConsistent :=
  isTidy_empty.isConsistent fun _ => isPlaced_empty

/-- A whole run of edits does so as well. -/
theorem Reached.isConsistent (reached : Reached graph) : graph.IsConsistent := by
  induction reached with
  | empty => exact isConsistent_empty
  | edit edit _ keeps ih => exact ih.edit edit keeps

/-! ## What is between two nodes -/

theorem IsKeyed.joins_iff (keyed : graph.IsKeyed) {a b : NodeId} {scid : ShortChannelId} :
    graph.Joins a b scid ↔ ∃ channel, graph.channel? channel.id = some channel ∧
      channel.scid = scid ∧ channel.source = a ∧ channel.destination = b := by
  constructor
  · rintro ⟨channel, h, hsource, hdestination⟩
    have hid := keyed _ channel h
    exact ⟨channel, hid ▸ h, congrArg ChannelId.scid hid, hsource, hdestination⟩
  · rintro ⟨channel, h, rfl, rfl, rfl⟩
    exact ⟨channel, h, rfl, rfl⟩

theorem IsConsistent.mem_between (consistent : graph.IsConsistent) {a b : NodeId}
    {channel : Channel} : channel ∈ graph.between a b ↔
      graph.channel? channel.id = some channel ∧ channel.source = a ∧ channel.destination = b := by
  unfold between
  simp only [List.mem_filterMap, ExtTreeSet.mem_toList, consistent.indexed.mem_outbound]
  constructor
  · rintro ⟨scid, ⟨found, hfound, hsource, hdestination⟩, h⟩
    cases hfound.symm.trans h
    have hid := consistent.keyed _ channel h
    exact ⟨hid ▸ h, hsource, hdestination⟩
  · rintro ⟨h, rfl, rfl⟩
    exact ⟨channel.scid, ⟨channel, h, rfl, rfl⟩, h⟩

/-- A channel is listed once, under its own short channel id. -/
theorem IsConsistent.nodup_between (consistent : graph.IsConsistent) (a b : NodeId) :
    (graph.between a b).Nodup := by
  refine List.Nodup.filterMap ?_ ?_
  · intro scid scid' channel h h'
    have hid := consistent.keyed _ channel (Option.mem_def.mp h)
    have hid' := consistent.keyed _ channel (Option.mem_def.mp h')
    exact congrArg ChannelId.scid (hid.symm.trans hid')
  · refine (graph.outbound.edge a b).distinct_toList.imp fun hne heq => ?_
    exact hne (heq ▸ compare_self)

/-! ## Snapshots -/

/-- Channels with different unknown ids keep what is stored. -/
theorem allKeepEndsAt_of_nodup {channels : List Channel} (distinct : (channels.map (·.id)).Nodup)
    (new : ∀ channel ∈ channels, graph.channel? channel.id = none) (id : ChannelId) :
    graph.AllKeepEndsAt id channels := by
  induction channels generalizing graph with
  | nil => trivial
  | cons channel rest ih =>
    obtain ⟨hne, distinct⟩ := List.nodup_cons.mp distinct
    constructor
    · rintro rfl known h
      rw [new channel List.mem_cons_self] at h
      cases h
    · refine ih distinct fun other mem => ?_
      rw [channel?_add, if_neg, new other (List.mem_cons_of_mem _ mem)]
      exact fun hid => hne (List.mem_map.mpr ⟨other, mem, hid⟩)

theorem IsKeyed.isConsistent_ofSnapshot (keyed : graph.IsKeyed) :
    (ofSnapshot graph.snapshot).IsConsistent := by
  refine isConsistent_empty.edit (.load graph.snapshot) fun id => ?_
  exact allKeepEndsAt_of_nodup keyed.nodup_values (fun channel _ => by simp [empty, channel?]) id

/-- Consistent graphs with the same records have the same indices. -/
theorem IsConsistent.indices_eq (consistent : graph.IsConsistent) (consistent' : graph'.IsConsistent)
    (same : graph'.channels = graph.channels) :
    graph'.outbound = graph.outbound ∧ graph'.inbound = graph.inbound := by
  have joins : ∀ a b scid, graph'.Joins a b scid ↔ graph.Joins a b scid := by
    intro a b scid
    unfold Joins channel?
    rw [same]
  constructor
  · refine consistent'.outbound.ext consistent.outbound fun a b scid => ?_
    rw [consistent'.indexed.mem_outbound, consistent.indexed.mem_outbound, joins]
  · refine consistent'.inbound.ext consistent.inbound fun b a scid => ?_
    rw [consistent'.indexed.mem_inbound, consistent.indexed.mem_inbound, joins]

/-- **Consistency.**  In every graph that edits lead to the records and the indices agree, no index
holds an empty bucket, the channels between two nodes are the stored ones, each once, and the
snapshot of the graph leads back to it. -/
theorem reached_consistent (reached : Reached graph) :
    (∀ id channel, graph.channel? id = some channel → channel.id = id) ∧
    (∀ a b scid, (scid ∈ graph.outbound.edge a b ↔ scid ∈ graph.inbound.edge b a) ∧
      (scid ∈ graph.outbound.edge a b ↔ ∃ channel, graph.channel? channel.id = some channel ∧
        channel.scid = scid ∧ channel.source = a ∧ channel.destination = b)) ∧
    (graph.outbound.IsTrim ∧ graph.inbound.IsTrim) ∧
    (∀ a b, (graph.between a b).Nodup ∧ ∀ channel, channel ∈ graph.between a b ↔
      graph.channel? channel.id = some channel ∧ channel.source = a ∧ channel.destination = b) ∧
    (ofSnapshot graph.snapshot).channels = graph.channels ∧
    (ofSnapshot graph.snapshot).names = graph.names ∧
    (ofSnapshot graph.snapshot).outbound = graph.outbound ∧
    (ofSnapshot graph.snapshot).inbound = graph.inbound ∧
    (ofSnapshot graph.snapshot).snapshot = graph.snapshot := by
  have consistent := reached.isConsistent
  have keyed := consistent.keyed
  obtain ⟨outbound, inbound⟩ :=
    consistent.indices_eq keyed.isConsistent_ofSnapshot keyed.channels_ofSnapshot
  refine ⟨keyed, fun a b scid => ⟨?_, ?_⟩, ⟨consistent.outbound, consistent.inbound⟩,
    fun a b => ⟨consistent.nodup_between a b, fun _ => consistent.mem_between⟩,
    keyed.channels_ofSnapshot, rfl, outbound, inbound, keyed.snapshot_ofSnapshot⟩
  · rw [consistent.indexed.mem_outbound, consistent.indexed.mem_inbound]
  · rw [consistent.indexed.mem_outbound, keyed.joins_iff]

/-! ### A ferry -/

/-- A record of the ferry between `A` and `B`. -/
def ferryListed (source destination : String) (satoshis : UInt64) : ListedChannel where
  scid := .ofParts 1 0 0
  source := ⟨source⟩
  destination := ⟨destination⟩
  satoshis
  baseFee := 0
  feePerMillionth := 0
  htlcMinimum := 1
  htlcMaximum := none
  delay := 10
  active := true
  lastUpdate := 0

/-- Both directions are listed, one of them twice, and one is removed again. -/
def ferryEdits : List Edit := [
  .refresh {} [ferryListed "A" "B" 1000, ferryListed "B" "A" 1000, ferryListed "A" "B" 2000] {},
  .renewNames [⟨⟨"A"⟩, some "east"⟩],
  .remove ⟨.ofParts 1 0 0, .one⟩]

def ferry : Graph := ferryEdits.foldl Edit.apply empty

theorem ferry_reached : Reached ferry := by
  unfold ferry ferryEdits
  rw [List.foldl_cons, List.foldl_cons, List.foldl_cons, List.foldl_nil]
  refine .edit _ (.edit _ (.edit _ .empty ?_) ?_) ?_
  all_goals decide +kernel

/-- The ferry leads from `A` to `B` only, and its snapshot leads back to it. -/
theorem ferry_consistent : Reached ferry ∧
    (∃ channel, ferry.between ⟨"A"⟩ ⟨"B"⟩ = [channel]) ∧ ferry.between ⟨"B"⟩ ⟨"A"⟩ = [] ∧
    (ofSnapshot ferry.snapshot).outbound = ferry.outbound ∧
    (ofSnapshot ferry.snapshot).inbound = ferry.inbound := by
  obtain ⟨-, -, -, -, -, -, outbound, inbound, -⟩ := reached_consistent ferry_reached
  exact ⟨ferry_reached, ⟨.ofListed (ferryListed "A" "B" 2000) 2000000, by decide +kernel⟩,
    by decide +kernel, outbound, inbound⟩

end Graph

end Rebalancing
