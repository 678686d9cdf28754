import Mathlib.Data.List.Perm.Basic
import Rebalancing.Proofs.Graph.Edits

/-!
# Additions and removals in any order

Making a link and dropping one alter a single edge each, and what becomes empty goes with
it, so both are done in any order.  Dropping a link that has just been made restores the
adjacency, unless a bucket was empty before.  The same is so of whole graphs: channels with
different ids are added in any order, channels are removed in any order from any graph
whatsoever, and a channel that is added and removed again leaves nothing behind.
-/

namespace Rebalancing

open Std

namespace Links

variable {links : Links} {a b : NodeId} {scid : ShortChannelId}

/-! ## Links -/

/-- Links are made in any order. -/
theorem link_comm (links : Links) (a b a' b' : NodeId) (scid scid' : ShortChannelId) :
    (links.link a b scid).link a' b' scid' = (links.link a' b' scid').link a b scid := by
  refine alter_comm links fun _ peers => congrArg some ?_
  refine alter_comm _ fun _ edge => congrArg some ?_
  refine ExtTreeSet.ext_mem fun other => ?_
  simp only [Option.getD_some, ExtTreeSet.mem_insert]
  exact or_left_comm

/-- So is it if some of them are not made. -/
theorem ite_link_comm (links : Links) (a b a' b' : NodeId) (scid scid' : ShortChannelId)
    (made made' : Bool) :
    (if made then (if made' then links.link a' b' scid' else links).link a b scid
      else if made' then links.link a' b' scid' else links) =
    (if made' then (if made then links.link a b scid else links).link a' b' scid'
      else if made then links.link a b scid else links) := by
  cases made with
  | false => simp only [Bool.false_eq_true, if_false]
  | true =>
    cases made' with
    | false => simp only [Bool.false_eq_true, if_false]
    | true => exact link_comm links a' b' a b scid' scid

/-- An edge that two ids are taken out of may be dropped halfway. -/
theorem bind_nonemptyEdge?_erase (edge : Edge) (scid : ShortChannelId) :
    ((nonemptyEdge? edge).bind fun edge => nonemptyEdge? (edge.erase scid)) =
      nonemptyEdge? (edge.erase scid) := by
  cases h : nonemptyEdge? edge with
  | some kept =>
    obtain ⟨rfl, -⟩ := nonemptyEdge?_eq_some.mp h
    rfl
  | none =>
    have empty : edge = ∅ := by
      by_contra ne
      exact Option.some_ne_none _ ((nonemptyEdge?_eq_some.mpr ⟨rfl, ne⟩).symm.trans h)
    subst empty
    simp [nonemptyEdge?]

/-- So may the peers of a node that two edges are changed of. -/
theorem bind_nonemptyPeers?_alter (peers : ExtTreeMap NodeId Edge) (b : NodeId)
    {change : Option Edge → Option Edge} (none : change none = none) :
    ((nonemptyPeers? peers).bind fun peers => nonemptyPeers? (peers.alter b change)) =
      nonemptyPeers? (peers.alter b change) := by
  cases h : nonemptyPeers? peers with
  | some kept =>
    obtain ⟨rfl, -⟩ := nonemptyPeers?_eq_some.mp h
    rfl
  | none =>
    have empty : peers = ∅ := by
      by_contra ne
      exact Option.some_ne_none _ ((nonemptyPeers?_eq_some.mpr ⟨rfl, ne⟩).symm.trans h)
    have unchanged : (∅ : ExtTreeMap NodeId Edge).alter b change = ∅ := by
      refine ExtTreeMap.ext_getElem? fun other => ?_
      rw [ExtTreeMap.getElem?_alter]
      split
      next => simp [none]
      next => rfl
    rw [empty, unchanged]
    simp [nonemptyPeers?]

/-- Links are dropped in any order. -/
theorem unlink_comm (links : Links) (a b a' b' : NodeId) (scid scid' : ShortChannelId) :
    (links.unlink a b scid).unlink a' b' scid' = (links.unlink a' b' scid').unlink a b scid := by
  refine alter_comm links fun _ peers => ?_
  cases peers with
  | none => simp only [Option.bind_none]
  | some peers =>
    rw [Option.bind_some, Option.bind_some, bind_nonemptyPeers?_alter _ _ rfl,
      bind_nonemptyPeers?_alter _ _ rfl]
    refine congrArg nonemptyPeers? (alter_comm peers fun _ edge => ?_)
    cases edge with
    | none => simp only [Option.bind_none]
    | some edge =>
      rw [Option.bind_some, Option.bind_some, bind_nonemptyEdge?_erase, bind_nonemptyEdge?_erase]
      refine congrArg nonemptyEdge? (ExtTreeSet.ext_mem fun other => ?_)
      simp only [ExtTreeSet.mem_erase]
      exact and_left_comm

/-- Dropping a link that has just been made restores the adjacency. -/
theorem IsTrim.unlink_link (trim : links.IsTrim) (new : scid ∉ links.edge a b) :
    (links.link a b scid).unlink a b scid = links := by
  refine trim.link.unlink.ext trim fun a' b' scid' => ?_
  rw [mem_edge_unlink, mem_edge_link]
  by_cases same : a' = a ∧ b' = b ∧ scid' = scid
  · obtain ⟨rfl, rfl, rfl⟩ := same
    simp [new]
  · simp [same]

end Links

namespace Graph

variable {graph graph' : Graph} {channel first second : Channel} {id : ChannelId}
  {channels channels' : List Channel} {ids ids' : List ChannelId}

/-- A graph is what it stores and how that is indexed, with the names and the last listing. -/
theorem ext_channel? (channels : ∀ id, graph.channel? id = graph'.channel? id)
    (outbound : graph.outbound = graph'.outbound) (inbound : graph.inbound = graph'.inbound)
    (names : graph.names = graph'.names) (listed : graph.listed = graph'.listed) :
    graph = graph' := by
  have channels : graph.channels = graph'.channels := ExtTreeMap.ext_getElem? channels
  cases graph
  cases graph'
  simp_all

/-! ## Additions -/

theorem outbound_add (graph : Graph) (channel : Channel) : (graph.add channel).outbound =
    if graph.isNew channel then
      graph.outbound.link channel.source channel.destination channel.scid
    else graph.outbound := by
  unfold add
  split <;> rfl

theorem inbound_add (graph : Graph) (channel : Channel) : (graph.add channel).inbound =
    if graph.isNew channel then
      graph.inbound.link channel.destination channel.source channel.scid
    else graph.inbound := by
  unfold add
  split <;> rfl

/-- Whether a channel is new does not depend on channels with other ids. -/
theorem isNew_add (graph : Graph) (ne : first.id ≠ second.id) :
    (graph.add second).isNew first = graph.isNew first := by
  rw [Bool.eq_iff_iff, isNew_iff, isNew_iff, channel?_add, if_neg ne]

/-- Channels with different ids are added in any order. -/
theorem add_comm (graph : Graph) (ne : first.id ≠ second.id) :
    (graph.add second).add first = (graph.add first).add second := by
  refine ext_channel? (fun id => ?_) ?_ ?_ ?_ ?_
  · simp only [channel?_add]
    by_cases h : id = first.id
    · rw [if_pos h, if_neg (h ▸ ne), if_pos h]
    · rw [if_neg h, if_neg h]
  · simp only [outbound_add, isNew_add graph ne, isNew_add graph ne.symm]
    exact Links.ite_link_comm _ _ _ _ _ _ _ _ _
  · simp only [inbound_add, isNew_add graph ne, isNew_add graph ne.symm]
    exact Links.ite_link_comm _ _ _ _ _ _ _ _ _
  · simp only [names_add]
  · simp only [listed_add]

/-- So is a whole list of them. -/
theorem addAll_perm (graph : Graph) (distinct : (channels.map (·.id)).Nodup)
    (perm : channels.Perm channels') : graph.addAll channels = graph.addAll channels' := by
  refine perm.foldl_eq' (fun first hfirst second hsecond graph => ?_) graph
  by_cases same : second.id = first.id
  · cases List.inj_on_of_nodup_map distinct hsecond hfirst same
    rfl
  · exact add_comm graph same

/-! ## Removals -/

/-- Nothing is removed under an id that is not stored. -/
theorem remove_of_unstored (unstored : graph.channel? id = none) : graph.remove id = graph := by
  rw [remove, unstored]

/-- Channels are removed in any order, whatever the indices hold. -/
theorem remove_comm (graph : Graph) (id id' : ChannelId) :
    (graph.remove id).remove id' = (graph.remove id').remove id := by
  by_cases same : id = id'
  · rw [same]
  have kept : (graph.remove id).channel? id' = graph.channel? id' := by
    rw [channel?_remove, if_neg (Ne.symm same)]
  have kept' : (graph.remove id').channel? id = graph.channel? id := by
    rw [channel?_remove, if_neg same]
  cases stored : graph.channel? id with
  | none => rw [remove_of_unstored stored, remove_of_unstored (kept'.trans stored)]
  | some channel =>
    cases stored' : graph.channel? id' with
    | none => rw [remove_of_unstored stored', remove_of_unstored (kept.trans stored')]
    | some channel' =>
      refine ext_channel? (fun other => ?_) ?_ ?_ ?_ ?_
      · simp only [channel?_remove]
        by_cases h : other = id'
        · simp [h]
        · simp [h]
      · rw [outbound_remove (kept.trans stored'), outbound_remove stored,
          outbound_remove (kept'.trans stored), outbound_remove stored', Links.unlink_comm]
      · rw [inbound_remove (kept.trans stored'), inbound_remove stored,
          inbound_remove (kept'.trans stored), inbound_remove stored', Links.unlink_comm]
      · simp only [names_remove]
      · simp only [listed_remove]

theorem foldl_remove_perm (graph : Graph) (perm : ids.Perm ids') :
    ids.foldl remove graph = ids'.foldl remove graph :=
  perm.foldl_eq' (fun id _ id' _ graph => remove_comm graph id id') graph

/-! ## An addition and its removal -/

/-- An indexed graph does not hold a channel between its endpoints before it is added. -/
theorem IsIndexed.not_mem_edge (indexed : graph.IsIndexed)
    (unstored : graph.channel? channel.id = none) :
    channel.scid ∉ graph.outbound.edge channel.source channel.destination ∧
      channel.scid ∉ graph.inbound.edge channel.destination channel.source := by
  rw [indexed.mem_outbound, indexed.mem_inbound, and_self]
  rintro ⟨known, stored, -⟩
  exact Option.some_ne_none known (stored.symm.trans unstored)

/-- A channel that is added and removed again leaves nothing behind. -/
theorem remove_add (indexed : graph.IsIndexed) (outbound : graph.outbound.IsTrim)
    (inbound : graph.inbound.IsTrim) (unstored : graph.channel? channel.id = none) :
    (graph.add channel).remove channel.id = graph := by
  obtain ⟨hout, hin⟩ := indexed.not_mem_edge unstored
  have stored : (graph.add channel).channel? channel.id = some channel := by
    rw [channel?_add, if_pos rfl]
  have new : graph.isNew channel := isNew_iff.mpr unstored
  refine ext_channel? (fun id => ?_) ?_ ?_ ?_ ?_
  · rw [channel?_remove, channel?_add]
    by_cases h : id = channel.id
    · rw [if_pos h, h, unstored]
    · rw [if_neg h, if_neg h]
  · rw [outbound_remove stored, outbound_add, if_pos new, outbound.unlink_link hout]
  · rw [inbound_remove stored, inbound_add, if_pos new, inbound.unlink_link hin]
  · rw [names_remove, names_add]
  · rw [listed_remove, listed_add]

/-- **Adding and removing.**  In an indexed graph without empty buckets a channel with an unknown id
that is added is what is stored under its id, and removing it again restores the graph, with its
indices.  A snapshot of channels with different ids leads to the same graph whatever the order of
the channels is. -/
theorem additions_reversible :
    (∀ (graph : Graph) (channel : Channel), graph.IsIndexed → graph.outbound.IsTrim →
      graph.inbound.IsTrim → graph.channel? channel.id = none →
      (graph.add channel).channel? channel.id = some channel ∧
        (graph.add channel).remove channel.id = graph) ∧
    ∀ snapshot snapshot' : Snapshot, (snapshot.channels.map (·.id)).Nodup →
      snapshot.channels.Perm snapshot'.channels → snapshot.names = snapshot'.names →
      ofSnapshot snapshot = ofSnapshot snapshot' := by
  constructor
  · intro graph channel indexed outbound inbound unstored
    refine ⟨?_, remove_add indexed outbound inbound unstored⟩
    rw [channel?_add, if_pos rfl]
  · intro snapshot snapshot' distinct perm names
    rw [ofSnapshot, ofSnapshot, addAll_perm empty distinct perm, names]

/-- A direction of the ferry. -/
def ferryChannel (source destination : String) : Channel :=
  .ofListed (ferryListed source destination 1000) 0

/-- The way back of the ferry can be added and removed again, and it may stand in front of the other
one in a snapshot. -/
theorem ferry_additions_reversible :
    ferry.channel? (ferryChannel "B" "A").id = none ∧
    (ferry.add (ferryChannel "B" "A")).remove (ferryChannel "B" "A").id = ferry ∧
    ofSnapshot ⟨[ferryChannel "B" "A", ferryChannel "A" "B"], ∅⟩ =
      ofSnapshot ⟨[ferryChannel "A" "B", ferryChannel "B" "A"], ∅⟩ := by
  have consistent := ferry_reached.isConsistent
  have unstored : ferry.channel? (ferryChannel "B" "A").id = none := by decide +kernel
  have distinct : ([ferryChannel "B" "A", ferryChannel "A" "B"].map (·.id)).Nodup := by
    decide +kernel
  refine ⟨unstored, ?_, ?_⟩
  · exact (additions_reversible.1 ferry _ consistent.indexed consistent.outbound
      consistent.inbound unstored).2
  · exact additions_reversible.2 ⟨_, ∅⟩ ⟨_, ∅⟩ distinct (.swap _ _ _) rfl

end Graph

end Rebalancing
