import Mathlib.Data.List.Basic
import Rebalancing.Graph.Snapshot

/-!
# Indexed graphs

The two indices of a graph are derived views of its records.  `Graph.IsIndexed`
says that they hold exactly the stored channels, each under its own endpoints.
The empty graph is indexed, and so is every graph that a channel with an unknown
id is added to.
-/

namespace Rebalancing

open Std

namespace Links

/-- Linking an id adds it to one edge and leaves all others alone. -/
theorem mem_edge_link {links : Links} {a b a' b' : NodeId} {scid scid' : ShortChannelId} :
    scid' ∈ (links.link a b scid).edge a' b' ↔
      (a' = a ∧ b' = b ∧ scid' = scid) ∨ scid' ∈ links.edge a' b' := by
  unfold edge link
  rw [ExtTreeMap.getD_alter]
  by_cases ha : a = a'
  · subst ha
    simp only [compare_self, if_true, Option.getD_some]
    rw [ExtTreeMap.getD_alter]
    by_cases hb : b = b'
    · subst hb
      simp only [compare_self, if_true, Option.getD_some, ExtTreeSet.mem_insert,
        LawfulEqCmp.compare_eq_iff_eq, true_and, ExtTreeMap.getD_eq_getD_getElem?,
        eq_comm (a := scid)]
    · simp [hb, Ne.symm hb, ExtTreeMap.getD_eq_getD_getElem?]
  · simp [ha, Ne.symm ha]

end Links

/-- What the indices know of a channel. -/
def Channel.place (channel : Channel) : ShortChannelId × NodeId × NodeId :=
  (channel.scid, channel.source, channel.destination)

theorem Channel.id_eq_of_place_eq {channel channel' : Channel} (h : channel.place = channel'.place) :
    channel.id = channel'.id := by
  simp only [place, Prod.mk.injEq] at h
  simp only [id, direction, h]

namespace Graph

/-- A channel is stored if some key of its direction holds it. -/
def Stores (graph : Graph) (channel : Channel) : Prop :=
  ∃ scid, graph.channel? ⟨scid, channel.direction⟩ = some channel

/-- A record of `scid` that leads from `a` to `b` is stored. -/
def Joins (graph : Graph) (a b : NodeId) (scid : ShortChannelId) : Prop :=
  ∃ channel, graph.channel? ⟨scid, .between a b⟩ = some channel ∧
    channel.source = a ∧ channel.destination = b

/-- Both indices hold exactly the stored channels, under their endpoints. -/
structure IsIndexed (graph : Graph) : Prop where
  mem_outbound (a b : NodeId) (scid : ShortChannelId) :
    scid ∈ graph.outbound.edge a b ↔ graph.Joins a b scid
  mem_inbound (a b : NodeId) (scid : ShortChannelId) :
    scid ∈ graph.inbound.edge b a ↔ graph.Joins a b scid

/-- Every record is stored under its own id. -/
def IsKeyed (graph : Graph) : Prop :=
  ∀ id channel, graph.channel? id = some channel → channel.id = id

/-- No stored channel leads back to where it starts. -/
def IsLoopFree (graph : Graph) : Prop :=
  ∀ id channel, graph.channel? id = some channel → channel.source ≠ channel.destination

/-! ## Own channels -/

/-- A channel that leads away from a node is stored under the id that was asked for. -/
theorem stored_of_outgoing? {graph : Graph} {node : NodeId} {scid : ShortChannelId}
    {channel : Channel} (h : graph.outgoing? node scid = some channel) :
    (∃ direction, graph.channel? ⟨scid, direction⟩ = some channel) ∧ channel.source = node := by
  obtain ⟨direction, -, stored⟩ := List.mem_filterMap.mp (List.mem_of_find?_eq_some h)
  exact ⟨⟨direction, stored⟩, by simpa using List.find?_some h⟩

/-- So is one that leads towards it. -/
theorem stored_of_incoming? {graph : Graph} {node : NodeId} {scid : ShortChannelId}
    {channel : Channel} (h : graph.incoming? node scid = some channel) :
    (∃ direction, graph.channel? ⟨scid, direction⟩ = some channel) ∧
      channel.destination = node := by
  obtain ⟨direction, -, stored⟩ := List.mem_filterMap.mp (List.mem_of_find?_eq_some h)
  exact ⟨⟨direction, stored⟩, by simpa using List.find?_some h⟩

/-! ## Building indexed graphs -/

@[simp] theorem channel?_add (graph : Graph) (channel : Channel) (id : ChannelId) :
    (graph.add channel).channel? id =
      if id = channel.id then some channel else graph.channel? id := by
  unfold channel?
  rw [channels_add, ExtTreeMap.getElem?_insert]
  by_cases h : channel.id = id
  · simp [h]
  · simp [h, Ne.symm h]

theorem isNew_iff {graph : Graph} {channel : Channel} :
    graph.isNew channel ↔ graph.channel? channel.id = none := by
  rw [isNew, channel?, Bool.not_eq_true', ExtTreeMap.contains_eq_isSome_getElem?,
    Option.isSome_eq_false_iff, Option.isNone_iff_eq_none]

/-- The graph without channels is indexed. -/
theorem isIndexed_empty : empty.IsIndexed where
  mem_outbound a b scid := by simp [empty, Links.edge, Joins, channel?]
  mem_inbound a b scid := by simp [empty, Links.edge, Joins, channel?]

/-- A channel with an unknown id joins its own endpoints, and nothing else changes. -/
theorem joins_add {graph : Graph} {channel : Channel} (new : graph.isNew channel) {a b : NodeId}
    {scid : ShortChannelId} : (graph.add channel).Joins a b scid ↔
      (a = channel.source ∧ b = channel.destination ∧ scid = channel.scid) ∨
        graph.Joins a b scid := by
  have unknown : graph.channel? channel.id = none := isNew_iff.mp new
  unfold Joins
  simp only [channel?_add]
  constructor
  · rintro ⟨found, h, rfl, rfl⟩
    split at h
    next hid =>
      cases h
      exact .inl ⟨rfl, rfl, congrArg ChannelId.scid hid⟩
    next => exact .inr ⟨found, h, rfl, rfl⟩
  · rintro (⟨rfl, rfl, rfl⟩ | ⟨found, h, rfl, rfl⟩)
    · exact ⟨channel, by simp [Channel.id, Channel.direction], rfl, rfl⟩
    · refine ⟨found, ?_, rfl, rfl⟩
      rw [if_neg, h]
      intro hid
      rw [hid, unknown] at h
      cases h

/-- Adding a channel with an unknown id keeps a graph indexed. -/
theorem IsIndexed.add {graph : Graph} (indexed : graph.IsIndexed) {channel : Channel}
    (new : graph.isNew channel) : (graph.add channel).IsIndexed where
  mem_outbound a b scid := by
    have h : (graph.add channel).outbound =
        graph.outbound.link channel.source channel.destination channel.scid := by
      simp [Graph.add, new]
    rw [h, Links.mem_edge_link, joins_add new, indexed.mem_outbound]
  mem_inbound a b scid := by
    have h : (graph.add channel).inbound =
        graph.inbound.link channel.destination channel.source channel.scid := by
      simp [Graph.add, new]
    rw [h, Links.mem_edge_link, joins_add new, indexed.mem_inbound]
    tauto

/-- So does adding a list of channels with unknown ids, no two of them the same. -/
theorem IsIndexed.addAll {graph : Graph} (indexed : graph.IsIndexed) {channels : List Channel}
    (distinct : (channels.map (·.id)).Nodup) (new : ∀ channel ∈ channels, graph.isNew channel) :
    (graph.addAll channels).IsIndexed := by
  induction channels generalizing graph with
  | nil => exact indexed
  | cons channel rest ih =>
    obtain ⟨hne, distinct⟩ := List.nodup_cons.mp distinct
    refine ih (indexed.add (new _ List.mem_cons_self)) distinct fun other h => ?_
    rw [isNew_iff, channel?_add, if_neg, ← isNew_iff]
    · exact new other (List.mem_cons_of_mem _ h)
    · exact fun hid => hne (List.mem_map.mpr ⟨other, h, hid⟩)

/-- What is stored after a list of channels has been added is one of them, or was stored before. -/
theorem mem_of_channel?_addAll {graph : Graph} {channels : List Channel} {id : ChannelId}
    {channel : Channel} (h : (graph.addAll channels).channel? id = some channel) :
    channel ∈ channels ∨ graph.channel? id = some channel := by
  induction channels generalizing graph with
  | nil => exact .inr h
  | cons first rest ih =>
    rcases ih h with h | h
    · exact .inl (List.mem_cons_of_mem _ h)
    · rw [channel?_add] at h
      split at h
      next =>
        cases h
        exact .inl List.mem_cons_self
      next => exact .inr h

/-- Nothing else is stored if there was nothing before. -/
theorem mem_of_channel?_empty_addAll {channels : List Channel} {id : ChannelId} {channel : Channel}
    (h : (empty.addAll channels).channel? id = some channel) : channel ∈ channels := by
  rcases mem_of_channel?_addAll h with h | h
  · exact h
  · simp [channel?, empty] at h

end Graph

end Rebalancing
