import Rebalancing.Proofs.Graph.Keyed
import Rebalancing.Proofs.Graph.Trim

/-!
# Consistent graphs

The records of a graph and its two indices are changed separately.  `Graph.IsTidy` is what
every change keeps: each record is stored under its own id, the indices mirror each other,
and nothing in them is empty.  `Graph.IsPlaced` says of one id that the indices hold it
where its record leads from and to, and nowhere else; that is kept as long as no record is
put in the place of one with other endpoints.  A graph `IsConsistent` if it is tidy and
every id is placed.
-/

namespace Rebalancing

open Std

namespace Graph

variable {graph graph' : Graph} {channel : Channel} {id : ChannelId} {change : Channel → Channel}

/-- Whatever is stored under an id leads from `source` to `destination`. -/
def KeepsEnds (graph : Graph) (id : ChannelId) (source destination : NodeId) : Prop :=
  ∀ known ∈ graph.channel? id, known.source = source ∧ known.destination = destination

instance (graph : Graph) (id : ChannelId) (source destination : NodeId) :
    Decidable (graph.KeepsEnds id source destination) :=
  inferInstanceAs (Decidable (∀ known ∈ graph.channel? id, _))

/-- Sharing the capacity with the opposite direction leaves the endpoints alone. -/
theorem KeepsEnds.modify {source destination : NodeId} (keeps : graph.KeepsEnds id source destination)
    (changed : ChannelId) (same : ∀ channel, (change channel).place = channel.place) :
    (graph.modify changed change).KeepsEnds id source destination := by
  intro known h
  rw [channel?_modify] at h
  split at h
  next =>
    obtain ⟨before, hbefore, rfl⟩ := Option.map_eq_some_iff.mp h
    have hplace := same before
    simp only [Channel.place, Prod.mk.injEq] at hplace
    rw [hplace.2.1, hplace.2.2]
    exact keeps before hbefore
  next => exact keeps known h

/-! ## What every change keeps -/

/-- Every record is stored under its own id, the indices mirror each other, and nothing in them is
empty. -/
structure IsTidy (graph : Graph) : Prop where
  keyed : graph.IsKeyed
  mirrored (a b : NodeId) (scid : ShortChannelId) :
    scid ∈ graph.outbound.edge a b ↔ scid ∈ graph.inbound.edge b a
  outbound : graph.outbound.IsTrim
  inbound : graph.inbound.IsTrim

theorem isTidy_empty : empty.IsTidy where
  keyed := isKeyed_empty
  mirrored a b scid := by simp [empty, Links.edge]
  outbound := Links.isTrim_empty
  inbound := Links.isTrim_empty

theorem IsTidy.modify (tidy : graph.IsTidy) (changed : ChannelId)
    (same : ∀ channel, (change channel).place = channel.place) :
    (graph.modify changed change).IsTidy :=
  { tidy with keyed := tidy.keyed.modify changed same }

theorem IsTidy.add (tidy : graph.IsTidy) (channel : Channel) : (graph.add channel).IsTidy := by
  cases hnew : graph.isNew channel with
  | false =>
    have hadd : graph.add channel =
        { graph with channels := graph.channels.insert channel.id channel } := by
      rw [Graph.add, if_neg (by simp [hnew])]
    exact hadd ▸ { tidy with keyed := hadd ▸ tidy.keyed.add channel }
  | true =>
    constructor
    · exact tidy.keyed.add channel
    · intro a b scid
      rw [Graph.add, if_pos hnew, Links.mem_edge_link, Links.mem_edge_link, tidy.mirrored]
      tauto
    · rw [Graph.add, if_pos hnew]
      exact tidy.outbound.link
    · rw [Graph.add, if_pos hnew]
      exact tidy.inbound.link

theorem outbound_remove (stored : graph.channel? id = some channel) :
    (graph.remove id).outbound =
      graph.outbound.unlink channel.source channel.destination channel.scid := by
  simp only [Graph.remove, stored]

theorem inbound_remove (stored : graph.channel? id = some channel) :
    (graph.remove id).inbound =
      graph.inbound.unlink channel.destination channel.source channel.scid := by
  simp only [Graph.remove, stored]

theorem IsTidy.remove (tidy : graph.IsTidy) (id : ChannelId) : (graph.remove id).IsTidy := by
  cases stored : graph.channel? id with
  | none =>
    rw [Graph.remove, stored]
    exact tidy
  | some channel =>
    constructor
    · exact tidy.keyed.remove id
    · intro a b scid
      rw [outbound_remove stored, inbound_remove stored, Links.mem_edge_unlink,
        Links.mem_edge_unlink, tidy.mirrored]
      tauto
    · exact outbound_remove stored ▸ tidy.outbound.unlink
    · exact inbound_remove stored ▸ tidy.inbound.unlink

/-- Taking in a record keeps a graph tidy. -/
theorem IsTidy.take (tidy : graph.IsTidy) (drift : Msat) (listed : ListedChannel) :
    (Refresh.take drift graph listed).IsTidy := by
  cases valid : listed.isValid with
  | false =>
    rw [Refresh.take_of_not_valid valid]
    exact tidy
  | true =>
    obtain ⟨liquidity, change, same, htake⟩ := Refresh.exists_take_eq drift graph valid
    rw [htake]
    exact (tidy.modify _ same).add _

/-! ## Where the indices hold an id -/

/-- The indices hold an id where its record leads from and to, if it is stored, and nowhere else. -/
def IsPlaced (graph : Graph) (id : ChannelId) : Prop :=
  ∀ a b, .between a b = id.direction →
    (id.scid ∈ graph.outbound.edge a b ↔ graph.Joins a b id.scid)

theorem isPlaced_empty : empty.IsPlaced id := by
  intro a b _
  simp [empty, Links.edge, Joins, channel?]

theorem joins_congr {a b : NodeId} {scid : ShortChannelId}
    (same : (graph'.channel? ⟨scid, .between a b⟩).map Channel.place =
      (graph.channel? ⟨scid, .between a b⟩).map Channel.place) :
    graph'.Joins a b scid ↔ graph.Joins a b scid := by
  have joins_iff (graph : Graph) : graph.Joins a b scid ↔
      ∃ scid', (graph.channel? ⟨scid, .between a b⟩).map Channel.place = some (scid', a, b) := by
    unfold Joins Channel.place
    constructor
    · rintro ⟨channel, h, rfl, rfl⟩
      exact ⟨channel.scid, by rw [h]; rfl⟩
    · rintro ⟨scid', h⟩
      obtain ⟨channel, hchannel, hplace⟩ := Option.map_eq_some_iff.mp h
      cases hplace
      exact ⟨channel, hchannel, rfl, rfl⟩
  rw [joins_iff, joins_iff, same]

/-- Changes of records that stay in their place do not matter. -/
theorem IsPlaced.congr (placed : graph.IsPlaced id)
    (same : (graph'.channel? id).map Channel.place = (graph.channel? id).map Channel.place)
    (outbound : graph'.outbound = graph.outbound) : graph'.IsPlaced id := by
  intro a b hdirection
  have same : (graph'.channel? ⟨id.scid, .between a b⟩).map Channel.place =
      (graph.channel? ⟨id.scid, .between a b⟩).map Channel.place := by
    rw [hdirection]
    exact same
  rw [outbound, joins_congr same, placed a b hdirection]

theorem IsPlaced.modify (placed : graph.IsPlaced id) (changed : ChannelId)
    (same : ∀ channel, (change channel).place = channel.place) :
    (graph.modify changed change).IsPlaced id := by
  refine placed.congr ?_ rfl
  rw [channel?_modify]
  split
  next =>
    rw [Option.map_map]
    exact congrArg (fun f => Option.map f _) (funext same)
  next => rfl

/-- Adding a channel leaves an id in its place, if the endpoints of the id stay what they are. -/
theorem IsPlaced.add (placed : graph.IsPlaced id) (keyed : graph.IsKeyed)
    (keeps : channel.id = id → graph.KeepsEnds id channel.source channel.destination) :
    (graph.add channel).IsPlaced id := by
  cases hnew : graph.isNew channel with
  | true =>
    intro a b hdirection
    rw [joins_add hnew, Graph.add, if_pos hnew, Links.mem_edge_link, placed a b hdirection]
  | false =>
    refine placed.congr ?_ (by rw [Graph.add, if_neg (by simp [hnew])])
    rw [channel?_add]
    split
    next hid =>
      subst hid
      have hstored : graph.channel? channel.id ≠ none :=
        fun hnone => Bool.false_ne_true (hnew.symm.trans (isNew_iff.mpr hnone))
      obtain ⟨known, hknown⟩ := Option.ne_none_iff_exists'.mp hstored
      obtain ⟨hsource, hdestination⟩ := keeps rfl known hknown
      have hscid : known.scid = channel.scid := congrArg ChannelId.scid (keyed _ known hknown)
      rw [hknown, Option.map_some, Option.map_some]
      simp only [Channel.place, hscid, hsource, hdestination]
    next => rfl

/-- A channel that has been removed joins its endpoints no longer. -/
theorem joins_remove (keyed : graph.IsKeyed) (stored : graph.channel? id = some channel)
    {a b : NodeId} {scid : ShortChannelId} : (graph.remove id).Joins a b scid ↔
      ¬ (a = channel.source ∧ b = channel.destination ∧ scid = channel.scid) ∧
        graph.Joins a b scid := by
  have hid := keyed id channel stored
  unfold Joins
  simp only [channel?_remove]
  constructor
  · rintro ⟨found, h, rfl, rfl⟩
    split at h
    next => cases h
    next hne =>
      refine ⟨?_, found, h, rfl, rfl⟩
      rintro ⟨hsource, hdestination, rfl⟩
      apply hne
      rw [← hid, Channel.id, Channel.direction, hsource, hdestination]
  · rintro ⟨hplace, found, h, rfl, rfl⟩
    refine ⟨found, ?_, rfl, rfl⟩
    rw [if_neg, h]
    intro heq
    rw [heq, stored] at h
    cases h
    exact hplace ⟨rfl, rfl, (congrArg ChannelId.scid (heq.trans hid.symm))⟩

/-- Removing a channel leaves every id in its place. -/
theorem IsPlaced.remove (placed : graph.IsPlaced id) (keyed : graph.IsKeyed) (removed : ChannelId) :
    (graph.remove removed).IsPlaced id := by
  cases stored : graph.channel? removed with
  | none =>
    rw [Graph.remove, stored]
    exact placed
  | some channel =>
    intro a b hdirection
    rw [outbound_remove stored, Links.mem_edge_unlink, joins_remove keyed stored,
      placed a b hdirection]

/-- Taking in a record does so as well, if the endpoints of the id stay what they are. -/
theorem IsPlaced.take (placed : graph.IsPlaced id) (keyed : graph.IsKeyed) (drift : Msat)
    {listed : ListedChannel} (keeps : listed.isValid → listed.id = id →
      graph.KeepsEnds id listed.source listed.destination) :
    (Refresh.take drift graph listed).IsPlaced id := by
  cases valid : listed.isValid with
  | false =>
    rw [Refresh.take_of_not_valid valid]
    exact placed
  | true =>
    obtain ⟨liquidity, change, same, htake⟩ := Refresh.exists_take_eq drift graph valid
    rw [htake]
    refine (placed.modify _ same).add (keyed.modify _ same) ?_
    exact fun hid => (keeps valid hid).modify _ same

/-! ## Consistency -/

/-- The records and the indices of a graph agree, and nothing in the indices is empty. -/
structure IsConsistent (graph : Graph) : Prop where
  keyed : graph.IsKeyed
  indexed : graph.IsIndexed
  outbound : graph.outbound.IsTrim
  inbound : graph.inbound.IsTrim

/-- A tidy graph is consistent if every id is in its place. -/
theorem IsTidy.isConsistent (tidy : graph.IsTidy) (placed : ∀ id, graph.IsPlaced id) :
    graph.IsConsistent where
  keyed := tidy.keyed
  indexed :=
    { mem_outbound := fun a b scid => placed ⟨scid, .between a b⟩ a b rfl
      mem_inbound := fun a b scid => by
        rw [← tidy.mirrored]
        exact placed ⟨scid, .between a b⟩ a b rfl }
  outbound := tidy.outbound
  inbound := tidy.inbound

theorem IsConsistent.isTidy (consistent : graph.IsConsistent) : graph.IsTidy where
  keyed := consistent.keyed
  mirrored a b scid := by
    rw [consistent.indexed.mem_outbound, consistent.indexed.mem_inbound]
  outbound := consistent.outbound
  inbound := consistent.inbound

theorem IsConsistent.isPlaced (consistent : graph.IsConsistent) (id : ChannelId) :
    graph.IsPlaced id :=
  fun a b _ => consistent.indexed.mem_outbound a b id.scid

end Graph

end Rebalancing
