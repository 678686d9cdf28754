import Mathlib.Data.List.Nodup
import Rebalancing.Graph.Snapshot
import Rebalancing.Proofs.Graph.Refresh
import Rebalancing.Proofs.Maps

/-!
# Records under their own ids

Every operation stores a record under the id that the record itself has, whatever is stored
there already.  That is all a snapshot needs: the records that it lists come back under the
same ids when it is loaded, so a graph is found again in its snapshot.
-/

namespace Rebalancing

open Std

namespace Graph

variable {graph : Graph}

theorem isKeyed_empty : empty.IsKeyed := by
  intro id channel h
  simp [empty, channel?] at h

/-- Graphs with the same records are alike in this. -/
theorem IsKeyed.congr {graph' : Graph} (keyed : graph.IsKeyed)
    (same : ∀ id, graph'.channel? id = graph.channel? id) : graph'.IsKeyed :=
  fun id channel h => keyed id channel (same id ▸ h)

theorem IsKeyed.add (keyed : graph.IsKeyed) (channel : Channel) : (graph.add channel).IsKeyed := by
  intro id stored h
  rw [channel?_add] at h
  split at h
  case isTrue hid =>
    cases h
    exact hid.symm
  case isFalse => exact keyed id stored h

theorem IsKeyed.addAll (keyed : graph.IsKeyed) (channels : List Channel) :
    (graph.addAll channels).IsKeyed :=
  List.foldlRecOn channels Graph.add keyed fun _ keyed channel _ => keyed.add channel

theorem IsKeyed.remove (keyed : graph.IsKeyed) (id : ChannelId) : (graph.remove id).IsKeyed := by
  intro other stored h
  rw [channel?_remove] at h
  split at h
  case isTrue => cases h
  case isFalse => exact keyed other stored h

/-- Changing a record in its place leaves it under its id. -/
theorem IsKeyed.modify (keyed : graph.IsKeyed) (changed : ChannelId) {change : Channel → Channel}
    (same : ∀ channel, (change channel).place = channel.place) :
    (graph.modify changed change).IsKeyed := by
  intro id stored h
  rw [channel?_modify] at h
  split at h
  case isTrue =>
    obtain ⟨before, hbefore, rfl⟩ := Option.map_eq_some_iff.mp h
    rw [Channel.id_eq_of_place_eq (same before)]
    exact keyed id before hbefore
  case isFalse => exact keyed id stored h

/-- Taking in a record stores it under its own id, and leaves the other ids as they are. -/
theorem IsKeyed.take (keyed : graph.IsKeyed) (drift : Msat) (listed : ListedChannel) :
    (Refresh.take drift graph listed).IsKeyed := by
  cases valid : listed.isValid with
  | false =>
    rw [Refresh.take_of_not_valid valid]
    exact keyed
  | true =>
    obtain ⟨liquidity, change, same, htake⟩ := Refresh.exists_take_eq drift graph valid
    rw [htake]
    exact (keyed.modify _ same).add _

theorem IsKeyed.record {state : Refresh} (keyed : state.graph.IsKeyed) (aging : Aging)
    (listed : ListedChannel) : (Refresh.record aging state listed).graph.IsKeyed :=
  Refresh.graph_record aging state listed ▸ keyed.take _ listed

theorem IsKeyed.applyListing (keyed : graph.IsKeyed) (aging : Aging) (listing : List ListedChannel)
    (words : WordSupply) : (graph.applyListing aging listing words).graph.IsKeyed := by
  refine applyListing_induction ?_ ?_ ?_ keyed listing words
  · exact fun _ listed keyed => keyed.record aging listed
  · exact fun _ _ keyed => keyed.congr fun _ => rfl
  · exact fun _ id keyed => keyed.remove id

/-! ## Snapshots -/

/-- A loaded graph keeps its records under their own ids, whatever it is loaded from. -/
theorem isKeyed_ofSnapshot (snapshot : Snapshot) : (ofSnapshot snapshot).IsKeyed :=
  (isKeyed_empty.addAll snapshot.channels).congr fun _ => rfl

/-- The entries of a graph that keeps its records under their own ids can be told from the records. -/
theorem IsKeyed.map_values (keyed : graph.IsKeyed) :
    graph.channels.values.map (fun channel => (channel.id, channel)) = graph.channels.toList := by
  rw [values_eq_map_toList, List.map_map]
  conv_rhs => rw [← List.map_id graph.channels.toList]
  refine List.map_congr_left fun entry mem => ?_
  have hid := keyed entry.1 entry.2 (ExtTreeMap.mem_toList_iff_getElem?_eq_some.mp mem)
  exact Prod.ext hid rfl

theorem IsKeyed.nodup_values (keyed : graph.IsKeyed) :
    (graph.channels.values.map (·.id)).Nodup := by
  have h : graph.channels.values.map (·.id) = graph.channels.keys := by
    rw [← ExtTreeMap.map_fst_toList_eq_keys, ← keyed.map_values, List.map_map]
    rfl
  rw [h]
  exact graph.channels.nodup_keys

theorem channels_addAll (graph : Graph) (channels : List Channel) :
    (graph.addAll channels).channels =
      graph.channels.insertMany (channels.map fun channel => (channel.id, channel)) := by
  induction channels generalizing graph with
  | nil => simp [addAll]
  | cons channel rest ih =>
    rw [List.map_cons, ExtTreeMap.insertMany_cons, ← channels_add]
    exact ih (graph.add channel)

/-- A graph that keeps its records under their own ids has them again when it is loaded. -/
theorem IsKeyed.channels_ofSnapshot (keyed : graph.IsKeyed) :
    (ofSnapshot graph.snapshot).channels = graph.channels := by
  show (empty.addAll graph.channels.values).channels = graph.channels
  rw [channels_addAll, keyed.map_values]
  exact ExtTreeMap.ofList_eq_insertMany_empty.symm.trans (ofList_toList graph.channels)

/-- So its snapshot is the same. -/
theorem IsKeyed.snapshot_ofSnapshot (keyed : graph.IsKeyed) :
    (ofSnapshot graph.snapshot).snapshot = graph.snapshot := by
  show Snapshot.mk (ofSnapshot graph.snapshot).channels.values graph.names = graph.snapshot
  rw [keyed.channels_ofSnapshot]
  rfl

end Graph

end Rebalancing
