import Rebalancing.Proofs.Graph.Edits

/-!
# Traces of removed channels

A channel is taken out of the indices under the endpoints of its record.  That is where it
was put in, unless a record with other endpoints has taken the place of the one stored: such
a record moves the id, and the indices are left as they are.  So an id that is not stored
any more leaves no trace in the indices if it has never been moved, whatever has been done
to the other ids.  An id that is moved and then removed stays in the indices where it was
first, and the nodes there stay known.
-/

namespace Rebalancing

open Std

namespace Graph

variable {graph : Graph} {id : ChannelId} {node : NodeId} {edits : List Edit}

/-- An index holds the short channel id in a bucket of the direction. -/
def Indexes (graph : Graph) (id : ChannelId) : Prop :=
  ∃ a b, .between a b = id.direction ∧
    (id.scid ∈ graph.outbound.edge a b ∨ id.scid ∈ graph.inbound.edge b a)

/-- No edit puts a record with other endpoints in the place of the one stored under the id. -/
def Edit.Unmoved (id : ChannelId) : Graph → List Edit → Prop
  | _, [] => True
  | graph, edit :: rest => edit.KeepsEndsAt graph id ∧ Unmoved id (edit.apply graph) rest

instance Edit.decidableUnmoved (id : ChannelId) :
    (graph : Graph) → (edits : List Edit) → Decidable (Unmoved id graph edits)
  | _, [] => .isTrue trivial
  | graph, edit :: rest =>
    have := decidableUnmoved id (edit.apply graph) rest
    inferInstanceAs (Decidable (_ ∧ _))

/-! ## Runs of edits -/

theorem IsTidy.editAll (tidy : graph.IsTidy) (edits : List Edit) :
    (edits.foldl Edit.apply graph).IsTidy :=
  List.foldlRecOn edits Edit.apply tidy fun _ tidy edit _ => tidy.edit edit

/-- An id that no edit moves is left in its place. -/
theorem IsPlaced.editAll (placed : graph.IsPlaced id) (tidy : graph.IsTidy)
    (unmoved : Edit.Unmoved id graph edits) : (edits.foldl Edit.apply graph).IsPlaced id := by
  induction edits generalizing graph with
  | nil => exact placed
  | cons edit rest ih =>
    exact ih (placed.edit tidy.keyed edit unmoved.1) (tidy.edit edit) unmoved.2

/-! ## What the indices hold -/

/-- In a tidy graph it does not matter which index is asked. -/
theorem IsTidy.indexes_iff (tidy : graph.IsTidy) :
    graph.Indexes id ↔ ∃ a b, .between a b = id.direction ∧ id.scid ∈ graph.outbound.edge a b := by
  simp only [Indexes, ← tidy.mirrored, or_self]

/-- An id in its place is not indexed if it is not stored. -/
theorem IsPlaced.not_indexes (placed : graph.IsPlaced id) (tidy : graph.IsTidy)
    (unstored : graph.channel? id = none) : ¬ graph.Indexes id := by
  rw [tidy.indexes_iff]
  rintro ⟨a, b, hdirection, mem⟩
  obtain ⟨channel, stored, -⟩ := (placed a b hdirection).mp mem
  rw [hdirection] at stored
  exact Option.some_ne_none channel (stored.symm.trans unstored)

/-- A node is known if a bucket with a channel is its own, or leads to it. -/
theorem containsNode_of_mem_edge {a b : NodeId} {scid : ShortChannelId} (tidy : graph.IsTidy)
    (mem : scid ∈ graph.outbound.edge a b) : graph.containsNode a ∧ graph.containsNode b := by
  unfold containsNode
  rw [Bool.or_eq_true, Bool.or_eq_true]
  constructor
  · exact .inl (ExtTreeMap.contains_iff_mem.mpr (Links.mem_of_mem_edge mem))
  · exact .inr (ExtTreeMap.contains_iff_mem.mpr
      (Links.mem_of_mem_edge ((tidy.mirrored a b scid).mp mem)))

/-- In a tidy graph no other nodes are known. -/
theorem IsTidy.exists_mem_edge (tidy : graph.IsTidy) (known : graph.containsNode node) :
    ∃ a b scid, (node = a ∨ node = b) ∧ scid ∈ graph.outbound.edge a b := by
  unfold containsNode at known
  rw [Bool.or_eq_true, ExtTreeMap.contains_iff_mem, ExtTreeMap.contains_iff_mem] at known
  rcases known with known | known
  · obtain ⟨b, scid, mem⟩ := tidy.outbound.exists_mem_edge known
    exact ⟨node, b, scid, .inl rfl, mem⟩
  · obtain ⟨a, scid, mem⟩ := tidy.inbound.exists_mem_edge known
    exact ⟨a, node, scid, .inr rfl, (tidy.mirrored a node scid).mpr mem⟩

/-- A channel that takes the place of one with other endpoints and is then removed stays in the
indices under the endpoints of the one before it. -/
theorem IsPlaced.mem_edge_of_moved (tidy : graph.IsTidy) {known channel : Channel}
    (placed : graph.IsPlaced channel.id) (stored : graph.channel? channel.id = some known)
    (moved : ¬ (known.source = channel.source ∧ known.destination = channel.destination)) :
    channel.scid ∈ ((graph.add channel).remove channel.id).outbound.edge known.source
      known.destination := by
  have hid : known.id = channel.id := tidy.keyed channel.id known stored
  have hdirection : .between known.source known.destination = channel.id.direction :=
    congrArg ChannelId.direction hid
  have mem : channel.scid ∈ graph.outbound.edge known.source known.destination := by
    refine (placed _ _ hdirection).mpr ⟨known, ?_, rfl, rfl⟩
    rw [hdirection]
    exact stored
  have hnew : graph.isNew channel = false := by
    rw [Bool.eq_false_iff, ne_eq, isNew_iff, stored]
    exact Option.some_ne_none known
  have hadd : (graph.add channel).outbound = graph.outbound := by
    rw [Graph.add, if_neg (by simp [hnew])]
  have hstored : (graph.add channel).channel? channel.id = some channel := by
    rw [channel?_add, if_pos rfl]
  rw [outbound_remove hstored, hadd, Links.mem_edge_unlink]
  exact ⟨fun same => moved ⟨same.1, same.2.1⟩, mem⟩

/-- **Traces.**  After any edits an id that has never been moved and is not stored is in no index, and
every known node is an endpoint of a stored channel, or of a bucket with an id that has been moved.
An id that is moved and then removed is still in the indices, and the endpoints that it was moved
from are still known. -/
theorem removed_leaves_no_trace (edits : List Edit) :
    let graph := edits.foldl Edit.apply empty
    (∀ id, Edit.Unmoved id empty edits → graph.channel? id = none → ¬ graph.Indexes id) ∧
    (∀ node, graph.containsNode node →
      (∃ id channel, graph.channel? id = some channel ∧
        (channel.source = node ∨ channel.destination = node)) ∨
      ∃ id a b, ¬ Edit.Unmoved id empty edits ∧ .between a b = id.direction ∧
        id.scid ∈ graph.outbound.edge a b ∧ (node = a ∨ node = b)) ∧
    ∀ known channel : Channel, Edit.Unmoved channel.id empty edits →
      graph.channel? channel.id = some known →
      ¬ (known.source = channel.source ∧ known.destination = channel.destination) →
        let after := (graph.add channel).remove channel.id
        after.channel? channel.id = none ∧ after.Indexes channel.id ∧
          after.containsNode known.source ∧ after.containsNode known.destination := by
  have tidy : (edits.foldl Edit.apply empty).IsTidy := isTidy_empty.editAll edits
  have placed {id : ChannelId} (unmoved : Edit.Unmoved id empty edits) :
      (edits.foldl Edit.apply empty).IsPlaced id :=
    isPlaced_empty.editAll isTidy_empty unmoved
  refine ⟨fun id unmoved => (placed unmoved).not_indexes tidy, ?_, ?_⟩
  · intro node known
    obtain ⟨a, b, scid, hnode, mem⟩ := tidy.exists_mem_edge known
    by_cases unmoved : Edit.Unmoved ⟨scid, .between a b⟩ empty edits
    · obtain ⟨channel, stored, rfl, rfl⟩ := (placed unmoved a b rfl).mp mem
      exact .inl ⟨_, channel, stored, hnode.imp Eq.symm Eq.symm⟩
    · exact .inr ⟨_, a, b, unmoved, rfl, mem, hnode⟩
  · intro known channel unmoved stored moved
    have tidy' := (tidy.add channel).remove channel.id
    have mem := (placed unmoved).mem_edge_of_moved tidy stored moved
    refine ⟨?_, tidy'.indexes_iff.mpr ⟨_, _, ?_, mem⟩, containsNode_of_mem_edge tidy' mem⟩
    · rw [channel?_remove, if_pos rfl]
    · exact congrArg ChannelId.direction (tidy.keyed channel.id known stored)

/-- The direction of the ferry that is removed has never been moved, and leaves no trace. -/
theorem ferry_leaves_no_trace : Edit.Unmoved ⟨.ofParts 1 0 0, .one⟩ empty ferryEdits ∧
    ferry.channel? ⟨.ofParts 1 0 0, .one⟩ = none ∧ ¬ ferry.Indexes ⟨.ofParts 1 0 0, .one⟩ := by
  have unmoved : Edit.Unmoved ⟨.ofParts 1 0 0, .one⟩ empty ferryEdits := by decide +kernel
  have unstored : ferry.channel? ⟨.ofParts 1 0 0, .one⟩ = none := by decide +kernel
  exact ⟨unmoved, unstored, (removed_leaves_no_trace ferryEdits).1 _ unmoved unstored⟩

/-- The ferry from `A` to `B` is listed with another destination, and then not listed any more. -/
def movedEdits : List Edit := [
  .refresh {} [ferryListed "A" "B" 1000] {},
  .refresh {} [ferryListed "A" "C" 1000] {},
  .refresh {} [] {},
  .prune]

/-- Nothing is stored, but the ferry from `A` to `B` is still in the indices. -/
theorem moved_leaves_trace :
    let graph := movedEdits.foldl Edit.apply empty
    (∀ id, graph.channel? id = none) ∧
      (.ofParts 1 0 0 : ShortChannelId) ∈ graph.outbound.edge ⟨"A"⟩ ⟨"B"⟩ ∧
      (.ofParts 1 0 0 : ShortChannelId) ∈ graph.inbound.edge ⟨"B"⟩ ⟨"A"⟩ ∧
      graph.containsNode ⟨"A"⟩ ∧ graph.containsNode ⟨"B"⟩ := by
  refine ⟨fun id => ?_, ?_, ?_, ?_, ?_⟩
  · have none : (movedEdits.foldl Edit.apply empty).channels = ∅ :=
      ExtTreeMap.isEmpty_iff.mp (by decide +kernel)
    rw [channel?, none]
    exact ExtTreeMap.getElem?_empty
  all_goals decide +kernel

end Graph

end Rebalancing
