import Rebalancing.Proofs.Graph.Listing
import Rebalancing.Proofs.Graph.Order

/-!
# What a prune leaves

A prune drops the channels that the last listing left out, one after the other.  They are
the stored ones that it did not name, each once, and it does not matter in which order they
go.  What is left is as it was, and nothing of it is stale any more, so a second prune
drops nothing.  The indices of a consistent graph are then those of what is left.
-/

namespace Rebalancing

open Std

namespace Graph

variable {graph : Graph} {id : ChannelId} {seen : ExtTreeSet ChannelId}

/-- Before the first listing nothing is stale. -/
theorem stale_of_unlisted (unlisted : graph.listed = none) : graph.stale = [] := by
  rw [stale, unlisted]

/-- After a listing that is what it left out. -/
theorem mem_stale (listed : graph.listed = some seen) :
    id ∈ graph.stale ↔ (graph.channel? id).isSome ∧ id ∉ seen := by
  rw [stale, listed, List.mem_filter, ExtTreeMap.mem_keys, ← ExtTreeMap.isSome_getElem?_iff_mem,
    channel?, Bool.not_eq_true', ← Bool.not_eq_true, ExtTreeSet.contains_iff_mem]

theorem names_prune (graph : Graph) : graph.prune.names = graph.names :=
  List.foldlRecOn (motive := fun left => left.names = graph.names) graph.stale remove rfl
    fun left same id _ => (names_remove left id).trans same

theorem listed_prune (graph : Graph) : graph.prune.listed = graph.listed :=
  List.foldlRecOn (motive := fun left => left.listed = graph.listed) graph.stale remove rfl
    fun left same id _ => (listed_remove left id).trans same

/-- Nothing that a prune leaves is stale. -/
theorem stale_prune (graph : Graph) : graph.prune.stale = [] := by
  cases listed : graph.listed with
  | none => exact stale_of_unlisted (graph.listed_prune.trans listed)
  | some seen =>
    refine List.eq_nil_iff_forall_not_mem.mpr fun id mem => ?_
    obtain ⟨stored, unseen⟩ := (mem_stale (graph.listed_prune.trans listed)).mp mem
    rw [channel?_prune listed, if_neg unseen] at stored
    exact Bool.false_ne_true stored

theorem prune_of_stale_eq_nil (fresh : graph.stale = []) : graph.prune = graph := by
  rw [prune, fresh]
  rfl

/-- **Pruning.**  Before the first listing a prune drops nothing.  After it a prune leaves exactly the
channels that the last listing named, as they are, with the names and the listing, and drops as many
as are missing then; a consistent graph stays consistent, so that its indices hold exactly what is
left.  A second prune drops nothing, and the order in which channels are dropped does not matter. -/
theorem prune_restricts (graph : Graph) :
    (graph.listed = none → graph.stale = [] ∧ graph.prune = graph) ∧
    (∀ seen, graph.listed = some seen →
      ∀ id, graph.prune.channel? id = if id ∈ seen then graph.channel? id else none) ∧
    (graph.prune.names = graph.names ∧ graph.prune.listed = graph.listed) ∧
    graph.prune.channels.size + graph.stale.length = graph.channels.size ∧
    (graph.IsConsistent → graph.prune.IsConsistent) ∧
    (graph.prune.stale = [] ∧ graph.prune.prune = graph.prune) ∧
    ∀ ids : List ChannelId, ids.Perm graph.stale → ids.foldl remove graph = graph.prune := by
  refine ⟨fun unlisted => ?_, fun seen listed id => channel?_prune listed,
    ⟨graph.names_prune, graph.listed_prune⟩, graph.size_prune,
    fun consistent => consistent.edit .prune fun _ => trivial, ?_,
    fun ids perm => foldl_remove_perm graph perm⟩
  · have fresh := stale_of_unlisted unlisted
    exact ⟨fresh, prune_of_stale_eq_nil fresh⟩
  · exact ⟨graph.stale_prune, prune_of_stale_eq_nil graph.stale_prune⟩

/-- The ferry is listed from `A` to `B` only. -/
def ferryRefresh : Refresh := empty.refresh {} [ferryListed "A" "B" 1000] {}

/-- Its way back and a bridge are added afterwards. -/
def lateFerry : Graph :=
  (ferryRefresh.graph.add (ferryChannel "B" "A")).add
    { ferryChannel "B" "C" with scid := .ofParts 2 0 0 }

theorem lateFerry_isConsistent : lateFerry.IsConsistent :=
  ((isConsistent_empty.edit (.refresh {} [ferryListed "A" "B" 1000] {}) (by decide +kernel)).edit
    (.add (ferryChannel "B" "A")) (by decide +kernel)).edit
    (.add { ferryChannel "B" "C" with scid := .ofParts 2 0 0 }) (by decide +kernel)

/-- A prune drops the way back and the bridge, in either order, and leaves the ferry from `A` to `B`
with its indices. -/
theorem lateFerry_prune_restricts :
    empty.listed = none ∧ empty.prune = empty ∧
    lateFerry.IsConsistent ∧ lateFerry.listed = some ferryRefresh.seen ∧
    lateFerry.stale = [⟨.ofParts 1 0 0, .one⟩, ⟨.ofParts 2 0 0, .zero⟩] ∧
    lateFerry.prune.IsConsistent ∧
    lateFerry.prune.channel? ⟨.ofParts 1 0 0, .one⟩ = none ∧
    lateFerry.prune.channel? ⟨.ofParts 1 0 0, .zero⟩ =
      lateFerry.channel? ⟨.ofParts 1 0 0, .zero⟩ ∧
    (lateFerry.remove ⟨.ofParts 2 0 0, .zero⟩).remove ⟨.ofParts 1 0 0, .one⟩ = lateFerry.prune := by
  have listed : lateFerry.listed = some ferryRefresh.seen :=
    (listed_add _ _).trans (listed_add _ _)
  have stale : lateFerry.stale = [⟨.ofParts 1 0 0, .one⟩, ⟨.ofParts 2 0 0, .zero⟩] := by
    decide +kernel
  have unlisted : empty.listed = none := rfl
  obtain ⟨-, kept, -, -, consistent, -, unordered⟩ := prune_restricts lateFerry
  refine ⟨unlisted, ((prune_restricts empty).1 unlisted).2, lateFerry_isConsistent, listed, stale,
    consistent lateFerry_isConsistent, ?_, ?_, ?_⟩
  · rw [kept _ listed, if_neg (by decide +kernel)]
  · rw [kept _ listed, if_pos (by decide +kernel)]
  · refine unordered [⟨.ofParts 2 0 0, .zero⟩, ⟨.ofParts 1 0 0, .one⟩] ?_
    rw [stale]
    exact .swap _ _ _

end Graph

end Rebalancing
