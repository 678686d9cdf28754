import Rebalancing.Proofs.Path.Coherent
import Rebalancing.Proofs.Path.Walk

/-!
# Reading a path off the tables

In an indexed graph the table of a search leads from every label with a price along a
way to the destination, at that price.  A hop was recorded from a label that was
settled before, so the way is no longer than the list of settled labels, and the steps
that `Search.Arrival.path?` takes suffice.
-/

namespace Rebalancing

open Std

namespace Search

variable {graph : Graph} {query : Query} {settled : List Label} {search : Search}
  {visit : Visit} {rest : List Visit} {label : Label}

/-- The table leads from a label along `channels`. -/
structure Leads (graph : Graph) (query : Query) (search : Search) (label : Label)
    (channels : List Channel) : Prop where
  way : query.IsWay graph label.node channels
  carried : search.carried query label = query.carried channels
  cost : (search.costOf label).toNat = Hop.feeSum (query.hopsOver channels)
  trace : ∀ steps, channels.length ≤ steps →
    trace query search.hops steps label = some (query.hopsOver channels)

/-- The table leads nowhere from where the search started. -/
theorem Coherent.leads_origin (coherent : Coherent graph query settled search) :
    Leads graph query search query.origin [] where
  way := Query.isWay_nil
  carried := by
    rw [Search.carried, coherent.hops_destination query.origin rfl]
    rfl
  cost := by
    rw [coherent.cost_origin]
    rfl
  trace _ _ := trace_destination rfl

/-- From a label the table leads to the one that its hop was recorded from. -/
theorem Recorded.next_eq {hop : Hop} {behind : Label}
    (recorded : Recorded graph query search label hop behind) (indexed : graph.IsIndexed)
    (layer : query.layer behind.layer = behind.layer) :
    (⟨hop.channel.destination, query.layer (label.layer - 1)⟩ : Label) = behind := by
  obtain ⟨-, -, hdestination, -, -⟩ := (Query.mem_edges_iff indexed).mp recorded.edge
  rw [recorded.label_eq, Query.before, query.layer_sub layer, hdestination]

/-- A recorded hop in front of a way that the table leads along. -/
theorem Leads.cons (coherent : Coherent graph query settled search) (indexed : graph.IsIndexed)
    {hop : Hop} {behind : Label} {channels : List Channel} (found : search.hops[label]? = some hop)
    (recorded : Recorded graph query search label hop behind)
    (finite : search.costOf label < 0xffffffffffffffff)
    (layer : query.layer behind.layer = behind.layer)
    (within : query.maxHops = 0 ∨ channels.length + 1 ≤ query.maxHops)
    (h : Leads graph query search behind channels) :
    Leads graph query search label (hop.channel :: channels) := by
  obtain ⟨stored, hsource, hdestination, permitted, -⟩ :=
    (Query.mem_edges_iff indexed).mp recorded.edge
  have hcarried : query.carried channels = (hop.amount, hop.delay) := by
    rw [← h.carried, recorded.carried]
  have hcost : (search.costOf label).toNat =
      (hop.channel.fee hop.amount).toNat + Hop.feeSum (query.hopsOver channels) := by
    rw [recorded.cost, UInt64.lt_iff_toNat_lt, UInt64.toNat_satAdd, h.cost] at finite
    rw [recorded.cost, UInt64.toNat_satAdd, h.cost]
    simp only [UInt64.reduceToNat] at finite
    omega
  refine { way := Query.isWay_cons.mpr ⟨hdestination ▸ h.way, stored, hsource, within,
             hsource ▸ permitted, ?usable, ?priced⟩
           carried := ?carried, cost := ?cost, trace := ?trace }
  case usable => rw [hcarried]; exact recorded.usable
  case priced =>
    rw [UInt64.lt_iff_toNat_lt, hcost] at finite
    rw [hcarried]
    simp only [UInt64.reduceToNat] at finite ⊢
    omega
  case carried =>
    rw [Search.carried, found, Query.carried_cons, hcarried]
    rfl
  case cost => rw [hcost, Query.feeSum_hopsOver_cons, hcarried]
  case trace =>
    intro steps hsteps
    obtain ⟨steps, rfl⟩ : ∃ n, steps = n + 1 := ⟨steps - 1, by simp at hsteps; omega⟩
    have hnode : label.node ≠ query.destination := fun hl => by
      rw [coherent.hops_destination label hl] at found
      cases found
    rw [trace_some hnode found, recorded.next_eq indexed layer,
      h.trace steps (by simp at hsteps; omega), Query.hopsOver_cons, hcarried]
    rfl

/-- With a hop limit a label's layer is the number of hops behind it. -/
def Deep (query : Query) (label : Label) (channels : List Channel) : Prop :=
  query.maxHops = 0 ∨ channels.length = label.layer

/-- The table leads from every label with a price along a way of that price. -/
theorem Coherent.exists_leads (coherent : Coherent graph query settled search)
    (indexed : graph.IsIndexed) (label : Label)
    (finite : search.costOf label < 0xffffffffffffffff) :
    ∃ channels, Leads graph query search label channels ∧ Deep query label channels ∧
      channels.length ≤ settled.idxOf label := by
  -- Induction on the position of the label among the settled ones.
  generalize hn : settled.idxOf label = n
  induction n using Nat.strongRecOn generalizing label with
  | _ n ih =>
    by_cases horigin : label = query.origin
    · subst horigin
      exact ⟨[], coherent.leads_origin, .inr rfl, Nat.zero_le _⟩
    · obtain ⟨hop, found⟩ := coherent.hops_isSome label finite horigin
      obtain ⟨behind, hbehind, hidx, recorded⟩ := coherent.recorded label hop found
      have hsettled := coherent.isSettled behind hbehind
      obtain ⟨channels, leads, deep, hlength⟩ := ih _ (hn ▸ hidx) behind hsettled.finite rfl
      have hlayer : query.maxHops = 0 ∨
          (label.layer = behind.layer + 1 ∧ label.layer ≤ query.maxHops) := by
        have hle := Query.layer_le_of_not_full recorded.notFull
        by_cases hm : query.maxHops = 0
        · exact .inl hm
        · rw [recorded.label_eq, Query.before]
          refine .inr ⟨?_, hle⟩
          simp only [Query.layer, hm, if_false]
      have within : query.maxHops = 0 ∨ channels.length + 1 ≤ query.maxHops := by
        unfold Deep at deep
        omega
      refine ⟨hop.channel :: channels,
        leads.cons coherent indexed found recorded finite hsettled.layer within, ?_, ?_⟩
      · unfold Deep at *
        rw [List.length_cons]
        omega
      · rw [List.length_cons]
        omega

/-- Settled labels other than the first one have a hop in the table. -/
theorem Coherent.length_settled_le (coherent : Coherent graph query settled search)
    (finite : search.costOf label < 0xffffffffffffffff) (unsettled : label ∉ settled) :
    settled.length ≤ search.hops.size := by
  have hsub : label :: settled ⊆ query.origin :: search.hops.keys := by
    intro other h
    have hfinite : search.costOf other < 0xffffffffffffffff := by
      rcases List.mem_cons.mp h with rfl | h
      · exact finite
      · exact (coherent.isSettled other h).finite
    by_cases ho : other = query.origin
    · exact ho ▸ List.mem_cons_self
    · obtain ⟨hop, found⟩ := coherent.hops_isSome other hfinite ho
      refine List.mem_cons_of_mem _ (ExtTreeMap.mem_keys.mpr ?_)
      exact ExtTreeMap.mem_iff_isSome_getElem?.mpr (found ▸ rfl)
  have hnodup : (label :: settled).Nodup := List.nodup_cons.mpr ⟨unsettled, coherent.nodup⟩
  have hlength := (List.subperm_of_subset hnodup hsub).length_le
  simp only [List.length_cons, ExtTreeMap.length_keys] at hlength
  omega

end Search

end Rebalancing
