import Mathlib.Algebra.Group.Action.Defs
import Mathlib.Algebra.Order.BigOperators.Group.Finset
import Mathlib.Data.Finset.Prod
import Rebalancing.Proofs.Maps
import Rebalancing.Proofs.Path.Coherent

/-!
# Path searches end

Every step of a search takes a visit out of the queue, and whatever puts one in lowers
the cost of a label by at least one.  There are finitely many labels, one for each
indexed neighbour and layer, so the length of the queue plus the costs of all labels
falls with every step.  It starts out below `Search.fuel`, so a search never runs out of
fuel: it ends with an empty queue or at the source.
-/

namespace Rebalancing

open Std

namespace Search

variable {graph : Graph} {query : Query} {settled settled' : List Label} {search search' : Search}
  {visit : Visit} {rest : List Visit} {label : Label} {peer : NodeId} {channel : Channel}

/-! ## The labels of a search -/

/-- The nodes that have a channel into some node by the inbound index. -/
def neighbours (graph : Graph) : List NodeId := graph.inbound.values.flatMap (·.keys)

/-- The labels that a search may put a price on, the one it starts from apart. -/
def labels (graph : Graph) (query : Query) : Finset Label :=
  ((neighbours graph).toFinset ×ˢ Finset.range (query.maxHops + 1)).image fun (node, layer) =>
    ⟨node, layer⟩

theorem mem_neighbours {node : NodeId} (h : (peer, channel) ∈ query.edges graph node) :
    peer ∈ neighbours graph := by
  obtain ⟨-, -, scid, hscid, -⟩ := Query.mem_edges.mp h
  rw [Links.edge, ExtTreeMap.getD_eq_getD_getElem?, ExtTreeMap.getD_eq_getD_getElem?] at hscid
  cases hpeers : graph.inbound[node]? with
  | none => simp [hpeers] at hscid
  | some peers =>
    cases hedge : peers[peer]? with
    | none => simp [hpeers, hedge] at hscid
    | some edge =>
      refine List.mem_flatMap.mpr ⟨peers, ?_, ?_⟩
      · rw [values_eq_map_toList]
        exact List.mem_map_of_mem (ExtTreeMap.mem_toList_iff_getElem?_eq_some.mpr hpeers)
      · exact ExtTreeMap.mem_keys.mpr (ExtTreeMap.mem_iff_isSome_getElem?.mpr (hedge ▸ rfl))

theorem before_mem_labels (edge : (peer, channel) ∈ query.edges graph visit.node)
    (notFull : query.isFull visit.hops = false) :
    query.before peer (query.labelOf visit) ∈ labels graph query := by
  rw [query.before_labelOf]
  refine Finset.mem_image.mpr ⟨(peer, query.layer (visit.hops + 1)), ?_, rfl⟩
  refine Finset.mem_product.mpr ⟨List.mem_toFinset.mpr (mem_neighbours edge), ?_⟩
  exact Finset.mem_range.mpr (Nat.lt_succ_of_le (Query.layer_le_of_not_full notFull))

theorem card_labels_le (graph : Graph) (query : Query) :
    (labels graph query).card ≤ (neighbours graph).length * (query.maxHops + 1) :=
  calc (labels graph query).card
    _ ≤ ((neighbours graph).toFinset ×ˢ Finset.range (query.maxHops + 1)).card :=
      Finset.card_image_le
    _ = (neighbours graph).toFinset.card * (query.maxHops + 1) := by
      rw [Finset.card_product, Finset.card_range]
    _ ≤ (neighbours graph).length * (query.maxHops + 1) :=
      Nat.mul_le_mul_right _ (List.toFinset_card_le _)

theorem length_neighbours : (neighbours graph).length =
    graph.inbound.values.foldr (fun peers count => peers.size + count) 0 := by
  unfold neighbours
  induction graph.inbound.values with
  | nil => rfl
  | cons peers values ih => simp [ih]

/-! ## The measure -/

/-- What falls with every step. -/
def potential (labels : Finset Label) (search : Search) : Nat :=
  search.queue.length + ∑ label ∈ labels, (search.costOf label).toNat

theorem potential_queue (labels : Finset Label) (search : Search)
    (pick : Visit.IsPick search.queue visit rest) :
    potential labels { search with queue := rest } + 1 = potential labels search := by
  have hlength := pick.perm.length_eq
  rw [List.length_cons] at hlength
  simp only [potential, hlength]
  change _ + ∑ label ∈ labels, (search.costOf label).toNat + 1 = _
  omega

/-- An accepted offer puts one visit in and takes at least one off a cost. -/
theorem potential_improve_le {labels : Finset Label} {hop : Hop} (mem : label ∈ labels)
    (better : visit.cost < search.costOf label) :
    potential labels (search.improve label hop visit) ≤ potential labels search := by
  have hlt : ∑ other ∈ labels, ((search.improve label hop visit).costOf other).toNat <
      ∑ other ∈ labels, (search.costOf other).toNat := by
    refine Finset.sum_lt_sum (fun other _ => ?_) ⟨label, mem, ?_⟩
    · exact UInt64.le_iff_toNat_le.mp (costOf_improve_le better other)
    · rw [costOf_improve, if_pos rfl]
      exact UInt64.lt_iff_toNat_lt.mp better
  simp only [potential, queue_improve, List.length_cons]
  omega

theorem potential_foldl_le (edges : List (NodeId × Channel))
    (sub : ∀ edge ∈ edges, edge ∈ query.edges graph visit.node)
    (notFull : query.isFull visit.hops = false) (search : Search) :
    potential (labels graph query) (edges.foldl (offer query visit visit.cost) search) ≤
      potential (labels graph query) search := by
  refine foldl_offer_induction
    (motive := fun after => potential (labels graph query) after ≤ potential (labels graph query) search)
    (Nat.le_refl _) fun after peer channel mem better le => Nat.le_trans ?_ le
  exact potential_improve_le (before_mem_labels (sub _ mem) notFull) better

/-- Every turn lowers it. -/
theorem Turn.potential_lt (turn : Turn graph query settled search visit settled' search')
    (coherent : Coherent graph query settled search) :
    potential (labels graph query) search' < potential (labels graph query) search := by
  cases turn with
  | stale pick | full pick => exact Nat.lt_of_succ_le (potential_queue _ search pick).le
  | @expand rest edges pick fresh _ notFull perm =>
    have hpotential := potential_queue (labels graph query) search pick
    have hle := potential_foldl_le edges (fun _ => perm.mem_iff.mp) notFull
      { search with queue := rest }
    rw [coherent.cost_eq pick fresh]
    omega

theorem potential_start_lt : potential (labels graph query) (start query) < fuel graph query := by
  have hsum : ∑ label ∈ labels graph query, ((start query).costOf label).toNat ≤
      (labels graph query).card * 0xffffffffffffffff := by
    rw [← smul_eq_mul]
    refine Finset.sum_le_card_nsmul _ _ _ fun label _ => ?_
    exact UInt64.le_iff_toNat_le.mp (UInt64.le_greatest _)
  have hcard := card_labels_le graph query
  have hqueue : (start query).queue.length = 1 := rfl
  have hlabels := Nat.add_one_mul (neighbours graph).length (query.maxHops + 1)
  rw [potential, fuel, ← length_neighbours, hqueue, Nat.mul_assoc]
  omega

/-! ## How a search ends -/

/-- A search that reaches the source with a visit. -/
structure Reaches (graph : Graph) (query : Query) (settled : List Label) (search : Search)
    (visit : Visit) (rest : List Visit) : Prop where
  explores : Explores graph query settled search
  pick : Visit.IsPick search.queue visit rest
  fresh : ¬ search.costOf (query.labelOf visit) < visit.cost
  source : visit.node = query.source

/-- The tables that a search arrives with. -/
def arrival (query : Query) (search : Search) (visit : Visit) (rest : List Visit) : Arrival :=
  ⟨{ search with queue := rest }, query.layer visit.hops, visit.cost⟩

/-- A search takes turns until it reaches the source, or its queue is empty. -/
theorem Explores.exists_turns (h : Explores graph query settled search) {fuel : Nat}
    (enough : potential (labels graph query) search < fuel) :
    ∃ visits settled' search', Turns graph query settled search visits settled' search' ∧
      ((search'.queue = [] ∧ run graph query fuel search = none) ∨
        ∃ visit rest, Reaches graph query settled' search' visit rest ∧
          run graph query fuel search = some (search'.arrival query visit rest)) := by
  induction fuel generalizing settled search with
  | zero => exact absurd enough (Nat.not_lt_zero _)
  | succ fuel ih =>
    -- One turn, and the turns of a run on what it leads to.
    have more {visit : Visit} {settled' : List Label} {search' : Search}
        (turn : Turn graph query settled search visit settled' search') :
        ∃ visits settled'' search'', Turns graph query settled search visits settled'' search'' ∧
          ((search''.queue = [] ∧ run graph query fuel search' = none) ∨
            ∃ visit rest, Reaches graph query settled'' search'' visit rest ∧
              run graph query fuel search' = some (search''.arrival query visit rest)) := by
      have lower := turn.potential_lt h.coherent
      obtain ⟨_, _, _, turns, ends⟩ := ih (h.turn turn) (by omega)
      exact ⟨_, _, _, .more turn turns, ends⟩
    unfold run
    cases hpick : Visit.takeCheapest search.queue with
    | none =>
      exact ⟨_, _, _, .none, .inl ⟨Visit.takeCheapest_eq_none.mp hpick, rfl⟩⟩
    | some pair =>
      obtain ⟨visit, rest⟩ := pair
      have pick := Visit.isPick_of_takeCheapest hpick
      simp only [settle]
      split_ifs with stale source full
      · exact more (.stale pick stale)
      · exact ⟨_, _, _, .none, .inr ⟨visit, rest, ⟨h, pick, stale, source⟩, rfl⟩⟩
      · exact more (.full pick stale source full)
      · have notFull : query.isFull visit.hops = false := by simpa using full
        exact more (.expand pick stale source notFull (List.Perm.refl _))

/-- A search ends at the source, or with an empty queue. -/
theorem Explores.exists_end (h : Explores graph query settled search) {fuel : Nat}
    (enough : potential (labels graph query) search < fuel) :
    (∃ settled search', Explores graph query settled search' ∧ search'.queue = [] ∧
      run graph query fuel search = none) ∨
    ∃ settled search' visit rest, Reaches graph query settled search' visit rest ∧
      run graph query fuel search = some (search'.arrival query visit rest) := by
  obtain ⟨_, settled', search', turns, ⟨empty, hrun⟩ | ⟨visit, rest, reaches, hrun⟩⟩ :=
    h.exists_turns enough
  · exact .inl ⟨settled', search', h.turns turns, empty, hrun⟩
  · exact .inr ⟨settled', search', visit, rest, reaches, hrun⟩

end Search

end Rebalancing
