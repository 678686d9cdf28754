import Mathlib.Data.List.Pairwise
import Rebalancing.Proofs.Path.Way

/-!
# States of a path search

`Search.Explores` holds of every state that a search passes through, whichever of
several visits of least cost it settles first and in whichever order it tries the
channels in front of a node, together with the labels it has settled, in order.

`Search.Coherent` is what all these states have in common.  A settled label costs no
more than any visit still in the queue, and every hop in the table was recorded from
a label that was settled before.  Offering a channel changes only labels that are not
settled, so what was recorded from a settled label stays right.
-/

namespace Rebalancing

open Std

/-! ## Picking a visit -/

/-- A visit of least cost, and the others in any order. -/
structure Visit.IsPick (queue : List Visit) (visit : Visit) (rest : List Visit) : Prop where
  perm : queue.Perm (visit :: rest)
  least : ∀ other ∈ rest, visit.cost ≤ other.cost

namespace Visit

theorem takeCheapest_eq_none {queue : List Visit} : takeCheapest queue = none ↔ queue = [] := by
  cases queue with
  | nil => simp [takeCheapest]
  | cons visit rest =>
    simp only [takeCheapest, reduceCtorEq, iff_false]
    cases takeCheapest rest with
    | none => simp
    | some pair => simp only; split <;> simp

theorem isPick_of_takeCheapest {queue : List Visit} {visit : Visit} {rest : List Visit}
    (h : takeCheapest queue = some (visit, rest)) : IsPick queue visit rest := by
  induction queue generalizing visit rest with
  | nil => simp [takeCheapest] at h
  | cons head tail ih =>
    simp only [takeCheapest] at h
    cases hrest : takeCheapest tail with
    | none =>
      rw [hrest] at h
      cases h
      rw [takeCheapest_eq_none] at hrest
      exact ⟨by rw [hrest], by simp⟩
    | some pair =>
      obtain ⟨least, others⟩ := pair
      obtain ⟨perm, hleast⟩ := ih hrest
      rw [hrest] at h
      simp only at h
      split at h
      next hle =>
        cases h
        refine ⟨List.Perm.refl _, fun other hother => ?_⟩
        rcases List.mem_cons.mp (perm.mem_iff.mp hother) with rfl | hother
        · exact hle
        · exact UInt64.le_trans hle (hleast other hother)
      next hlt =>
        cases h
        refine ⟨(perm.cons head).trans (List.Perm.swap _ _ _), ?_⟩
        exact List.forall_mem_cons.mpr ⟨UInt64.le_of_lt (UInt64.not_le.mp hlt), hleast⟩

theorem IsPick.mem {queue rest : List Visit} {visit : Visit} (h : IsPick queue visit rest) :
    visit ∈ queue := h.perm.mem_iff.mpr List.mem_cons_self

theorem IsPick.mem_of_mem_rest {queue rest : List Visit} {visit other : Visit}
    (h : IsPick queue visit rest) (ho : other ∈ rest) : other ∈ queue :=
  h.perm.mem_iff.mpr (List.mem_cons_of_mem _ ho)

end Visit

/-! ## Labels -/

namespace Query

/-- The label that a visit was queued for. -/
def labelOf (query : Query) (visit : Visit) : Label := ⟨visit.node, query.layer visit.hops⟩

/-- The label that a search starts from. -/
def origin (query : Query) : Label := ⟨query.destination, 0⟩

/-- The label of `peer` one hop before a label. -/
def before (query : Query) (peer : NodeId) (label : Label) : Label :=
  ⟨peer, query.layer (label.layer + 1)⟩

@[simp] theorem node_labelOf (query : Query) (visit : Visit) :
    (query.labelOf visit).node = visit.node := rfl

@[simp] theorem node_before (query : Query) (peer : NodeId) (label : Label) :
    (query.before peer label).node = peer := rfl

theorem layer_layer (query : Query) (n : Nat) : query.layer (query.layer n) = query.layer n := by
  unfold layer; split <;> simp_all

theorem layer_layer_add (query : Query) (n : Nat) :
    query.layer (query.layer n + 1) = query.layer (n + 1) := by
  unfold layer; split <;> simp_all

/-- Going back over a hop leads to the layer that it came from. -/
theorem layer_sub (query : Query) {n : Nat} (h : query.layer n = n) :
    query.layer (query.layer (n + 1) - 1) = n := by
  unfold layer at *; split <;> simp_all

@[simp] theorem isFull_layer (query : Query) (n : Nat) :
    query.isFull (query.layer n) = query.isFull n := by
  unfold isFull layer; split <;> simp_all

theorem layer_le_of_not_full {query : Query} {n : Nat} (h : query.isFull n = false) :
    query.layer (n + 1) ≤ query.maxHops := by
  unfold isFull layer at *
  by_cases hm : query.maxHops = 0
  · simp [hm]
  · simp only [ne_eq, hm, not_false_eq_true, decide_true, Bool.true_and, decide_eq_false_iff_not,
      Nat.not_le, if_neg] at *
    omega

theorem before_labelOf (query : Query) (peer : NodeId) (visit : Visit) :
    query.before peer (query.labelOf visit) = ⟨peer, query.layer (visit.hops + 1)⟩ := by
  rw [before, labelOf, layer_layer_add]

end Query

namespace Search

/-! ## Steps -/

/-- The states of a search, with the labels settled so far. -/
inductive Explores (graph : Graph) (query : Query) : List Label → Search → Prop
  | start : Explores graph query [] (start query)
  /-- A stale visit is dropped. -/
  | stale {settled search visit rest} : Explores graph query settled search →
      Visit.IsPick search.queue visit rest →
      search.costOf (query.labelOf visit) < visit.cost →
      Explores graph query settled { search with queue := rest }
  /-- A visit at the hop limit is settled and not extended. -/
  | full {settled search visit rest} : Explores graph query settled search →
      Visit.IsPick search.queue visit rest →
      ¬ search.costOf (query.labelOf visit) < visit.cost → visit.node ≠ query.source →
      query.isFull visit.hops = true →
      Explores graph query (settled ++ [query.labelOf visit]) { search with queue := rest }
  /-- Any other visit but one of the source is settled and extended by every channel in front. -/
  | expand {settled search visit rest} {edges : List (NodeId × Channel)} :
      Explores graph query settled search → Visit.IsPick search.queue visit rest →
      ¬ search.costOf (query.labelOf visit) < visit.cost → visit.node ≠ query.source →
      query.isFull visit.hops = false → edges.Perm (query.edges graph visit.node) →
      Explores graph query (settled ++ [query.labelOf visit])
        (edges.foldl (offer query visit (search.costOf (query.labelOf visit)))
          { search with queue := rest })

/-- What becomes of a search, and of the labels it has settled, when a visit is taken out of the
queue. -/
inductive Turn (graph : Graph) (query : Query) (settled : List Label) (search : Search)
    (visit : Visit) : List Label → Search → Prop
  /-- A stale visit is dropped. -/
  | stale {rest : List Visit} : Visit.IsPick search.queue visit rest →
      search.costOf (query.labelOf visit) < visit.cost →
      Turn graph query settled search visit settled { search with queue := rest }
  /-- A visit at the hop limit is settled and not extended. -/
  | full {rest : List Visit} : Visit.IsPick search.queue visit rest →
      ¬ search.costOf (query.labelOf visit) < visit.cost → visit.node ≠ query.source →
      query.isFull visit.hops = true →
      Turn graph query settled search visit (settled ++ [query.labelOf visit])
        { search with queue := rest }
  /-- Any other visit but one of the source is settled and extended by every channel in front. -/
  | expand {rest : List Visit} {edges : List (NodeId × Channel)} :
      Visit.IsPick search.queue visit rest →
      ¬ search.costOf (query.labelOf visit) < visit.cost → visit.node ≠ query.source →
      query.isFull visit.hops = false → edges.Perm (query.edges graph visit.node) →
      Turn graph query settled search visit (settled ++ [query.labelOf visit])
        (edges.foldl (offer query visit (search.costOf (query.labelOf visit)))
          { search with queue := rest })

/-- Turns one after another, with the visits taken out. -/
inductive Turns (graph : Graph) (query : Query) :
    List Label → Search → List Visit → List Label → Search → Prop
  | none {settled : List Label} {search : Search} : Turns graph query settled search [] settled search
  | more {settled settled' settled'' : List Label} {search search' search'' : Search} {visit : Visit}
      {visits : List Visit} : Turn graph query settled search visit settled' search' →
      Turns graph query settled' search' visits settled'' search'' →
      Turns graph query settled search (visit :: visits) settled'' search''

variable {graph : Graph} {query : Query} {settled settled' : List Label} {search search' : Search}
  {visit : Visit} {visits rest : List Visit} {label : Label} {peer : NodeId} {channel : Channel}

/-- A turn leads from one state of a search to another. -/
theorem Explores.turn (h : Explores graph query settled search)
    (turn : Turn graph query settled search visit settled' search') :
    Explores graph query settled' search' := by
  cases turn with
  | stale pick stale => exact h.stale pick stale
  | full pick fresh source full => exact h.full pick fresh source full
  | expand pick fresh source notFull perm => exact h.expand pick fresh source notFull perm

theorem Explores.turns (h : Explores graph query settled search)
    (turns : Turns graph query settled search visits settled' search') :
    Explores graph query settled' search' := by
  induction turns with
  | none => exact h
  | more turn _ ih => exact ih (h.turn turn)

/-- What the node of a label has to forward by the table, and the delay that remains. -/
def carried (query : Query) (search : Search) (label : Label) : Msat × UInt32 :=
  Route.entering query.amount 0 search.hops[label]?.toList

/-- Records a cheaper hop for a label. -/
def improve (search : Search) (label : Label) (hop : Hop) (visit : Visit) : Search where
  costs := search.costs.insert label visit.cost
  hops := search.hops.insert label hop
  queue := visit :: search.queue

/-- The visit that a channel in front of a visit leads to. -/
def extend (visit : Visit) (peer : NodeId) (channel : Channel) : Visit where
  node := peer
  cost := visit.cost.satAdd (channel.fee visit.amount)
  amount := visit.amount.satAdd (channel.fee visit.amount)
  delay := visit.delay.satAdd channel.delay
  hops := visit.hops + 1

theorem labelOf_extend : query.labelOf (extend visit peer channel) =
    query.before peer (query.labelOf visit) := (query.before_labelOf peer visit).symm

/-- An offer improves the label in front, or it is too dear or not usable. -/
theorem offer_cases (query : Query) (visit : Visit) (search : Search) (peer : NodeId)
    (channel : Channel) :
    (channel.canUse visit.amount ∧
        (extend visit peer channel).cost < search.costOf (query.before peer (query.labelOf visit)) ∧
        offer query visit visit.cost search (peer, channel) =
          search.improve (query.before peer (query.labelOf visit))
            ⟨channel, visit.amount, visit.delay⟩ (extend visit peer channel)) ∨
      ((channel.canUse visit.amount →
          search.costOf (query.before peer (query.labelOf visit)) ≤
            (extend visit peer channel).cost) ∧
        offer query visit visit.cost search (peer, channel) = search) := by
  simp only [offer, query.before_labelOf]
  split
  next h =>
    simp only [Bool.and_eq_true, decide_eq_true_eq] at h
    exact .inl ⟨h.1, h.2, rfl⟩
  next h =>
    simp only [Bool.and_eq_true, decide_eq_true_eq, not_and, UInt64.not_lt] at h
    exact .inr ⟨h, rfl⟩

/-- What is true before a list of offers, and stays true whenever one improves a label, is true
after them. -/
theorem foldl_offer_induction {motive : Search → Prop} {edges : List (NodeId × Channel)}
    (start : motive search)
    (improve : ∀ search peer channel, (peer, channel) ∈ edges →
      (extend visit peer channel).cost < search.costOf (query.before peer (query.labelOf visit)) →
      motive search → motive (search.improve (query.before peer (query.labelOf visit))
        ⟨channel, visit.amount, visit.delay⟩ (extend visit peer channel))) :
    motive (edges.foldl (offer query visit visit.cost) search) := by
  refine List.foldlRecOn edges _ start ?_
  rintro search kept ⟨peer, channel⟩ mem
  obtain ⟨-, better, h⟩ | ⟨-, h⟩ := offer_cases query visit search peer channel
  · rw [h]
    exact improve search peer channel mem better kept
  · rw [h]
    exact kept

@[simp] theorem queue_improve {hop : Hop} :
    (search.improve label hop visit).queue = visit :: search.queue := rfl

theorem costOf_improve {hop : Hop} {other : Label} : (search.improve label hop visit).costOf other =
    if other = label then visit.cost else search.costOf other := by
  rw [improve, costOf, ExtTreeMap.getD_insert]
  by_cases h : label = other
  · simp [h]
  · simp [h, Ne.symm h, costOf]

theorem getElem?_hops_improve {hop : Hop} {other : Label} :
    (search.improve label hop visit).hops[other]? =
      if other = label then some hop else search.hops[other]? := by
  rw [improve, ExtTreeMap.getElem?_insert]
  by_cases h : label = other
  · simp [h]
  · simp [h, Ne.symm h]

theorem carried_improve_of_ne {hop : Hop} {other : Label} (h : other ≠ label) :
    (search.improve label hop visit).carried query other = search.carried query other := by
  rw [carried, getElem?_hops_improve, if_neg h, carried]

end Search

end Rebalancing
