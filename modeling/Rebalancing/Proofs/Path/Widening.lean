import Rebalancing.Proofs.Path.Sound

/-!
# Wider hop limits

With a hop limit a label says how many hops are behind it, and what it costs is decided by
the labels one hop nearer to the destination.  So two searches that differ in their limits
only agree on every label that both have settled.  A search under the wider limit therefore
comes by all that led the other one to the source, unless it gets there first, and no later
means no dearer.  This is so whatever amounts the channels accept: nothing is compared but
labels at the same number of hops.
-/

namespace Rebalancing

/-- The same query under another hop limit. -/
def Query.limitedTo (query : Query) (limit : Nat) : Query := { query with maxHops := limit }

namespace Search

variable {graph : Graph} {query : Query} {limit limit' : Nat} {settled settled' : List Label}
  {search search' : Search} {label : Label} {cost : UInt64}

/-! ## Labels that a search has come by -/

/-- The label is settled at no more than `cost`, or some visit in the queue is no dearer than that. -/
def Meets (settled : List Label) (search : Search) (label : Label) (cost : UInt64) : Prop :=
  (label ∈ settled ∧ search.costOf label ≤ cost) ∨ QueuedWithin search cost.toNat

/-- A label that has a price is settled, or a visit stands for it. -/
theorem Coherent.meets (coherent : Coherent graph query settled search)
    (le : search.costOf label ≤ cost) (finite : cost < 0xffffffffffffffff) :
    Meets settled search label cost := by
  by_cases mem : label ∈ settled
  · exact .inl ⟨mem, le⟩
  · obtain ⟨visit, queued, -, hcost⟩ :=
      coherent.waiting label (UInt64.lt_of_le_of_lt le finite) mem
    exact .inr ⟨visit, queued, UInt64.le_iff_toNat_le.mp (hcost ▸ le)⟩

/-- What a settled label costs is no more than what a search has come by. -/
theorem Coherent.costOf_le (coherent : Coherent graph query settled search) (mem : label ∈ settled)
    (meets : Meets settled search label cost) : search.costOf label ≤ cost := by
  rcases meets with ⟨-, le⟩ | ⟨visit, queued, le⟩
  · exact le
  · exact UInt64.le_trans ((coherent.isSettled label mem).le_queue visit queued)
      (UInt64.le_iff_toNat_le.mpr le)

/-! ## Two limits -/

theorem layer_limitedTo (limited : limit ≠ 0) (hops : Nat) :
    (query.limitedTo limit).layer hops = hops := by
  rw [Query.layer, if_neg (show (query.limitedTo limit).maxHops ≠ 0 from limited)]

theorem isFull_limitedTo {hops : Nat} :
    (query.limitedTo limit).isFull hops = false ↔ limit = 0 ∨ hops < limit := by
  show (decide (limit ≠ 0) && decide (limit ≤ hops)) = false ↔ _
  simp only [ne_eq, decide_not, Bool.and_eq_false_iff, Bool.not_eq_false', decide_eq_true_eq,
    decide_eq_false_iff_not, Nat.not_le]

/-- A label that both searches have settled costs the same in both, if each has come by what it costs
in the other. -/
theorem costOf_eq_of_meets (coherent : Coherent graph (query.limitedTo limit) settled search)
    (coherent' : Coherent graph (query.limitedTo limit') settled' search')
    (mem : label ∈ settled) (mem' : label ∈ settled')
    (meets : Meets settled search label (search'.costOf label))
    (meets' : Meets settled' search' label (search.costOf label)) :
    search'.costOf label = search.costOf label :=
  UInt64.le_antisymm (coherent'.costOf_le mem' meets') (coherent.costOf_le mem meets)

/-- A hop that one search has recorded is offered by any other that has settled the label behind it at
the same price and may still extend it. -/
theorem Explores.costOf_le_of_recorded {hop : Hop} {behind : Label} (limited : limit ≠ 0)
    (limited' : limit' ≠ 0) (h : Explores graph (query.limitedTo limit) settled search)
    (h' : Explores graph (query.limitedTo limit') settled' search')
    (recorded : Recorded graph (query.limitedTo limit) search label hop behind)
    (mem : behind ∈ settled) (mem' : behind ∈ settled') (within : label.layer ≤ limit')
    (cost_eq : search'.costOf behind = search.costOf behind) :
    search'.costOf label ≤ search.costOf label := by
  have hlabel : label = ⟨label.node, behind.layer + 1⟩ := by
    conv_lhs => rw [recorded.label_eq, Query.before, layer_limitedTo limited]
  have before_eq : (query.limitedTo limit').before label.node behind = label := by
    rw [Query.before, layer_limitedTo limited', ← hlabel]
  have amount := h.coherent.amount behind (h.coherent.isSettled behind mem).finite
  have amount' := h'.coherent.amount behind (h'.coherent.isSettled behind mem').finite
  -- Both queries ask for the same amount, so the label has to forward the same in both searches.
  have carried_eq : (search'.carried (query.limitedTo limit') behind).1 = hop.amount := by
    rw [recorded.carried] at amount
    rw [amount', cost_eq]
    exact amount.symm
  have notFull : (query.limitedTo limit').isFull behind.layer = false := by
    rw [hlabel] at within
    exact isFull_limitedTo.mpr (.inr within)
  have relaxed := h'.relaxed behind mem' notFull label.node hop.channel recorded.edge
  rw [carried_eq, before_eq, cost_eq, ← recorded.cost] at relaxed
  exact relaxed recorded.usable

/-- Whatever one search has found a price for, the other comes by at no more, as far as its limit
admits the label. -/
theorem Explores.meets (limited : limit ≠ 0) (limited' : limit' ≠ 0)
    (h : Explores graph (query.limitedTo limit) settled search)
    (h' : Explores graph (query.limitedTo limit') settled' search')
    (finite : search.costOf label < 0xffffffffffffffff) (within : label.layer ≤ limit') :
    Meets settled' search' label (search.costOf label) := by
  -- Induction on the layer, for both searches at once: the label behind has to cost the same in both.
  generalize hn : label.layer = n
  induction n generalizing limit limit' settled settled' search search' label with
  | zero =>
    by_cases horigin : label = query.origin
    · subst horigin
      refine h'.coherent.meets (UInt64.le_of_eq ?_) finite
      exact h'.coherent.cost_origin.trans h.coherent.cost_origin.symm
    · obtain ⟨hop, found⟩ := h.coherent.hops_isSome label finite horigin
      obtain ⟨behind, -, -, recorded⟩ := h.coherent.recorded label hop found
      rw [recorded.label_eq, Query.before, layer_limitedTo limited] at hn
      exact absurd hn (Nat.succ_ne_zero _)
  | succ n ih =>
    have horigin : label ≠ query.origin := by
      rintro rfl
      cases hn
    obtain ⟨hop, found⟩ := h.coherent.hops_isSome label finite horigin
    obtain ⟨behind, mem, -, recorded⟩ := h.coherent.recorded label hop found
    have hlayer : behind.layer = n := by
      rw [recorded.label_eq, Query.before, layer_limitedTo limited] at hn
      exact Nat.succ.inj hn
    have within_behind : behind.layer ≤ limit :=
      Nat.le_of_lt ((isFull_limitedTo.mp recorded.notFull).resolve_left limited)
    have dearer : search.costOf behind ≤ search.costOf label :=
      recorded.cost ▸ UInt64.le_satAdd _ _
    have meets' := ih limited limited' h h' (h.coherent.isSettled behind mem).finite (by omega)
      hlayer
    obtain ⟨mem', le⟩ | queued := meets'
    · have meets := ih limited' limited h' h (h'.coherent.isSettled behind mem').finite
        within_behind hlayer
      have cost_eq := costOf_eq_of_meets h.coherent h'.coherent mem mem' meets (.inl ⟨mem', le⟩)
      exact h'.coherent.meets
        (h.costOf_le_of_recorded limited limited' h' recorded mem mem' within cost_eq) finite
    · exact .inr (queued.mono (UInt64.le_iff_toNat_le.mp dearer))

/-- When one search has reached the source, one under a wider limit has a visit that is no dearer
still to settle, in each of its states. -/
theorem Reaches.queuedWithin {visit : Visit} {rest : List Visit} (limited : limit ≠ 0)
    (wider : limit ≤ limit')
    (h : Reaches graph (query.limitedTo limit) settled search visit rest)
    (h' : Explores graph (query.limitedTo limit') settled' search') :
    QueuedWithin search' visit.cost.toNat := by
  have coherent := h.explores.coherent
  have queued := coherent.queued visit h.pick.mem
  have hcost := coherent.cost_eq h.pick h.fresh
  have within : ((query.limitedTo limit).labelOf visit).layer ≤ limit' := by
    rw [Query.labelOf, layer_limitedTo limited]
    exact Nat.le_trans (queued.within.resolve_left limited) wider
  have meets := h.explores.meets limited (by omega) h' (hcost ▸ queued.finite) within
  rw [hcost] at meets
  refine meets.resolve_left fun reached => ?_
  exact (h'.coherent.isSettled _ reached.1).ne_source h.source

/-- So it reaches the source with a visit that is no dearer. -/
theorem Reaches.cost_le_of_wider {visit visit' : Visit} {rest rest' : List Visit}
    (limited : limit ≠ 0) (wider : limit ≤ limit')
    (h : Reaches graph (query.limitedTo limit) settled search visit rest)
    (h' : Reaches graph (query.limitedTo limit') settled' search' visit' rest') :
    visit'.cost.toNat ≤ visit.cost.toNat :=
  h'.cost_le_of_queuedWithin (h.queuedWithin limited wider h'.explores)

end Search

namespace Graph

variable {graph : Graph}

/-- **Widening.**  If a path is found under a hop limit, one is found under every wider limit, and its
fees are no higher.  The same is so of any other order among visits of equal cost: under the wider
limit the queue never runs empty, and the path arrived with is no dearer. -/
theorem findPath_widens (indexed : graph.IsIndexed) (query : Query) {limit wider : Nat}
    (limited : 1 ≤ limit) (le : limit ≤ wider) :
    (∀ hops, graph.findPath (query.limitedTo limit) = .ok hops →
      ∃ hops', graph.findPath (query.limitedTo wider) = .ok hops' ∧
        Hop.feeSum hops' ≤ Hop.feeSum hops) ∧
    ∀ settled search visit rest,
      Search.Reaches graph (query.limitedTo limit) settled search visit rest →
      (∀ settled' search', Search.Explores graph (query.limitedTo wider) settled' search' →
        search'.queue ≠ []) ∧
      ∀ settled' search' visit' rest',
        Search.Reaches graph (query.limitedTo wider) settled' search' visit' rest' →
        ∃ hops hops',
          (search.arrival (query.limitedTo limit) visit rest).path? (query.limitedTo limit) =
            some hops ∧
          (search'.arrival (query.limitedTo wider) visit' rest').path? (query.limitedTo wider) =
            some hops' ∧
          Hop.feeSum hops' ≤ Hop.feeSum hops := by
  have hlimit : limit ≠ 0 := by omega
  constructor
  · intro hops found
    obtain ⟨ends, positive⟩ := ends_of_findPath_eq_ok found
    obtain ⟨_, _, -, -, none⟩ | ⟨settled, search, visit, rest, channels, reaches, -, price, hfound⟩ :=
      findPath_cases indexed ends positive
    · rw [none] at found
      cases found
    · rw [hfound] at found
      cases found
      obtain ⟨_, _, explores, empty, -⟩ | ⟨_, _, _, _, _, reaches', -, price', hfound'⟩ :=
        @findPath_cases graph (query.limitedTo wider) indexed ends positive
      · exact absurd (reaches.queuedWithin hlimit le explores)
          (Search.not_queuedWithin_of_empty empty)
      · refine ⟨_, hfound', ?_⟩
        rw [price, price']
        exact reaches.cost_le_of_wider hlimit le reaches'
  · intro settled search visit rest reaches
    refine ⟨fun _ _ explores empty => Search.not_queuedWithin_of_empty empty
      (reaches.queuedWithin hlimit le explores), ?_⟩
    intro settled' search' visit' rest' reaches'
    obtain ⟨_, -, price, hpath⟩ := reaches.exists_way indexed
    obtain ⟨_, -, price', hpath'⟩ := reaches'.exists_way indexed
    refine ⟨_, _, hpath, hpath', ?_⟩
    rw [price, price']
    exact reaches.cost_le_of_wider hlimit le reaches'

/-- From `B` there is one channel to `D`, for 5000.  With another hop the free channel to `C` and the
cheaper of the two behind it may be taken instead. -/
theorem findPath_diamond_widens :
    diamond.findPath ({ diamondQuery with source := ⟨"B"⟩ }.limitedTo 1) =
      .ok (diamondQuery.hopsOver [diamondChannel 2 "B" "D" 5000]) ∧
    ∃ hops, diamond.findPath ({ diamondQuery with source := ⟨"B"⟩ }.limitedTo 2) = .ok hops ∧
      Hop.feeSum hops ≤ 5000 := by
  have found : diamond.findPath ({ diamondQuery with source := ⟨"B"⟩ }.limitedTo 1) =
      .ok (diamondQuery.hopsOver [diamondChannel 2 "B" "D" 5000]) := by decide +kernel
  exact ⟨found, (findPath_widens diamond_isIndexed _ (by decide) (by decide)).1 _ found⟩

end Graph

end Rebalancing
