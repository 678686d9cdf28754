import Mathlib.Order.Bounds.Defs
import Rebalancing.Proofs.Path.Termination
import Rebalancing.Proofs.Path.Trace

/-!
# Optimality of the path search

In an indexed graph whose channels all accept the amount asked for, `Graph.findPath`
finds a path exactly when there is a way, and the fees of the path are the least of all
ways.

The lower bound follows a way from its end.  Either its labels are settled at no more
than its price, or some visit in the queue is no dearer.  What a node has to forward is
the amount asked for plus the price of its label, so a cheaper label also asks less of
the channels in front; that they accept less is where the minimum amounts come in.
-/

namespace Rebalancing

open Std

/-- The prices of all ways from the source of a query. -/
def Query.prices (query : Query) (graph : Graph) : Set Nat :=
  {price | ∃ channels, query.IsWay graph query.source channels ∧
    Hop.feeSum (query.hopsOver channels) = price}

namespace Search

variable {graph : Graph} {query : Query} {settled : List Label} {search : Search}
  {visit : Visit} {rest : List Visit} {node : NodeId} {channels : List Channel}

/-! ## Lower bounds -/

/-- A label of `node`, at most `hops` hops from the destination, is settled at no more than
`price`. -/
def SettledWithin (query : Query) (settled : List Label) (search : Search) (node : NodeId)
    (hops price : Nat) : Prop :=
  ∃ label ∈ settled, label.node = node ∧ (query.maxHops = 0 ∨ label.layer ≤ hops) ∧
    (search.costOf label).toNat ≤ price

/-- A visit that costs no more than `price` is in the queue. -/
def QueuedWithin (search : Search) (price : Nat) : Prop :=
  ∃ visit ∈ search.queue, visit.cost.toNat ≤ price

theorem QueuedWithin.mono {price price' : Nat} (h : QueuedWithin search price)
    (le : price ≤ price') : QueuedWithin search price' := by
  obtain ⟨visit, mem, hcost⟩ := h
  exact ⟨visit, mem, Nat.le_trans hcost le⟩

theorem not_queuedWithin_of_empty (empty : search.queue = []) {price : Nat} :
    ¬ QueuedWithin search price := by
  rintro ⟨visit, mem, -⟩
  rw [empty] at mem
  cases mem

/-- The source is never settled. -/
theorem Coherent.not_settledWithin_source (coherent : Coherent graph query settled search)
    {hops price : Nat} : ¬ SettledWithin query settled search query.source hops price := by
  rintro ⟨label, mem, hnode, -⟩
  exact (coherent.isSettled label mem).ne_source hnode

/-- A label with a price is settled, or a visit of that price is in the queue. -/
theorem Coherent.settledWithin_or_queuedWithin (coherent : Coherent graph query settled search)
    (label : Label) {hops price : Nat} (layer : query.maxHops = 0 ∨ label.layer ≤ hops)
    (cost : (search.costOf label).toNat ≤ price) (finite : price < 0xffffffffffffffff) :
    SettledWithin query settled search label.node hops price ∨ QueuedWithin search price := by
  by_cases h : label ∈ settled
  · exact .inl ⟨label, h, rfl, layer, cost⟩
  · have hfinite : search.costOf label < 0xffffffffffffffff :=
      UInt64.lt_iff_toNat_lt.mpr (Nat.lt_of_le_of_lt cost finite)
    obtain ⟨visit, hvisit, -, hcost⟩ := coherent.waiting label hfinite h
    exact .inr ⟨visit, hvisit, hcost ▸ cost⟩

/-- The same of the destination, where every search starts. -/
theorem Coherent.destination_within (coherent : Coherent graph query settled search)
    (hops : Nat) {price : Nat} (finite : price < 0xffffffffffffffff) :
    SettledWithin query settled search query.destination hops price ∨
      QueuedWithin search price := by
  refine coherent.settledWithin_or_queuedWithin query.origin (.inr (Nat.zero_le _)) ?_ finite
  rw [coherent.cost_origin]
  exact Nat.zero_le _

/-- A settled label was extended by every channel in front that can bear what is asked for. -/
theorem Explores.cost_before_le (h : Explores graph query settled search)
    (indexed : graph.IsIndexed)
    {label : Label} (mem : label ∈ settled) (notFull : query.isFull label.layer = false)
    {channel : Channel} (stored : graph.Stores channel) (leads : channel.destination = label.node)
    (permitted : channel.source ∉ query.excluded) (new : channel.source ≠ query.destination)
    {asked : Msat} (usable : channel.canUse asked)
    (least : channel.minHtlc ≤ (search.carried query label).1)
    (bound : query.amount.satAdd (search.costOf label) ≤ asked) :
    (search.costOf (query.before channel.source label)).toNat ≤
      (search.costOf label).toNat + (channel.fee asked).toNat := by
  have hamount := h.coherent.amount label (h.coherent.isSettled label mem).finite
  have hle : (search.carried query label).1 ≤ asked := hamount ▸ bound
  have husable : channel.canUse (search.carried query label).1 :=
    Channel.canUse_of_le usable least hle
  have hedge : (channel.source, channel) ∈ query.edges graph label.node :=
    (Query.mem_edges_iff indexed).mpr ⟨stored, rfl, leads, permitted, new⟩
  have hrelaxed := h.relaxed label mem notFull channel.source channel hedge husable
  have hfee := channel.fee_mono hle
  rw [UInt64.le_iff_toNat_le] at hrelaxed hfee
  rw [UInt64.toNat_satAdd] at hrelaxed
  omega

/-- If the rest of a way is settled at no more than its price, so is the way, or it meets the queue at
no more, unless another way from the end of its first channel asks for less than that accepts. -/
theorem Explores.within_cons (h : Explores graph query settled search) (indexed : graph.IsIndexed)
    {channel : Channel} {rest : List Channel} (way : query.IsWay graph node (channel :: rest))
    (behind : SettledWithin query settled search channel.destination rest.length
      (Hop.feeSum (query.hopsOver rest))) :
    SettledWithin query settled search node (rest.length + 1)
        (Hop.feeSum (query.hopsOver (channel :: rest))) ∨
      QueuedWithin search (Hop.feeSum (query.hopsOver (channel :: rest))) ∨
        ∃ other, query.IsWay graph channel.destination other ∧
          (query.maxHops = 0 ∨ other.length ≤ rest.length) ∧
          (query.carried other).1 < channel.minHtlc := by
  obtain ⟨-, stored, rfl, within, permitted, usable, priced⟩ := Query.isWay_cons.mp way
  obtain ⟨label, mem, hnode, hlayer, hcost⟩ := behind
  rw [Query.feeSum_hopsOver_cons, Nat.add_comm (channel.fee _).toNat]
  by_cases new : channel.source = query.destination
  · exact new ▸ (h.coherent.destination_within _ priced).imp_right .inl
  obtain ⟨cheaper, leads, deep, -⟩ :=
    h.coherent.exists_leads indexed label (h.coherent.isSettled label mem).finite
  by_cases least : channel.minHtlc ≤ (search.carried query label).1
  case neg =>
    -- The label was settled for too little, and what it was settled by is the way in between.
    rw [leads.carried, UInt64.not_le] at least
    refine .inr (.inr ⟨cheaper, hnode ▸ leads.way, ?_, least⟩)
    unfold Deep at deep
    omega
  have notFull : query.isFull label.layer = false := by
    simp only [Query.isFull, ne_eq, Bool.and_eq_false_iff, decide_eq_false_iff_not, not_not,
      Nat.not_le]
    omega
  have bound : query.amount.satAdd (search.costOf label) ≤ (query.carried rest).1 := by
    rw [UInt64.le_iff_toNat_le, UInt64.toNat_satAdd, Query.toNat_carried]
    omega
  have hbefore := h.cost_before_le indexed mem notFull stored hnode.symm permitted new usable
    least bound
  have layer : query.maxHops = 0 ∨
      (query.before channel.source label).layer ≤ rest.length + 1 := by
    simp only [Query.before, Query.layer]
    by_cases hm : query.maxHops = 0
    · exact .inl hm
    · rw [if_neg hm]
      omega
  have within := h.coherent.settledWithin_or_queuedWithin (query.before channel.source label)
    layer (by omega) priced
  exact within.imp_right .inl

/-- Every way is settled at no more than its price, or meets the queue at no more, unless a cheaper
way shadows it. -/
theorem Explores.within_or_isShadowed (h : Explores graph query settled search)
    (indexed : graph.IsIndexed) (way : query.IsWay graph node channels) :
    SettledWithin query settled search node channels.length (Hop.feeSum (query.hopsOver channels)) ∨
      QueuedWithin search (Hop.feeSum (query.hopsOver channels)) ∨
        query.IsShadowed graph channels := by
  induction channels generalizing node with
  | nil =>
    have hnode : node = query.destination := by simpa [Route.connects] using way.connects
    exact hnode ▸ (h.coherent.destination_within _ way.priced).imp_right .inl
  | cons channel rest ih =>
    have behind := (Query.isWay_cons.mp way).1
    obtain settled | queued | shadowed := ih behind
    · obtain settled | queued | ⟨other, hother, within, least⟩ := h.within_cons indexed way settled
      · exact .inl settled
      · exact .inr (.inl queued)
      · exact .inr (.inr (way.isShadowed hother within least))
    · exact .inr (.inl (queued.mono (by rw [Query.feeSum_hopsOver_cons]; omega)))
    · exact .inr (.inr shadowed.cons)

/-- If every channel accepts the amount asked for, no way is shadowed. -/
theorem Explores.settledWithin_or_queuedWithin (h : Explores graph query settled search)
    (indexed : graph.IsIndexed)
    (least : ∀ channel, graph.Stores channel → channel.minHtlc ≤ query.amount)
    (way : query.IsWay graph node channels) :
    SettledWithin query settled search node channels.length (Hop.feeSum (query.hopsOver channels)) ∨
      QueuedWithin search (Hop.feeSum (query.hopsOver channels)) := by
  rcases h.within_or_isShadowed indexed way with within | within | shadowed
  · exact .inl within
  · exact .inr within
  · obtain ⟨channel, mem, hlt⟩ := shadowed.exists_lt_minHtlc
    exact absurd (least channel (way.stored channel mem)) (UInt64.not_le.mpr hlt)

/-- A search that has emptied its queue without reaching the source has no way to it. -/
theorem Explores.not_isWay (h : Explores graph query settled search) (indexed : graph.IsIndexed)
    (least : ∀ channel, graph.Stores channel → channel.minHtlc ≤ query.amount)
    (empty : search.queue = []) : ¬ query.IsWay graph query.source channels := by
  intro way
  obtain atSource | queued := h.settledWithin_or_queuedWithin indexed least way
  · exact h.coherent.not_settledWithin_source atSource
  · exact not_queuedWithin_of_empty empty queued

/-- Nothing in the queue costs less than the visit that reaches the source. -/
theorem Reaches.cost_le_of_queuedWithin (h : Reaches graph query settled search visit rest)
    {price : Nat} (queued : QueuedWithin search price) : visit.cost.toNat ≤ price := by
  obtain ⟨other, hother, hcost⟩ := queued
  refine Nat.le_trans ?_ hcost
  rcases List.mem_cons.mp (h.pick.perm.mem_iff.mp hother) with rfl | hother
  · exact Nat.le_refl _
  · exact UInt64.le_iff_toNat_le.mp (h.pick.least other hother)

/-- No way is cheaper than the visit that reaches the source. -/
theorem Reaches.cost_le (h : Reaches graph query settled search visit rest)
    (indexed : graph.IsIndexed)
    (least : ∀ channel, graph.Stores channel → channel.minHtlc ≤ query.amount)
    (way : query.IsWay graph query.source channels) :
    visit.cost.toNat ≤ Hop.feeSum (query.hopsOver channels) := by
  obtain atSource | queued := h.explores.settledWithin_or_queuedWithin indexed least way
  · exact absurd atSource h.explores.coherent.not_settledWithin_source
  · exact h.cost_le_of_queuedWithin queued

/-- The way that a search has found is the cheapest. -/
theorem Reaches.isLeast (h : Reaches graph query settled search visit rest)
    (indexed : graph.IsIndexed)
    (least : ∀ channel, graph.Stores channel → channel.minHtlc ≤ query.amount)
    (way : query.IsWay graph query.source channels)
    (price : Hop.feeSum (query.hopsOver channels) = visit.cost.toNat) :
    IsLeast (query.prices graph) (Hop.feeSum (query.hopsOver channels)) := by
  refine ⟨⟨channels, way, rfl⟩, ?_⟩
  rintro _ ⟨others, hothers, rfl⟩
  rw [price]
  exact h.cost_le indexed least hothers

/-! ## The path found -/

/-- A search that reaches the source in an indexed graph has found a way of the price it reached the
source with. -/
theorem Reaches.exists_way (h : Reaches graph query settled search visit rest)
    (indexed : graph.IsIndexed) :
    ∃ channels, query.IsWay graph query.source channels ∧
      Hop.feeSum (query.hopsOver channels) = visit.cost.toNat ∧
      (search.arrival query visit rest).path? query = some (query.hopsOver channels) := by
  have coherent := h.explores.coherent
  have hcost := coherent.cost_eq h.pick h.fresh
  have finite : search.costOf (query.labelOf visit) < 0xffffffffffffffff :=
    hcost ▸ (coherent.queued visit h.pick.mem).finite
  have unsettled := coherent.labelOf_not_mem h.pick h.fresh
  obtain ⟨channels, leads, -, hlength⟩ := coherent.exists_leads indexed _ finite
  rw [List.idxOf_eq_length unsettled] at hlength
  refine ⟨channels, h.source ▸ leads.way, ?_, ?_⟩
  · rw [← hcost, leads.cost]
  · rw [← leads.trace _ (Nat.le_trans hlength (coherent.length_settled_le finite unsettled))]
    rw [Arrival.path?, Query.labelOf, h.source]
    rfl

end Search

namespace Graph

variable {graph : Graph} {query : Query}

/-- How the search behind an answer ended, in any graph. -/
theorem findPath_ends (graph : Graph) (ends : query.source ≠ query.destination)
    (positive : 0 < query.amount) :
    (∃ settled search, Search.Explores graph query settled search ∧ search.queue = [] ∧
      graph.findPath query = .error (.noRoute query.source query.destination)) ∨
    ∃ settled search visit rest, Search.Reaches graph query settled search visit rest ∧
      graph.findPath query = ((search.arrival query visit rest).path? query).elim
        (.error (.noRoute query.source query.destination)) .ok := by
  have hzero : query.amount ≠ 0 := (UInt64.ne_of_lt positive).symm
  unfold findPath
  rw [if_neg ends, if_neg hzero]
  obtain ⟨settled, search, explores, empty, hrun⟩ | ⟨settled, search, visit, rest, reaches, hrun⟩ :=
    Search.Explores.start.exists_end Search.potential_start_lt
  · refine .inl ⟨settled, search, explores, empty, ?_⟩
    rw [hrun]
    rfl
  · refine .inr ⟨settled, search, visit, rest, reaches, ?_⟩
    rw [hrun]
    simp only [Option.bind_some]
    cases (search.arrival query visit rest).path? query with
    | none => rfl
    | some hops => rfl

/-- What the path search answers in an indexed graph, and how the search behind it ended. -/
theorem findPath_cases (indexed : graph.IsIndexed) (ends : query.source ≠ query.destination)
    (positive : 0 < query.amount) :
    (∃ settled search, Search.Explores graph query settled search ∧ search.queue = [] ∧
      graph.findPath query = .error (.noRoute query.source query.destination)) ∨
    ∃ settled search visit rest channels, Search.Reaches graph query settled search visit rest ∧
      query.IsWay graph query.source channels ∧
      Hop.feeSum (query.hopsOver channels) = visit.cost.toNat ∧
      graph.findPath query = .ok (query.hopsOver channels) := by
  obtain none | ⟨settled, search, visit, rest, reaches, hfound⟩ :=
    findPath_ends graph ends positive
  · exact .inl none
  · obtain ⟨channels, way, hprice, hpath⟩ := reaches.exists_way indexed
    refine .inr ⟨settled, search, visit, rest, channels, reaches, way, hprice, ?_⟩
    rw [hfound, hpath]
    rfl

/-- **Optimality.**  In an indexed graph whose channels all accept the amount asked for, a path is
found exactly when there is a way, and then its fees are the least of all ways.  So are those of the
path that any other order among visits of equal cost arrives with. -/
theorem findPath_isLeast (indexed : graph.IsIndexed) (ends : query.source ≠ query.destination)
    (positive : 0 < query.amount)
    (least : ∀ channel, graph.Stores channel → channel.minHtlc ≤ query.amount) :
    ((∃ hops, graph.findPath query = .ok hops) ↔
      ∃ channels, query.IsWay graph query.source channels) ∧
    (∀ hops, graph.findPath query = .ok hops → IsLeast (query.prices graph) (Hop.feeSum hops)) ∧
    ∀ settled search visit rest, Search.Reaches graph query settled search visit rest →
      ∃ hops, (search.arrival query visit rest).path? query = some hops ∧
        IsLeast (query.prices graph) (Hop.feeSum hops) := by
  have any : ∀ settled search visit rest, Search.Reaches graph query settled search visit rest →
      ∃ hops, (search.arrival query visit rest).path? query = some hops ∧
        IsLeast (query.prices graph) (Hop.feeSum hops) := by
    intro settled search visit rest reaches
    obtain ⟨channels, way, hprice, hpath⟩ := reaches.exists_way indexed
    exact ⟨_, hpath, reaches.isLeast indexed least way hprice⟩
  obtain ⟨settled, search, explores, empty, hfound⟩ |
    ⟨settled, search, visit, rest, channels, reaches, way, hprice, hfound⟩ :=
      findPath_cases indexed ends positive
  · rw [hfound]
    refine ⟨⟨?_, ?_⟩, ?_, any⟩
    · rintro ⟨hops, h⟩
      cases h
    · rintro ⟨channels, way⟩
      exact absurd way (explores.not_isWay indexed least empty)
    · rintro hops h
      cases h
  · rw [hfound]
    refine ⟨⟨fun _ => ⟨channels, way⟩, fun _ => ⟨_, rfl⟩⟩, ?_, any⟩
    rintro hops h
    cases h
    exact reaches.isLeast indexed least way hprice

/-! ### A network with a free cycle and parallel channels -/

/-- A channel of the diamond, which charges a flat fee. -/
def diamondChannel (block : UInt32) (source destination : String) (baseFee : Msat) : Channel where
  scid := .ofParts block 0 0
  source := ⟨source⟩
  destination := ⟨destination⟩
  capacity := 100000000
  liquidity := 50000000
  baseFee := baseFee
  feePerMillionth := 0
  minHtlc := 1
  maxHtlc := 100000000
  delay := 10
  active := true
  lastUpdate := 0

/-- Two ways from `A` to `D`, by `B` and by `C`, with free channels between `B` and `C` and two
channels from `C` to `D`. -/
def diamondChannels : List Channel :=
  [diamondChannel 1 "A" "B" 1000, diamondChannel 2 "B" "D" 5000, diamondChannel 3 "A" "C" 100,
    diamondChannel 4 "B" "C" 0, diamondChannel 5 "C" "B" 0, diamondChannel 6 "C" "D" 3000,
    diamondChannel 7 "C" "D" 2000]

def diamond : Graph := empty.addAll diamondChannels

def diamondQuery : Query where
  source := ⟨"A"⟩
  destination := ⟨"D"⟩
  amount := 1000000
  maxHops := 3

theorem diamond_isIndexed : diamond.IsIndexed :=
  isIndexed_empty.addAll (by decide +kernel) (by decide +kernel)

theorem minHtlc_le_of_diamond_stores {channel : Channel} (h : diamond.Stores channel) :
    channel.minHtlc ≤ diamondQuery.amount := by
  obtain ⟨scid, h⟩ := h
  have all : ∀ channel ∈ diamondChannels, channel.minHtlc ≤ diamondQuery.amount := by decide +kernel
  exact all channel (mem_of_channel?_empty_addAll h)

/-- The way by `C` and the cheaper of its two last channels costs 2100, and no other costs less. -/
theorem findPath_diamond_isLeast :
    diamond.findPath diamondQuery = .ok (diamondQuery.hopsOver
      [diamondChannel 3 "A" "C" 100, diamondChannel 7 "C" "D" 2000]) ∧
    IsLeast (diamondQuery.prices diamond) 2100 := by
  have found : diamond.findPath diamondQuery = .ok (diamondQuery.hopsOver
      [diamondChannel 3 "A" "C" 100, diamondChannel 7 "C" "D" 2000]) := by decide +kernel
  have price : Hop.feeSum (diamondQuery.hopsOver
      [diamondChannel 3 "A" "C" 100, diamondChannel 7 "C" "D" 2000]) = 2100 := by decide +kernel
  have least := (findPath_isLeast diamond_isIndexed (by decide) (by decide)
    fun _ => minHtlc_le_of_diamond_stores).2.1 _ found
  rw [price] at least
  exact ⟨found, least⟩

end Graph

end Rebalancing
