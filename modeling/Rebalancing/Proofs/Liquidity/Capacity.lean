import Mathlib.Algebra.BigOperators.Intervals
import Rebalancing.Proofs.Graph.Edits
import Rebalancing.Proofs.Liquidity.Conservation

/-!
# The total capacity of a graph

The total capacity is summed up over the channels of direction zero, so that a physical
channel with both directions counts once.  Listings leave both directions of a physical
channel with the same capacity, so it does not matter which of them is counted.  But a
listing or a prune may leave direction one alone, and then nothing is counted for the
physical channel.  What is counted is the capacity of the physical channels that direction
zero is stored of, and that is the capacity of all of them unless the others have any.
-/

namespace UInt64

/-- Words that are summed up come to their exact sum, or to the greatest word. -/
theorem toNat_foldl_satAdd {α : Type} (word : α → UInt64) (list : List α) (start : UInt64) :
    (list.foldl (fun sum a => sum.satAdd (word a)) start).toNat =
      min (start.toNat + (list.map fun a => (word a).toNat).sum) 0xffffffffffffffff := by
  induction list generalizing start with
  | nil =>
    have := start.toNat_lt
    rw [List.foldl_nil, List.map_nil, List.sum_nil]
    omega
  | cons a rest ih =>
    rw [List.foldl_cons, ih, toNat_satAdd, List.map_cons, List.sum_cons]
    omega

end UInt64

namespace Rebalancing

open Std

namespace Graph

variable {graph : Graph} {scid : ShortChannelId} {channel : Channel}

/-! ## Physical channels -/

/-- The physical channels that some direction is stored of. -/
def scids (graph : Graph) : Finset ShortChannelId := (graph.channels.keys.map (·.scid)).toFinset

/-- Those that direction zero is stored of. -/
def scidsOfZero (graph : Graph) : Finset ShortChannelId :=
  graph.scids.filter fun scid => (graph.channel? ⟨scid, .zero⟩).isSome

/-- The capacity of a physical channel, as direction zero has it, or else direction one. -/
def capacityOf (graph : Graph) (scid : ShortChannelId) : Msat :=
  ((graph.channel? ⟨scid, .zero⟩).or (graph.channel? ⟨scid, .one⟩)).elim 0 (·.capacity)

/-- The exact sum of the capacities of physical channels. -/
def capacitySum (graph : Graph) (scids : Finset ShortChannelId) : Nat :=
  ∑ scid ∈ scids, (graph.capacityOf scid).toNat

theorem mem_scids : scid ∈ graph.scids ↔
    ∃ direction channel, graph.channel? ⟨scid, direction⟩ = some channel := by
  simp only [scids, List.mem_toFinset, List.mem_map, ExtTreeMap.mem_keys,
    ExtTreeMap.mem_iff_isSome_getElem?, Option.isSome_iff_exists, channel?]
  constructor
  · rintro ⟨⟨scid, direction⟩, ⟨channel, stored⟩, rfl⟩
    exact ⟨direction, channel, stored⟩
  · rintro ⟨direction, channel, stored⟩
    exact ⟨_, ⟨channel, stored⟩, rfl⟩

theorem mem_scidsOfZero : scid ∈ graph.scidsOfZero ↔
    ∃ channel, graph.channel? ⟨scid, .zero⟩ = some channel := by
  rw [scidsOfZero, Finset.mem_filter, mem_scids, Option.isSome_iff_exists, and_iff_right_iff_imp]
  exact fun ⟨channel, stored⟩ => ⟨.zero, channel, stored⟩

theorem capacityOf_of_zero (stored : graph.channel? ⟨scid, .zero⟩ = some channel) :
    graph.capacityOf scid = channel.capacity := by
  rw [capacityOf, stored]
  rfl

theorem capacityOf_of_one (unstored : graph.channel? ⟨scid, .zero⟩ = none)
    (stored : graph.channel? ⟨scid, .one⟩ = some channel) :
    graph.capacityOf scid = channel.capacity := by
  rw [capacityOf, unstored, stored]
  rfl

/-! ## What is counted -/

/-- The channels of direction zero. -/
def zeros (graph : Graph) : List Channel := graph.channels.values.filter (·.direction = .zero)

/-- The records of a graph are those that it stores under their own ids. -/
theorem IsKeyed.mem_values (keyed : graph.IsKeyed) :
    channel ∈ graph.channels.values ↔ graph.channel? channel.id = some channel := by
  rw [values_eq_map_toList, List.mem_map]
  constructor
  · rintro ⟨⟨id, channel⟩, mem, rfl⟩
    have stored := ExtTreeMap.mem_toList_iff_getElem?_eq_some.mp mem
    rwa [keyed id channel stored]
  · intro stored
    exact ⟨(channel.id, channel), ExtTreeMap.mem_toList_iff_getElem?_eq_some.mpr stored, rfl⟩

theorem IsKeyed.channel?_of_mem_zeros (keyed : graph.IsKeyed) (mem : channel ∈ graph.zeros) :
    graph.channel? ⟨channel.scid, .zero⟩ = some channel := by
  obtain ⟨mem, zero⟩ := List.mem_filter.mp mem
  have hid : channel.id = ⟨channel.scid, .zero⟩ := by
    rw [Channel.id, of_decide_eq_true zero]
  exact hid ▸ keyed.mem_values.mp mem

/-- Each of them belongs to another physical channel. -/
theorem IsKeyed.nodup_zeros (keyed : graph.IsKeyed) : (graph.zeros.map (·.scid)).Nodup := by
  refine List.Nodup.map_on ?_ (List.Nodup.filter _ keyed.nodup_values.of_map)
  intro channel mem channel' mem' same
  have stored := keyed.channel?_of_mem_zeros mem
  rw [same, keyed.channel?_of_mem_zeros mem'] at stored
  exact (Option.some.inj stored).symm

theorem IsKeyed.toFinset_zeros (keyed : graph.IsKeyed) :
    (graph.zeros.map (·.scid)).toFinset = graph.scidsOfZero := by
  ext scid
  rw [List.mem_toFinset, List.mem_map, mem_scidsOfZero]
  constructor
  · rintro ⟨channel, mem, rfl⟩
    exact ⟨channel, keyed.channel?_of_mem_zeros mem⟩
  · rintro ⟨channel, stored⟩
    have hid := keyed _ channel stored
    refine ⟨channel, List.mem_filter.mpr ⟨keyed.mem_values.mpr (hid ▸ stored), ?_⟩,
      congrArg ChannelId.scid hid⟩
    exact decide_eq_true (congrArg ChannelId.direction hid)

/-- The total capacity is that of the physical channels that direction zero is stored of. -/
theorem IsKeyed.toNat_totalCapacity (keyed : graph.IsKeyed) : graph.totalCapacity.toNat =
    min (graph.capacitySum graph.scidsOfZero) 0xffffffffffffffff := by
  have capacities : (graph.zeros.map fun channel => channel.capacity.toNat) =
      (graph.zeros.map (·.scid)).map fun scid => (graph.capacityOf scid).toNat := by
    rw [List.map_map]
    refine List.map_congr_left fun channel mem => ?_
    rw [Function.comp_apply, capacityOf_of_zero (keyed.channel?_of_mem_zeros mem)]
  have sum : (graph.zeros.map fun channel => channel.capacity.toNat).sum =
      graph.capacitySum graph.scidsOfZero := by
    rw [capacities, capacitySum, ← keyed.toFinset_zeros, List.sum_toFinset _ keyed.nodup_zeros]
  have folded := UInt64.toNat_foldl_satAdd Channel.capacity graph.zeros 0
  rwa [UInt64.toNat_zero, Nat.zero_add, sum] at folded

/-! ## What is not counted -/

/-- The capacity of all physical channels is what is counted, and what direction one has alone. -/
theorem capacitySum_scids (graph : Graph) : graph.capacitySum graph.scids =
    graph.capacitySum graph.scidsOfZero +
      graph.capacitySum (graph.scids.filter fun scid => ¬ (graph.channel? ⟨scid, .zero⟩).isSome) :=
  (Finset.sum_filter_add_sum_filter_not graph.scids _ _).symm

/-- Nothing is left out if direction one has no capacity where it is alone. -/
theorem capacitySum_uncounted_eq_zero_iff :
    graph.capacitySum (graph.scids.filter fun scid => ¬ (graph.channel? ⟨scid, .zero⟩).isSome) = 0 ↔
      ∀ scid channel, graph.channel? ⟨scid, .zero⟩ = none →
        graph.channel? ⟨scid, .one⟩ = some channel → channel.capacity = 0 := by
  rw [capacitySum, Finset.sum_eq_zero_iff]
  constructor
  · intro none scid channel unstored stored
    have mem : scid ∈ graph.scids.filter fun scid => ¬ (graph.channel? ⟨scid, .zero⟩).isSome :=
      Finset.mem_filter.mpr ⟨mem_scids.mpr ⟨.one, channel, stored⟩, by simp [unstored]⟩
    rw [← capacityOf_of_one unstored stored]
    exact UInt64.toNat_inj.mp (none scid mem)
  · intro none scid mem
    obtain ⟨mem, unstored⟩ := Finset.mem_filter.mp mem
    rw [Option.not_isSome_iff_eq_none] at unstored
    obtain ⟨direction, channel, stored⟩ := mem_scids.mp mem
    cases direction with
    | zero => exact absurd (unstored.symm.trans stored) (Option.some_ne_none channel).symm
    | one => rw [capacityOf_of_one unstored stored, none scid channel unstored stored, UInt64.toNat_zero]

/-! ## Listings -/

/-- Both directions of a physical channel have the same capacity. -/
def SharesCapacity (graph : Graph) : Prop :=
  ∀ scid zero one, graph.channel? ⟨scid, .zero⟩ = some zero →
    graph.channel? ⟨scid, .one⟩ = some one → zero.capacity = one.capacity

theorem sharesCapacity_empty : empty.SharesCapacity := by
  intro scid zero one hzero
  simp [empty, channel?] at hzero

/-- A record gives its capacity to both directions. -/
theorem SharesCapacity.record {state : Refresh} (shares : state.graph.SharesCapacity) (aging : Aging)
    (listed : ListedChannel) : (Refresh.record aging state listed).graph.SharesCapacity := by
  cases valid : listed.isValid with
  | false => rwa [Refresh.graph_record_of_not_valid valid]
  | true =>
    intro scid zero one hzero hone
    by_cases same : scid = listed.scid
    · obtain ⟨liquidity, within, hchannels⟩ := Refresh.channel?_record aging state valid
      rw [hchannels] at hzero hone
      rw [(Refresh.eq_of_shared within same hzero).1, (Refresh.eq_of_shared within same hone).1]
    · rw [Refresh.channel?_record_of_ne aging state same] at hzero hone
      exact shares scid zero one hzero hone

theorem SharesCapacity.remove (shares : graph.SharesCapacity) (id : ChannelId) :
    (graph.remove id).SharesCapacity := by
  intro scid zero one hzero hone
  rw [channel?_remove] at hzero hone
  split at hzero
  next => cases hzero
  split at hone
  next => cases hone
  exact shares scid zero one hzero hone

theorem SharesCapacity.applyListing (shares : graph.SharesCapacity) (aging : Aging)
    (listing : List ListedChannel) (words : WordSupply) :
    (graph.applyListing aging listing words).graph.SharesCapacity := by
  refine applyListing_induction ?_ ?_ ?_ shares listing words
  · exact fun _ listed shares => shares.record aging listed
  · exact fun _ _ shares => shares
  · exact fun _ id shares => shares.remove id

/-- So the capacity of a physical channel is that of any direction that is stored. -/
theorem SharesCapacity.capacityOf_eq (shares : graph.SharesCapacity) {id : ChannelId}
    (stored : graph.channel? id = some channel) : graph.capacityOf id.scid = channel.capacity := by
  obtain ⟨scid, direction⟩ := id
  cases direction with
  | zero => exact capacityOf_of_zero stored
  | one =>
    cases hzero : graph.channel? ⟨scid, .zero⟩ with
    | none => exact capacityOf_of_one hzero stored
    | some zero => exact (capacityOf_of_zero hzero).trans (shares scid zero channel hzero stored)

/-- The graph after listings, each with the window of its drifts and the words that they are drawn
from. -/
def applyListings (graph : Graph) (listings : List (Aging × List ListedChannel × WordSupply)) :
    Graph :=
  listings.foldl (fun graph (aging, listing, words) => (graph.applyListing aging listing words).graph)
    graph

theorem isKeyed_applyListings (keyed : graph.IsKeyed)
    (listings : List (Aging × List ListedChannel × WordSupply)) :
    (graph.applyListings listings).IsKeyed :=
  List.foldlRecOn listings _ keyed fun _ keyed (aging, listing, words) _ =>
    keyed.applyListing aging listing words

theorem sharesCapacity_applyListings (shares : graph.SharesCapacity)
    (listings : List (Aging × List ListedChannel × WordSupply)) :
    (graph.applyListings listings).SharesCapacity :=
  List.foldlRecOn listings _ shares fun _ shares (aging, listing, words) _ =>
    shares.applyListing aging listing words

/-- **Total capacity.**  After any listings the stored directions of a physical channel have its
capacity, and the total capacity is the sum over the physical channels that direction zero is stored
of, up to the greatest word.  So it is the sum over all physical channels, up to the greatest word,
if and only if it is the greatest word already, or direction one has no capacity wherever it is
stored alone. -/
theorem totalCapacity_counts (listings : List (Aging × List ListedChannel × WordSupply)) :
    let graph := empty.applyListings listings
    (∀ id channel, graph.channel? id = some channel →
      graph.capacityOf id.scid = channel.capacity) ∧
    graph.totalCapacity.toNat = min (graph.capacitySum graph.scidsOfZero) 0xffffffffffffffff ∧
    (graph.totalCapacity.toNat = min (graph.capacitySum graph.scids) 0xffffffffffffffff ↔
      graph.totalCapacity.toNat = 0xffffffffffffffff ∨
      ∀ scid channel, graph.channel? ⟨scid, .zero⟩ = none →
        graph.channel? ⟨scid, .one⟩ = some channel → channel.capacity = 0) := by
  intro graph
  have shares : graph.SharesCapacity := sharesCapacity_applyListings sharesCapacity_empty listings
  have keyed : graph.IsKeyed := isKeyed_applyListings isKeyed_empty listings
  refine ⟨fun id channel => shares.capacityOf_eq, keyed.toNat_totalCapacity, ?_⟩
  rw [← capacitySum_uncounted_eq_zero_iff, keyed.toNat_totalCapacity, capacitySum_scids]
  omega

/-- The ferry is listed from `B` to `A` only, so its capacity is not counted. -/
theorem wayBack_not_counted :
    let graph := empty.applyListings [({}, [ferryListed "B" "A" 1000], {})]
    graph.totalCapacity = 0 ∧ graph.capacitySum graph.scids = 1000000 := by
  decide +kernel

end Graph

end Rebalancing
