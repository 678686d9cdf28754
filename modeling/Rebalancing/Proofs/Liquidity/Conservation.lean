import Rebalancing.Proofs.Graph.Refresh

/-!
# Conservation of liquidity

Funds in a channel are moved from one of its sides to the other, so the estimates of its
two directions are to add up to its capacity.  A graph that was loaded from elsewhere may
break that.  A refresh establishes it anew for every physical channel that its listing
names, in whatever order and number the records come and whatever is drawn, and leaves the
others alone; and it never subtracts more than there is.
-/

namespace UInt64

/-- A difference, unless it would fall below zero. -/
def checkedSub (a b : UInt64) : Option UInt64 := if b ≤ a then some (a - b) else none

theorem checkedSub_of_le {a b : UInt64} (h : b ≤ a) : a.checkedSub b = some (a - b) := if_pos h

end UInt64

namespace Rebalancing

open Std

/-- The stored directions of a physical channel hold no more than its capacity each, and exactly its
capacity together. -/
structure Graph.Balances (graph : Graph) (scid : ShortChannelId) : Prop where
  bounded (direction : Direction) (channel : Channel) :
    graph.channel? ⟨scid, direction⟩ = some channel → channel.liquidity ≤ channel.capacity
  split (direction : Direction) (channel opposite : Channel) :
    graph.channel? ⟨scid, direction⟩ = some channel →
    graph.channel? ⟨scid, direction.opposite⟩ = some opposite →
    channel.capacity = opposite.capacity ∧
      channel.liquidity.toNat + opposite.liquidity.toNat = channel.capacity.toNat

/-- Whether a physical channel balances depends on its own directions only. -/
theorem Graph.Balances.congr {graph graph' : Graph} {scid : ShortChannelId}
    (balances : graph.Balances scid)
    (same : ∀ direction, graph'.channel? ⟨scid, direction⟩ = graph.channel? ⟨scid, direction⟩) :
    graph'.Balances scid where
  bounded direction channel := by
    rw [same]
    exact balances.bounded direction channel
  split direction channel opposite := by
    rw [same, same]
    exact balances.split direction channel opposite

namespace Refresh

variable {listed : ListedChannel} {listing : List ListedChannel} {aging : Aging} {state : Refresh}
  {graph : Graph} {liquidity : Msat}

/-! ## One record -/

/-- A direction that is given an estimate within the capacity has exactly that. -/
theorem liquidity_ofListed (within : liquidity ≤ listed.capacity) :
    (Channel.ofListed listed liquidity).liquidity = liquidity := by
  show min liquidity listed.capacity = liquidity
  exact if_pos within

/-- What the two directions of a record hold once they share its capacity. -/
theorem eq_of_shared (within : liquidity ≤ listed.capacity) {id : ChannelId} {channel : Channel}
    (same : id.scid = listed.scid) (h : shared graph listed liquidity id = some channel) :
    channel.capacity = listed.capacity ∧
      channel.liquidity = if id = listed.id then liquidity else listed.capacity - liquidity := by
  unfold shared at h
  by_cases hid : id = listed.id
  · rw [if_pos hid] at h
    cases h
    rw [if_pos hid]
    exact ⟨rfl, liquidity_ofListed within⟩
  · have hopposite : id = listed.id.opposite :=
      (ChannelId.eq_or_eq_opposite same).resolve_left hid
    rw [if_neg hid, if_pos hopposite, Option.map_eq_some_iff] at h
    obtain ⟨before, -, rfl⟩ := h
    rw [if_neg hid]
    exact ⟨rfl, rfl⟩

/-- The physical channel of a record balances once the record has been taken in. -/
theorem balances_record (aging : Aging) (state : Refresh) (valid : listed.isValid) :
    (record aging state listed).graph.Balances listed.scid := by
  obtain ⟨liquidity, within, hchannels⟩ := channel?_record aging state valid
  have hrest : listed.capacity - liquidity ≤ listed.capacity := UInt64.sub_le within
  have hsum : liquidity.toNat + (listed.capacity - liquidity).toNat = listed.capacity.toNat := by
    rw [UInt64.toNat_sub_of_le _ _ within]
    exact Nat.add_sub_of_le (UInt64.le_iff_toNat_le.mp within)
  constructor
  · intro direction channel h
    rw [hchannels] at h
    obtain ⟨hcapacity, hliquidity⟩ := eq_of_shared within rfl h
    rw [hcapacity, hliquidity]
    split
    next => exact within
    next => exact hrest
  · intro direction channel opposite h h'
    rw [hchannels] at h h'
    obtain ⟨hcapacity, hliquidity⟩ := eq_of_shared within rfl h
    obtain ⟨hcapacity', hliquidity'⟩ := eq_of_shared within rfl h'
    refine ⟨hcapacity.trans hcapacity'.symm, ?_⟩
    rw [hliquidity, hliquidity', hcapacity]
    have hscid : (⟨listed.scid, direction⟩ : ChannelId).scid = listed.id.scid := rfl
    rcases ChannelId.eq_or_eq_opposite hscid with hid | hid
    · have hne : (⟨listed.scid, direction.opposite⟩ : ChannelId) ≠ listed.id := by
        rw [← hid]
        exact ChannelId.opposite_ne ⟨listed.scid, direction⟩
      rw [if_pos hid, if_neg hne]
      exact hsum
    · have heq : (⟨listed.scid, direction.opposite⟩ : ChannelId) = listed.id := by
        rw [← ChannelId.opposite_opposite listed.id, ← hid]
        rfl
      have hne : (⟨listed.scid, direction⟩ : ChannelId) ≠ listed.id := by
        rw [hid]
        exact ChannelId.opposite_ne listed.id
      rw [if_neg hne, if_pos heq, Nat.add_comm]
      exact hsum

/-- A physical channel that balances goes on doing so. -/
theorem balances_record_of_balances {scid : ShortChannelId} (balances : state.graph.Balances scid)
    (aging : Aging) (listed : ListedChannel) :
    (record aging state listed).graph.Balances scid := by
  cases valid : listed.isValid with
  | false =>
    rw [graph_record_of_not_valid valid]
    exact balances
  | true =>
    by_cases same : scid = listed.scid
    · rw [same]
      exact balances_record aging state valid
    · exact balances.congr fun direction => channel?_record_of_ne aging state same

/-! ## Whole listings -/

/-- What a refresh has established so far: the ids that it has seen are stored, and their physical
channels balance. -/
structure Conserves (state : Refresh) : Prop where
  stored : ∀ id ∈ state.seen, (state.graph.channel? id).isSome
  balances : ∀ id ∈ state.seen, state.graph.Balances id.scid

/-- Each record keeps it. -/
theorem Conserves.record (conserves : state.Conserves) (aging : Aging) (listed : ListedChannel) :
    (Refresh.record aging state listed).Conserves := by
  constructor
  · intro id seen
    rcases mem_seen_record.mp seen with seen | ⟨valid, rfl⟩
    · exact isSome_channel?_record aging state listed (conserves.stored id seen)
    · obtain ⟨liquidity, -, hchannels⟩ := channel?_record aging state valid
      rw [hchannels, shared, if_pos rfl]
      rfl
  · intro id seen
    rcases mem_seen_record.mp seen with seen | ⟨valid, rfl⟩
    · exact balances_record_of_balances (conserves.balances id seen) aging listed
    · exact balances_record aging state valid

/-- So does a whole listing. -/
theorem Conserves.foldl (conserves : state.Conserves) (aging : Aging)
    (listing : List ListedChannel) : (listing.foldl (Refresh.record aging) state).Conserves := by
  induction listing generalizing state with
  | nil => exact conserves
  | cons first rest ih => exact ih (conserves.record aging first)

/-! ## Checked subtraction -/

theorem enterBy_checkedSub (graph : Graph) (listed : ListedChannel) :
    enterBy UInt64.checkedSub graph listed = some (enter graph listed) := by
  unfold enter enterBy
  cases graph.channel? listed.id.opposite with
  | none => rfl
  | some opposite =>
    have within : min opposite.liquidity listed.capacity ≤ listed.capacity := Std.min_le_right
    simp only
    rw [UInt64.checkedSub_of_le within]
    rfl

theorem renewBy_checkedSub (graph : Graph) (within : liquidity ≤ listed.capacity) :
    renewBy UInt64.checkedSub graph listed liquidity = some (renew graph listed liquidity) := by
  unfold renew renewBy
  simp only
  rw [UInt64.checkedSub_of_le within]
  rfl

/-- Taking in a record never subtracts more than there is. -/
theorem recordBy_checkedSub (aging : Aging) (state : Refresh) (listed : ListedChannel) :
    recordBy UInt64.checkedSub aging state listed = some (record aging state listed) := by
  cases valid : listed.isValid with
  | false =>
    unfold record recordBy
    rw [valid]
    rfl
  | true =>
    cases stored : state.graph.channel? listed.id with
    | none =>
      unfold record recordBy
      rw [valid, stored]
      simp only [enterBy_checkedSub]
      rfl
    | some known =>
      have renewed := renewBy_checkedSub state.graph
        (Aging.age_le known.liquidity (aging.draw state.words).1 listed.capacity)
      unfold record recordBy
      rw [valid, stored]
      simp only [renewed]
      rfl

end Refresh

namespace Graph

/-- A refresh with checked subtraction. -/
def refresh? (graph : Graph) (aging : Aging) (listing : List ListedChannel) (words : WordSupply) :
    Option Refresh :=
  graph.refreshBy UInt64.checkedSub aging listing words

theorem refresh?_eq_some (graph : Graph) (aging : Aging) (listing : List ListedChannel)
    (words : WordSupply) : graph.refresh? aging listing words =
      some (graph.refresh aging listing words) := by
  have hfold : ∀ state : Refresh, listing.foldlM (Refresh.recordBy UInt64.checkedSub aging) state =
      some (listing.foldl (Refresh.record aging) state) := by
    induction listing with
    | nil => exact fun _ => rfl
    | cons first rest ih =>
      intro state
      rw [List.foldlM_cons, Refresh.recordBy_checkedSub]
      exact ih _
  rw [refresh?, refreshBy, hfold, refresh_eq]
  rfl

/-! ## Refresh and prune -/

/-- Nothing is seen before the first record, and remembering the ids moves no estimate. -/
theorem conserves_refresh (graph : Graph) (aging : Aging) (listing : List ListedChannel)
    (words : WordSupply) : (graph.refresh aging listing words).Conserves := by
  have start : Refresh.Conserves { graph, words } := by
    constructor
    · intro id seen
      exact absurd seen ExtTreeSet.not_mem_empty
    · intro id seen
      exact absurd seen ExtTreeSet.not_mem_empty
  have conserves := start.foldl aging listing
  rw [refresh_eq]
  exact ⟨conserves.stored, fun id seen => (conserves.balances id seen).congr fun _ => rfl⟩

/-- What a prune keeps balances if the channels named by the last listing do. -/
theorem balances_prune {graph : Graph} {seen : ExtTreeSet ChannelId}
    (listed : graph.listed = some seen)
    (balances : ∀ id : ChannelId, id ∈ seen → graph.Balances id.scid)
    (scid : ShortChannelId) : graph.prune.Balances scid := by
  have kept : ∀ {direction channel}, graph.prune.channel? ⟨scid, direction⟩ = some channel →
      graph.Balances scid ∧ graph.channel? ⟨scid, direction⟩ = some channel := by
    intro direction channel h
    rw [channel?_prune listed] at h
    split at h
    next hseen => exact ⟨balances _ hseen, h⟩
    next => cases h
  constructor
  · intro direction channel h
    obtain ⟨balances, h⟩ := kept h
    exact balances.bounded direction channel h
  · intro direction channel opposite h h'
    obtain ⟨balances, h⟩ := kept h
    obtain ⟨-, h'⟩ := kept h'
    exact balances.split direction channel opposite h h'

/-- **Conservation.**  Whatever was stored and whatever is drawn, after a refresh every channel that
a valid record names is stored and holds no more than its capacity, and the stored directions of its
physical channel hold exactly the capacity together.  No subtraction of the refresh goes below zero.
After the prune that follows this is so of everything that is stored. -/
theorem refresh_conserves (graph : Graph) (aging : Aging) (listing : List ListedChannel)
    (words : WordSupply) :
    (∀ listed ∈ listing, listed.isValid →
      ∃ channel, (graph.refresh aging listing words).graph.channel? listed.id = some channel ∧
        channel.liquidity ≤ channel.capacity) ∧
    (∀ listed ∈ listing, listed.isValid →
      (graph.refresh aging listing words).graph.Balances listed.scid) ∧
    graph.refresh? aging listing words = some (graph.refresh aging listing words) ∧
    ∀ scid, (graph.applyListing aging listing words).graph.Balances scid := by
  have conserves := graph.conserves_refresh aging listing words
  have seen : ∀ listed ∈ listing, listed.isValid →
      listed.id ∈ (graph.refresh aging listing words).seen :=
    fun listed mem valid => mem_seen_refresh.mpr ⟨listed, mem, valid, rfl⟩
  refine ⟨?_, ?_, graph.refresh?_eq_some aging listing words, ?_⟩
  · intro listed mem valid
    have seen := seen listed mem valid
    obtain ⟨channel, hchannel⟩ := Option.isSome_iff_exists.mp (conserves.stored _ seen)
    exact ⟨channel, hchannel, (conserves.balances _ seen).bounded _ _ hchannel⟩
  · intro listed mem valid
    exact conserves.balances _ (seen listed mem valid)
  · intro scid
    exact balances_prune (graph.listed_refresh aging listing words) conserves.balances scid

end Graph

end Rebalancing
