import Mathlib.Data.Finset.Card
import Mathlib.Data.List.Induction
import Rebalancing.Proofs.Graph.Refresh
import Rebalancing.Proofs.Lists

/-!
# What a listing determines

A graph that a listing has been applied to holds the channels that valid records of the
listing name, and no others.  Each is as the last valid record of its direction has it.
Only the capacity is shared by the two directions of a physical channel, so the last valid
record of either of them decides about that.  What was stored before, and what is drawn,
is left in the estimates of liquidity only.

`Refresh.Takes` says what has become of a graph after the first records of a listing; one
more record keeps it.
-/

namespace Rebalancing

open Std

namespace ListedChannel

variable {listing : List ListedChannel} {listed : ListedChannel} {p : ListedChannel → Bool}

/-- The last valid record that `p` holds of. -/
def last? (listing : List ListedChannel) (p : ListedChannel → Bool) : Option ListedChannel :=
  (listing.filter fun listed => listed.isValid && p listed).getLast?

/-- A record takes the place of those in front of it. -/
theorem last?_concat : last? (listing ++ [listed]) p =
    if listed.isValid && p listed then some listed else last? listing p :=
  List.getLast?_filter_concat _ listing listed

/-- Some valid record is of this direction. -/
def Names (listing : List ListedChannel) (id : ChannelId) : Prop :=
  ∃ listed ∈ listing, listed.isValid ∧ listed.id = id

theorem names_concat {id : ChannelId} :
    Names (listing ++ [listed]) id ↔ Names listing id ∨ (listed.isValid ∧ listed.id = id) := by
  unfold Names
  simp only [List.mem_append, List.mem_singleton, or_and_right, exists_or, exists_eq_left]

/-- There is a last record if there is any. -/
theorem exists_last? (mem : listed ∈ listing) (valid : listed.isValid) (h : p listed) :
    ∃ last, last? listing p = some last := by
  have hmem : listed ∈ listing.filter fun listed => listed.isValid && p listed :=
    List.mem_filter.mpr ⟨mem, by rw [valid, h]; rfl⟩
  exact ⟨_, List.getLast?_eq_some_getLast (List.ne_nil_of_mem hmem)⟩

end ListedChannel

/-- A channel as a listing has it: the capacity is that of the record `recent`, and everything else
but the estimate of liquidity is that of the record `own`. -/
structure Channel.IsListed (channel : Channel) (own recent : ListedChannel) : Prop where
  scid : channel.scid = own.scid
  source : channel.source = own.source
  destination : channel.destination = own.destination
  capacity : channel.capacity = recent.capacity
  baseFee : channel.baseFee = own.baseFee
  feePerMillionth : channel.feePerMillionth = own.feePerMillionth
  minHtlc : channel.minHtlc = own.htlcMinimum
  maxHtlc : channel.maxHtlc = own.htlcMaximum.getD own.capacity
  delay : channel.delay = own.delay
  active : channel.active = own.active
  lastUpdate : channel.lastUpdate = own.lastUpdate

namespace Channel

variable {channel : Channel} {own recent listed : ListedChannel} {liquidity : Msat}

theorem isListed_ofListed : (ofListed listed liquidity).IsListed listed listed := by
  constructor <;> rfl

/-- A record of the opposite direction decides about the capacity, and about nothing else. -/
theorem IsListed.share (h : channel.IsListed own recent) :
    { channel with capacity := listed.capacity, liquidity := liquidity : Channel }.IsListed own
      listed :=
  { h with capacity := rfl }

end Channel

namespace Graph

variable {graph : Graph} {channel : Channel} {listing : List ListedChannel}
  {listed : ListedChannel} {id : ChannelId}

/-! ## How many channels are stored -/

theorem contains_channels : graph.channels.contains id = (graph.channel? id).isSome :=
  ExtTreeMap.contains_eq_isSome_getElem?

/-- One more channel is stored, unless the id is stored already. -/
theorem size_add : (graph.add channel).channels.size =
    if (graph.channel? channel.id).isSome then graph.channels.size
    else graph.channels.size + 1 := by
  rw [channels_add, ExtTreeMap.size_insert, contains_channels]

@[simp] theorem size_modify {change : Channel → Channel} :
    (graph.modify id change).channels.size = graph.channels.size :=
  ExtTreeMap.size_modify

/-- Changing a record leaves it stored. -/
theorem isSome_channel?_modify {changed : ChannelId} {change : Channel → Channel} :
    ((graph.modify changed change).channel? id).isSome = (graph.channel? id).isSome := by
  rw [channel?_modify]
  split
  next => exact Option.isSome_map
  next => rfl

/-- Removing stored channels, none of them twice, leaves so many fewer. -/
theorem size_foldl_remove {ids : List ChannelId} (distinct : ids.Nodup)
    (stored : ∀ id ∈ ids, (graph.channel? id).isSome) :
    (ids.foldl remove graph).channels.size + ids.length = graph.channels.size := by
  induction ids generalizing graph with
  | nil => rfl
  | cons first rest ih =>
    obtain ⟨hne, distinct⟩ := List.nodup_cons.mp distinct
    have hfirst : graph.channels.contains first :=
      contains_channels.trans (stored first List.mem_cons_self)
    have hpos : graph.channels.size ≠ 0 := by
      intro hzero
      rw [← ExtTreeMap.eq_empty_iff_size_eq_zero] at hzero
      simp [hzero] at hfirst
    have remaining : ∀ id ∈ rest, ((graph.remove first).channel? id).isSome := by
      intro id mem
      rw [channel?_remove, if_neg (ne_of_mem_of_not_mem mem hne)]
      exact stored id (List.mem_cons_of_mem _ mem)
    have hrest := ih distinct remaining
    rw [channels_remove, ExtTreeMap.size_erase, if_pos hfirst] at hrest
    rw [List.foldl_cons, List.length_cons]
    omega

/-- A prune removes what is stale, each channel once. -/
theorem size_prune (graph : Graph) :
    graph.prune.channels.size + graph.stale.length = graph.channels.size := by
  refine size_foldl_remove ?_ ?_
  · unfold stale
    split
    next => exact List.nodup_nil
    next => exact graph.channels.nodup_keys.filter _
  · intro id mem
    unfold stale at mem
    split at mem
    next => cases mem
    next =>
      have hkey := (List.mem_filter.mp mem).1
      rw [← contains_channels]
      exact ExtTreeMap.contains_iff_mem.mpr (ExtTreeMap.mem_keys.mp hkey)

/-! ## The ids that are new to a graph -/

/-- The ids of the valid records that the graph does not store. -/
def unknown (graph : Graph) (listing : List ListedChannel) : Finset ChannelId :=
  ((listing.filter (·.isValid)).map (·.id)).toFinset.filter fun id => graph.channel? id = none

theorem mem_unknown : id ∈ graph.unknown listing ↔
    ListedChannel.Names listing id ∧ graph.channel? id = none := by
  simp [unknown, ListedChannel.Names, and_assoc]

theorem unknown_concat : graph.unknown (listing ++ [listed]) =
    if listed.isValid ∧ graph.channel? listed.id = none then insert listed.id (graph.unknown listing)
    else graph.unknown listing := by
  ext id
  rw [mem_unknown, ListedChannel.names_concat]
  split
  next new =>
    rw [Finset.mem_insert, mem_unknown]
    constructor
    · rintro ⟨names | ⟨-, hid⟩, hnone⟩
      · exact .inr ⟨names, hnone⟩
      · exact .inl hid.symm
    · rintro (rfl | ⟨names, hnone⟩)
      · exact ⟨.inr ⟨new.1, rfl⟩, new.2⟩
      · exact ⟨.inl names, hnone⟩
  next known =>
    rw [mem_unknown]
    constructor
    · rintro ⟨names | ⟨valid, hid⟩, hnone⟩
      · exact ⟨names, hnone⟩
      · exact absurd ⟨valid, hid ▸ hnone⟩ known
    · rintro ⟨names, hnone⟩
      exact ⟨.inl names, hnone⟩

end Graph

namespace Refresh

variable {graph : Graph} {listing : List ListedChannel} {listed : ListedChannel} {aging : Aging}
  {state : Refresh}

/-! ## One record -/

/-- A valid record is stored, and no other id. -/
theorem isSome_channel?_record_iff {id : ChannelId} :
    ((record aging state listed).graph.channel? id).isSome ↔
      (state.graph.channel? id).isSome ∨ (listed.isValid ∧ listed.id = id) := by
  cases valid : listed.isValid with
  | false => simp [graph_record_of_not_valid valid]
  | true =>
    obtain ⟨liquidity, -, hshared⟩ := channel?_record aging state valid
    rw [hshared, shared]
    by_cases hid : id = listed.id
    · simp [hid]
    · rw [if_neg hid]
      split
      next => simp [Ne.symm hid]
      next => simp [Ne.symm hid]

/-- What a record is counted as. -/
theorem summary_record (aging : Aging) (state : Refresh) (listed : ListedChannel) :
    (record aging state listed).summary =
      if listed.isValid = false then
        { state.summary with skipped := state.summary.skipped + 1 }
      else if state.graph.channel? listed.id = none then
        { state.summary with added := state.summary.added + 1 }
      else { state.summary with updated := state.summary.updated + 1 } := by
  unfold record recordBy
  cases listed.isValid with
  | false => rfl
  | true => cases state.graph.channel? listed.id <;> rfl

/-- One more channel is stored if the record enters. -/
theorem size_take (drift : Msat) (graph : Graph) (listed : ListedChannel) :
    (take drift graph listed).channels.size =
      graph.channels.size + (enters graph listed).toNat := by
  unfold enters
  cases valid : listed.isValid with
  | false =>
    rw [take_of_not_valid valid]
    rfl
  | true =>
    obtain ⟨liquidity, change, -, htake⟩ := exists_take_eq drift graph valid
    rw [htake, Graph.size_add, Graph.isSome_channel?_modify, Graph.size_modify, Channel.id_ofListed]
    cases graph.channel? listed.id with
    | none => rfl
    | some known => rfl

/-- Every channel that is stored has been counted as added, or was there before. -/
theorem size_record (aging : Aging) (state : Refresh) (listed : ListedChannel) :
    (record aging state listed).graph.channels.size + state.summary.added =
      state.graph.channels.size + (record aging state listed).summary.added := by
  rw [graph_record, size_take, summary_record, enters]
  cases listed.isValid with
  | false => rfl
  | true =>
    cases state.graph.channel? listed.id with
    | none =>
      show state.graph.channels.size + 1 + state.summary.added = _ + (state.summary.added + 1)
      rw [Nat.add_right_comm, Nat.add_assoc]
    | some known => rfl

/-! ## Whole listings -/

/-- What has become of `graph` when a refresh has taken in the records of `listing`. -/
structure Takes (graph : Graph) (listing : List ListedChannel) (state : Refresh) : Prop where
  stored : ∀ id, (state.graph.channel? id).isSome ↔
    (graph.channel? id).isSome ∨ ListedChannel.Names listing id
  listed : ∀ id channel own, ListedChannel.last? listing (·.id = id) = some own →
    state.graph.channel? id = some channel →
      ∃ recent, ListedChannel.last? listing (·.scid = id.scid) = some recent ∧
        channel.IsListed own recent
  counted : state.summary.added + state.summary.updated + state.summary.skipped = listing.length
  skipped : state.summary.skipped = listing.countP (!·.isValid)
  added : state.summary.added = (graph.unknown listing).card
  size : state.graph.channels.size = graph.channels.size + state.summary.added

theorem takes_nil (graph : Graph) (words : WordSupply) : Takes graph [] { graph, words } where
  stored := by simp [ListedChannel.Names]
  listed := by simp [ListedChannel.last?]
  counted := rfl
  skipped := rfl
  added := rfl
  size := rfl

/-- The direction of a record is as the record has it; the opposite one takes over the capacity; and
no other channel is touched. -/
theorem Takes.listed_record (takes : Takes graph listing state) (aging : Aging)
    (listed : ListedChannel) (id : ChannelId) (channel : Channel) (own : ListedChannel)
    (last : ListedChannel.last? (listing ++ [listed]) (·.id = id) = some own)
    (h : (record aging state listed).graph.channel? id = some channel) :
    ∃ recent, ListedChannel.last? (listing ++ [listed]) (·.scid = id.scid) = some recent ∧
      channel.IsListed own recent := by
  rw [ListedChannel.last?_concat] at last ⊢
  cases valid : listed.isValid with
  | false =>
    rw [graph_record_of_not_valid valid] at h
    simp only [valid, Bool.false_and, Bool.false_eq_true, if_false] at last ⊢
    exact takes.listed id channel own last h
  | true =>
    obtain ⟨liquidity, -, hshared⟩ := channel?_record aging state valid
    simp only [valid, Bool.true_and, decide_eq_true_eq] at last ⊢
    rw [hshared, shared] at h
    by_cases hid : id = listed.id
    · rw [if_pos hid] at h
      rw [if_pos hid.symm] at last
      cases h
      cases last
      exact ⟨listed, if_pos (congrArg ChannelId.scid hid).symm, Channel.isListed_ofListed⟩
    rw [if_neg hid] at h
    rw [if_neg (Ne.symm hid)] at last
    by_cases hopposite : id = listed.id.opposite
    · rw [if_pos hopposite] at h
      obtain ⟨before, hbefore, rfl⟩ := Option.map_eq_some_iff.mp h
      obtain ⟨recent, -, isListed⟩ := takes.listed id before own last hbefore
      exact ⟨listed, if_pos (congrArg ChannelId.scid hopposite).symm, isListed.share⟩
    · rw [if_neg hopposite] at h
      rw [if_neg]
      · exact takes.listed id channel own last h
      · intro same
        have side : id = listed.id ∨ id = listed.id.opposite :=
          ChannelId.eq_or_eq_opposite same.symm
        exact side.elim hid hopposite

/-- A record brings a new id if its direction is not stored when it is taken in. -/
theorem Takes.card_unknown_concat (takes : Takes graph listing state) (listed : ListedChannel) :
    (graph.unknown (listing ++ [listed])).card = (graph.unknown listing).card +
      if listed.isValid ∧ state.graph.channel? listed.id = none then 1 else 0 := by
  rw [Graph.unknown_concat]
  by_cases valid : listed.isValid
  swap
  · rw [if_neg fun h => valid h.1, if_neg fun h => valid h.1, Nat.add_zero]
  simp only [valid, true_and]
  have stored := takes.stored listed.id
  cases known : state.graph.channel? listed.id with
  | none =>
    obtain ⟨new, unnamed⟩ : ¬ (graph.channel? listed.id).isSome ∧
        ¬ ListedChannel.Names listing listed.id :=
      not_or.mp fun h => by simpa [known] using stored.mpr h
    rw [Option.not_isSome_iff_eq_none] at new
    rw [if_pos new, if_pos rfl]
    exact Finset.card_insert_of_notMem fun mem => unnamed (Graph.mem_unknown.mp mem).1
  | some channel =>
    rw [if_neg (Option.some_ne_none channel), Nat.add_zero]
    split
    next new =>
      have named : ListedChannel.Names listing listed.id :=
        (stored.mp (known ▸ rfl)).resolve_left (by simp [new])
      rw [Finset.insert_eq_of_mem (Graph.mem_unknown.mpr ⟨named, new⟩)]
    next => rfl

/-- One more record. -/
theorem Takes.record (takes : Takes graph listing state) (aging : Aging) (listed : ListedChannel) :
    Takes graph (listing ++ [listed]) (Refresh.record aging state listed) where
  stored id := by
    rw [isSome_channel?_record_iff, takes.stored, ListedChannel.names_concat, or_assoc]
  listed := takes.listed_record aging listed
  counted := by
    have counted := takes.counted
    rw [summary_record, List.length_append, List.length_singleton]
    split_ifs <;> simp only <;> omega
  skipped := by
    have skipped := takes.skipped
    rw [summary_record, List.countP_append, List.countP_singleton]
    split_ifs <;> simp_all
  added := by
    have added := takes.added
    rw [takes.card_unknown_concat, ← added, summary_record]
    split_ifs <;> simp_all
  size := by
    have := takes.size
    have := size_record aging state listed
    omega

/-- A whole listing. -/
theorem takes_foldl (graph : Graph) (aging : Aging) (listing : List ListedChannel)
    (words : WordSupply) : Takes graph listing (listing.foldl (record aging) { graph, words }) := by
  induction listing using List.reverseRecOn with
  | nil => exact takes_nil graph words
  | append_singleton listing listed ih =>
    rw [List.foldl_concat]
    exact ih.record aging listed

end Refresh

namespace Graph

/-- A refresh has taken in the whole listing. -/
theorem takes_refresh (graph : Graph) (aging : Aging) (listing : List ListedChannel)
    (words : WordSupply) : Refresh.Takes graph listing (graph.refresh aging listing words) := by
  rw [refresh_eq]
  exact { Refresh.takes_foldl graph aging listing words with }

/-- What is stored after a listing has been applied was taken in from it. -/
theorem channel?_applyListing {graph : Graph} {aging : Aging} {listing : List ListedChannel}
    {words : WordSupply} {id : ChannelId} {channel : Channel} :
    (graph.applyListing aging listing words).graph.channel? id = some channel ↔
      ListedChannel.Names listing id ∧
        (graph.refresh aging listing words).graph.channel? id = some channel := by
  have pruned : (graph.applyListing aging listing words).graph.channel? id =
      if id ∈ (graph.refresh aging listing words).seen then
        (graph.refresh aging listing words).graph.channel? id
      else none := channel?_prune (graph.listed_refresh aging listing words)
  have seen : id ∈ (graph.refresh aging listing words).seen ↔ ListedChannel.Names listing id :=
    mem_seen_refresh
  rw [pruned, ← seen]
  split
  next mem => exact (and_iff_right mem).symm
  next mem => exact iff_of_false nofun fun h => mem h.1

/-- **A listing determines the channels.**  After a listing has been applied to any graph, the stored
channels are those that valid records name; each is as the last valid record of its direction has it,
with the capacity of the last valid record of either direction; and names are as they were.  Every
record of the listing is counted once, as skipped if it is not valid and as added if it is the first
of a direction that was not stored; and what was stored and added is what is stored and pruned. -/
theorem applyListing_determined (graph : Graph) (aging : Aging) (listing : List ListedChannel)
    (words : WordSupply) :
    let after := graph.applyListing aging listing words
    (∀ id, (∃ channel, after.graph.channel? id = some channel) ↔ ListedChannel.Names listing id) ∧
    (∀ id channel, after.graph.channel? id = some channel →
      ∃ own recent, ListedChannel.last? listing (·.id = id) = some own ∧
        ListedChannel.last? listing (·.scid = id.scid) = some recent ∧
        channel.IsListed own recent) ∧
    after.graph.names = graph.names ∧
    after.summary.added + after.summary.updated + after.summary.skipped = listing.length ∧
    after.summary.skipped = listing.countP (!·.isValid) ∧
    after.summary.added = (graph.unknown listing).card ∧
    graph.channels.size + after.summary.added =
      after.graph.channels.size + after.summary.pruned := by
  have takes := graph.takes_refresh aging listing words
  refine ⟨?_, ?_, names_applyListing graph aging listing words, takes.counted, takes.skipped,
    takes.added, ?_⟩
  · intro id
    constructor
    · rintro ⟨channel, h⟩
      exact (channel?_applyListing.mp h).1
    · intro names
      obtain ⟨channel, h⟩ := Option.isSome_iff_exists.mp ((takes.stored id).mpr (.inr names))
      exact ⟨channel, channel?_applyListing.mpr ⟨names, h⟩⟩
  · intro id channel h
    obtain ⟨⟨listed, mem, valid, hid⟩, h⟩ := channel?_applyListing.mp h
    obtain ⟨own, last⟩ := ListedChannel.exists_last? mem valid (p := (·.id = id)) (by simpa)
    obtain ⟨recent, hrecent, isListed⟩ := takes.listed id channel own last h
    exact ⟨own, recent, last, hrecent, isListed⟩
  · have pruned := size_prune (graph.refresh aging listing words).graph
    exact takes.size.symm.trans pruned.symm

end Graph

end Rebalancing
