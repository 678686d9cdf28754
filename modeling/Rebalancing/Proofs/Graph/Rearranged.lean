import Rebalancing.Proofs.Graph.Listing
import Rebalancing.Proofs.Graph.Order

/-!
# Rearranged listings

The records of one physical channel act on each other, so their order matters.  Those of
different physical channels do not: each reads and writes its own two directions, and what
they share, the indices, the ids that have been seen and the counts, does not depend on the
order in which it grows.  So two listings that differ in the order of records of different
physical channels only leave the same graph, provided that the same drift is drawn for all
records; the drifts are dealt out in the order of the records.
-/

namespace Rebalancing

open Std

/-- The same records in another order, but for the records of each physical channel. -/
def ListedChannel.Rearranges (listing listing' : List ListedChannel) : Prop :=
  ∀ scid, listing.filter (·.scid = scid) = listing'.filter (·.scid = scid)

namespace ListedChannel

/-- It is a permutation. -/
theorem Rearranges.perm {listing listing' : List ListedChannel}
    (rearranges : Rearranges listing listing') : listing.Perm listing' := by
  refine List.perm_iff_count.mpr fun listed => ?_
  have h := congrArg (List.count listed) (rearranges listed.scid)
  rwa [List.count_filter (by simp), List.count_filter (by simp)] at h

/-- Neighbours that belong to different physical channels may change places. -/
theorem rearranges_swap {first second : ListedChannel} (ne : first.scid ≠ second.scid)
    (before behind : List ListedChannel) :
    Rearranges (before ++ first :: second :: behind) (before ++ second :: first :: behind) :=
  List.filter_swap scid ne before behind

end ListedChannel

namespace Refresh

variable {graph graph' : Graph} {state : Refresh} {listing : List ListedChannel} {drift : Msat}
  {listed first second : ListedChannel} {aging : Aging} {id : ChannelId}

/-! ## Two records -/

/-- What a record leaves in its own physical channel depends on that alone. -/
theorem channel?_take_congr
    (same : ∀ id : ChannelId, id.scid = listed.scid → graph.channel? id = graph'.channel? id)
    (h : id.scid = listed.scid) :
    (take drift graph listed).channel? id = (take drift graph' listed).channel? id := by
  cases valid : listed.isValid with
  | false =>
    rw [take_of_not_valid valid, take_of_not_valid valid]
    exact same id h
  | true =>
    rw [channel?_take _ _ valid, channel?_take _ _ valid]
    simp only [shared, estimate]
    rw [same id h, same listed.id rfl, same listed.id.opposite rfl]

/-- Whether a record enters a graph does not depend on other physical channels. -/
theorem enters_take (drift : Msat) (graph : Graph) (ne : first.scid ≠ second.scid) :
    enters (take drift graph second) first = enters graph first := by
  have h : first.id.scid ≠ second.scid := ne
  rw [enters, channel?_take_of_ne drift graph h, enters]

/-- Nor does whether it renews its direction. -/
theorem renews_take (drift : Msat) (graph : Graph) (ne : first.scid ≠ second.scid) :
    renews (take drift graph second) first = renews graph first := by
  have h : first.id.scid ≠ second.scid := ne
  rw [renews, channel?_take_of_ne drift graph h, renews]

/-- A record that enters is linked, and no other. -/
theorem links_take (drift : Msat) (graph : Graph) (listed : ListedChannel) :
    (take drift graph listed).outbound =
      (if enters graph listed then graph.outbound.link listed.source listed.destination listed.scid
        else graph.outbound) ∧
    (take drift graph listed).inbound =
      (if enters graph listed then graph.inbound.link listed.destination listed.source listed.scid
        else graph.inbound) := by
  cases valid : listed.isValid with
  | false =>
    rw [take_of_not_valid valid, enters, valid]
    exact ⟨rfl, rfl⟩
  | true =>
    obtain ⟨liquidity, change, -, htake⟩ := exists_take_eq drift graph valid
    have hnew : (graph.modify listed.id.opposite change).isNew (.ofListed listed liquidity) =
        enters graph listed := by
      rw [enters, valid, Bool.true_and, Graph.isNew, Graph.contains_channels,
        Graph.isSome_channel?_modify, Channel.id_ofListed, Option.not_isSome]
    rw [htake, Graph.add, hnew]
    cases enters graph listed with
    | false => exact ⟨rfl, rfl⟩
    | true => exact ⟨rfl, rfl⟩

theorem listed_take (drift : Msat) (graph : Graph) (listed : ListedChannel) :
    (take drift graph listed).listed = graph.listed := by
  cases valid : listed.isValid with
  | false => rw [take_of_not_valid valid]
  | true =>
    obtain ⟨liquidity, change, -, htake⟩ := exists_take_eq drift graph valid
    rw [htake]
    exact Graph.listed_add _ _

/-- Records of different physical channels are stored in any order. -/
theorem channel?_take_comm (drift : Msat) (graph : Graph) (ne : first.scid ≠ second.scid)
    (id : ChannelId) : (take drift (take drift graph second) first).channel? id =
      (take drift (take drift graph first) second).channel? id := by
  by_cases hfirst : id.scid = first.scid
  · have hsecond : id.scid ≠ second.scid := hfirst ▸ ne
    rw [channel?_take_of_ne _ (take drift graph first) hsecond]
    refine channel?_take_congr (fun id h => ?_) hfirst
    exact channel?_take_of_ne drift graph (h ▸ ne)
  · rw [channel?_take_of_ne _ (take drift graph second) hfirst]
    by_cases hsecond : id.scid = second.scid
    · refine channel?_take_congr (fun id h => ?_) hsecond
      exact (channel?_take_of_ne drift graph (h ▸ ne.symm)).symm
    · rw [channel?_take_of_ne _ _ hsecond, channel?_take_of_ne _ _ hsecond,
        channel?_take_of_ne _ _ hfirst]

/-- They are taken in in any order. -/
theorem take_comm (drift : Msat) (graph : Graph) (ne : first.scid ≠ second.scid) :
    take drift (take drift graph second) first = take drift (take drift graph first) second := by
  refine Graph.ext_channel? (channel?_take_comm drift graph ne) ?_ ?_ ?_ ?_
  · rw [(links_take _ _ first).1, (links_take _ _ second).1, (links_take _ _ second).1,
      (links_take _ _ first).1, enters_take _ _ ne, enters_take _ _ ne.symm]
    exact Links.ite_link_comm _ _ _ _ _ _ _ _ _
  · rw [(links_take _ _ first).2, (links_take _ _ second).2, (links_take _ _ second).2,
      (links_take _ _ first).2, enters_take _ _ ne, enters_take _ _ ne.symm]
    exact Links.ite_link_comm _ _ _ _ _ _ _ _ _
  · rw [names_take, names_take, names_take, names_take]
  · rw [listed_take, listed_take, listed_take, listed_take]

/-! ## Whole listings -/

/-- Takes in a record if `drift` is drawn for it, and leaves the supply of words alone. -/
def step (drift : Msat) (state : Refresh) (listed : ListedChannel) : Refresh where
  graph := take drift state.graph listed
  words := state.words
  seen := if listed.isValid then state.seen.insert listed.id else state.seen
  summary := { state.summary with
    added := state.summary.added + (enters state.graph listed).toNat
    updated := state.summary.updated + (renews state.graph listed).toNat
    skipped := state.summary.skipped + (!listed.isValid).toNat }

theorem mem_seen_step : id ∈ (step drift state listed).seen ↔
    (listed.isValid ∧ listed.id = id) ∨ id ∈ state.seen := by
  unfold step
  cases listed.isValid with
  | false => simp
  | true => simp

/-- Steps for different physical channels commute. -/
theorem step_comm (drift : Msat) (state : Refresh) (ne : first.scid ≠ second.scid) :
    step drift (step drift state second) first = step drift (step drift state first) second := by
  have seen : (step drift (step drift state second) first).seen =
      (step drift (step drift state first) second).seen := by
    refine ExtTreeSet.ext_mem fun id => ?_
    rw [mem_seen_step, mem_seen_step, mem_seen_step, mem_seen_step]
    exact or_left_comm
  have summary : (step drift (step drift state second) first).summary =
      (step drift (step drift state first) second).summary := by
    simp only [step, enters_take _ _ ne, enters_take _ _ ne.symm, renews_take _ _ ne,
      renews_take _ _ ne.symm]
    rw [Nat.add_right_comm, Nat.add_right_comm state.summary.updated,
      Nat.add_right_comm state.summary.skipped]
  simp only [mk.injEq, step] at seen summary ⊢
  exact ⟨take_comm drift state.graph ne, trivial, seen, summary⟩

/-- A record that does not renew its direction is taken in as any drift would have it. -/
theorem take_eq_of_not_renews (drift drift' : Msat) (free : ¬ renews graph listed) :
    take drift graph listed = take drift' graph listed := by
  unfold renews at free
  cases valid : listed.isValid with
  | false => rw [take_of_not_valid valid, take_of_not_valid valid]
  | true =>
    rw [valid, Bool.true_and, Option.not_isSome_iff_eq_none] at free
    rw [take, take, free]

/-- A record is taken in by a step with the drift that is drawn for it. -/
theorem exists_record_eq (drift : Msat) (aging : Aging) (state : Refresh) (listed : ListedChannel)
    (drawn : renews state.graph listed → (aging.draw state.words).1 = drift) :
    ∃ words, record aging state listed = { step drift state listed with words } := by
  refine ⟨(record aging state listed).words, ?_⟩
  have graph : (record aging state listed).graph = take drift state.graph listed := by
    rw [graph_record]
    by_cases known : renews state.graph listed
    · rw [drawn known]
    · exact take_eq_of_not_renews _ _ known
  rw [step, ← graph]
  unfold record recordBy enters renews
  cases listed.isValid with
  | false => rfl
  | true => cases state.graph.channel? listed.id <;> rfl

/-- The steps do not look at the supply. -/
theorem foldl_step_words (drift : Msat) (state : Refresh) (listing : List ListedChannel)
    (words : WordSupply) : listing.foldl (step drift) { state with words } =
      { listing.foldl (step drift) state with words } := by
  induction listing generalizing state with
  | nil => rfl
  | cons first rest ih => exact ih (step drift state first)

/-- A listing is taken in by such steps if the same drift is drawn for all of its records. -/
theorem exists_foldl_record_eq (state : Refresh)
    (same : ∀ entry ∈ drawn aging state listing, entry.2 = drift) :
    ∃ words, listing.foldl (record aging) state =
      { listing.foldl (step drift) state with words } := by
  induction listing generalizing state with
  | nil => exact ⟨state.words, rfl⟩
  | cons first rest ih =>
    rw [drawn] at same
    have later : ∀ entry ∈ drawn aging (record aging state first) rest, entry.2 = drift := by
      intro entry mem
      split at same
      next => exact same entry (List.mem_cons_of_mem _ mem)
      next => exact same entry mem
    obtain ⟨_, hfirst⟩ := exists_record_eq drift aging state first fun known => by
      rw [if_pos known] at same
      exact same _ List.mem_cons_self
    obtain ⟨words, hrest⟩ := ih (record aging state first) later
    rw [List.foldl_cons, List.foldl_cons, hrest, hfirst, foldl_step_words]
    exact ⟨words, rfl⟩

end Refresh

/-! ## Draws that are all the same -/

/-- Of one value only one can be drawn, whatever the words are. -/
theorem WordSupply.offset_one (words : List UInt64) (taken : Nat) :
    (offset 1 words taken).1 = 0 := by
  induction words generalizing taken with
  | nil => rfl
  | cons word rest ih =>
    rw [offset]
    split
    next =>
      rw [Nat.mul_one]
      exact Nat.div_eq_of_lt word.toNat_lt
    next => exact ih _

/-- Without variance every drift is the average. -/
theorem Aging.draw_of_variance_zero {aging : Aging} (steady : aging.variance = 0)
    (supply : WordSupply) : (aging.draw supply).1 = aging.average := by
  have low : aging.average.satSub 0 = aging.average := by
    apply UInt64.toNat_inj.mp
    rw [UInt64.toNat_satSub, UInt64.toNat_zero, Nat.sub_zero]
  have size : aging.average - aging.average + 1 = 1 := by rw [UInt64.sub_self]; rfl
  rw [draw, steady, low, UInt64.satAdd_zero, WordSupply.between]
  simp only [size, UInt64.reduceToNat, WordSupply.offset_one]
  rw [if_neg (by decide)]
  exact UInt64.add_zero _

theorem Aging.draws_of_variance_zero {aging : Aging} (steady : aging.variance = 0) (count : Nat)
    (supply : WordSupply) : (aging.draws count supply).1 = List.replicate count aging.average := by
  induction count generalizing supply with
  | zero => rfl
  | succ count ih =>
    simp only [draws, draw_of_variance_zero steady, ih]
    rfl

/-- So it is for the whole of a listing. -/
theorem Refresh.eq_average_of_mem_drawn {aging : Aging} (steady : aging.variance = 0)
    (state : Refresh) (listing : List ListedChannel) :
    ∀ entry ∈ drawn aging state listing, entry.2 = aging.average := by
  intro entry mem
  have drifts : (drawn aging state listing).map Prod.snd =
      List.replicate (drawn aging state listing).length aging.average := by
    rw [← Aging.draws_of_variance_zero steady _ state.words, draws_drawn]
  have mem : entry.2 ∈ (drawn aging state listing).map Prod.snd := List.mem_map_of_mem mem
  rw [drifts] at mem
  exact List.eq_of_mem_replicate mem

namespace Graph

/-- **Physical channels are refreshed independently.**  If the same drift is drawn throughout, two
listings that differ in the order of records of different physical channels only leave the same
graph, with the same channels, indices and last listing, and the same summary. -/
theorem refresh_rearranged (graph : Graph) (aging : Aging) (listing listing' : List ListedChannel)
    (words words' : WordSupply) (drift : Msat)
    (rearranges : ListedChannel.Rearranges listing listing')
    (same : ∀ entry ∈ Refresh.drawn aging { graph, words } listing, entry.2 = drift)
    (same' : ∀ entry ∈ Refresh.drawn aging { graph, words := words' } listing', entry.2 = drift) :
    (graph.refresh aging listing words).graph = (graph.refresh aging listing' words').graph ∧
    (graph.refresh aging listing words).summary = (graph.refresh aging listing' words').summary := by
  obtain ⟨left, h⟩ := Refresh.exists_foldl_record_eq _ same
  obtain ⟨left', h'⟩ := Refresh.exists_foldl_record_eq _ same'
  have steps : listing.foldl (Refresh.step drift) { graph, words } =
      listing'.foldl (Refresh.step drift) { graph, words } :=
    List.foldl_eq_of_filter_eq ListedChannel.scid
      (fun _ _ ne state => Refresh.step_comm drift state ne) rearranges _
  have start := Refresh.foldl_step_words drift { graph, words } listing' words'
  simp only at start
  rw [refresh_eq, refresh_eq, h, h', start, steps]
  exact ⟨rfl, rfl⟩

/-- A bridge that is listed with the ferry. -/
def bridgeListed : ListedChannel := { ferryListed "B" "C" 500 with scid := .ofParts 2 0 0 }

/-- The bridge may be listed between the two ways of the ferry, or behind them. -/
theorem ferry_rearranged :
    ListedChannel.Rearranges
      [ferryListed "A" "B" 2000, bridgeListed, ferryListed "B" "A" 2000]
      [ferryListed "A" "B" 2000, ferryListed "B" "A" 2000, bridgeListed] ∧
    (ferry.refresh ⟨5000, 0⟩ [ferryListed "A" "B" 2000, bridgeListed, ferryListed "B" "A" 2000]
      {}).graph =
    (ferry.refresh ⟨5000, 0⟩ [ferryListed "A" "B" 2000, ferryListed "B" "A" 2000, bridgeListed]
      {}).graph := by
  have ne : bridgeListed.scid ≠ (ferryListed "B" "A" 2000).scid := by decide +kernel
  have rearranges := ListedChannel.rearranges_swap ne [ferryListed "A" "B" 2000] []
  refine ⟨rearranges, ?_⟩
  exact (refresh_rearranged ferry ⟨5000, 0⟩ _ _ {} {} 5000 rearranges
    (Refresh.eq_average_of_mem_drawn rfl _ _) (Refresh.eq_average_of_mem_drawn rfl _ _)).1

end Graph

end Rebalancing
