import Rebalancing.Graph.Refresh
import Rebalancing.Proofs.Graph.Index

/-!
# What a refresh stores

A record that is taken in gives its own direction an estimate within the capacity, and
the opposite direction, if that is stored, the remainder.  Which of the branches of a
refresh it went through does not matter for that, and no other channel is touched.  A
prune then keeps what the listing named.
-/

namespace Rebalancing

open Std

namespace ChannelId

/-- A physical channel has two directions. -/
theorem eq_or_eq_opposite {id other : ChannelId} (h : id.scid = other.scid) :
    id = other ∨ id = other.opposite := by
  obtain ⟨scid, direction⟩ := id
  obtain ⟨scid', direction'⟩ := other
  cases h
  cases direction <;> cases direction' <;> simp [opposite, Direction.opposite]

end ChannelId

/-- An estimate ages within the capacity. -/
theorem Aging.age_le (previous drift capacity : Msat) : age previous drift capacity ≤ capacity :=
  Std.min_le_right

namespace Graph

variable {graph : Graph} {id : ChannelId} {channel : Channel} {change : Channel → Channel}

/-! ## The channels after each operation -/

theorem channel?_modify (graph : Graph) (changed : ChannelId) (change : Channel → Channel)
    (id : ChannelId) : (graph.modify changed change).channel? id =
      if id = changed then (graph.channel? id).map change else graph.channel? id := by
  unfold channel? modify
  rw [ExtTreeMap.getElem?_modify]
  by_cases h : id = changed
  · subst h
    simp
  · simp [h, Ne.symm h]

/-- Nothing is changed under an id that is not stored. -/
theorem modify_of_unstored (unstored : graph.channel? id = none) : graph.modify id change = graph := by
  have channels : graph.channels.modify id change = graph.channels := by
    refine ExtTreeMap.ext_getElem? fun other => ?_
    rw [ExtTreeMap.getElem?_modify]
    split
    next same =>
      cases LawfulEqOrd.eq_of_compare same
      have unstored : graph.channels[id]? = none := unstored
      rw [unstored]
      rfl
    next => rfl
  rw [modify, channels]

theorem channel?_remove (graph : Graph) (removed id : ChannelId) :
    (graph.remove removed).channel? id = if id = removed then none else graph.channel? id := by
  unfold channel?
  rw [channels_remove, ExtTreeMap.getElem?_erase]
  by_cases h : id = removed
  · simp [h]
  · simp [h, Ne.symm h]

/-- Channels are removed independently of each other. -/
theorem channel?_foldl_remove (graph : Graph) (removed : List ChannelId) (id : ChannelId) :
    (removed.foldl remove graph).channel? id =
      if id ∈ removed then none else graph.channel? id := by
  induction removed generalizing graph with
  | nil => simp
  | cons first rest ih =>
    rw [List.foldl_cons, ih, channel?_remove]
    by_cases hrest : id ∈ rest
    · simp [hrest]
    · by_cases hfirst : id = first
      · simp [hfirst]
      · simp [hrest, hfirst]

/-- A prune keeps exactly what the last listing named. -/
theorem channel?_prune {seen : ExtTreeSet ChannelId} (listed : graph.listed = some seen) :
    graph.prune.channel? id = if id ∈ seen then graph.channel? id else none := by
  unfold prune
  rw [channel?_foldl_remove]
  have hstale : id ∈ graph.stale ↔ (∃ channel, graph.channel? id = some channel) ∧ id ∉ seen := by
    unfold stale channel?
    rw [listed, ← Option.isSome_iff_exists, ExtTreeMap.isSome_getElem?_iff_mem,
      ← ExtTreeSet.contains_iff_mem, Bool.not_eq_true]
    simp
  by_cases hseen : id ∈ seen
  · rw [if_neg, if_pos hseen]
    rw [hstale]
    exact fun h => h.2 hseen
  · rw [if_neg hseen]
    by_cases hstored : ∃ channel, graph.channel? id = some channel
    · rw [if_pos (hstale.mpr ⟨hstored, hseen⟩)]
    · rw [if_neg fun h => hstored (hstale.mp h).1]
      cases h : graph.channel? id with
      | none => rfl
      | some channel => exact absurd ⟨channel, h⟩ hstored

end Graph

namespace Refresh

variable {graph : Graph} {listed : ListedChannel} {liquidity : Msat} {aging : Aging}
  {state : Refresh} {id : ChannelId}

/-- What is stored once the direction of a record has been given `liquidity`, and the opposite
direction the remainder. -/
def shared (graph : Graph) (listed : ListedChannel) (liquidity : Msat) (id : ChannelId) :
    Option Channel :=
  if id = listed.id then some (.ofListed listed liquidity)
  else if id = listed.id.opposite then
    (graph.channel? id).map fun channel =>
      { channel with capacity := listed.capacity, liquidity := listed.capacity - liquidity }
  else graph.channel? id

/-! ## One record -/

/-- What a record has its direction hold, if `drift` is drawn for it. -/
def estimate (graph : Graph) (listed : ListedChannel) (drift : Msat) : Msat :=
  match graph.channel? listed.id, graph.channel? listed.id.opposite with
  | some known, _ => Aging.age known.liquidity drift listed.capacity
  | none, some opposite => listed.capacity - min opposite.liquidity listed.capacity
  | none, none => listed.capacity / 2

/-- What becomes of a graph when a record is taken in, if `drift` is drawn for it. -/
def take (drift : Msat) (graph : Graph) (listed : ListedChannel) : Graph :=
  if !listed.isValid then graph
  else match graph.channel? listed.id with
    | none => enter graph listed
    | some known => renew graph listed (Aging.age known.liquidity drift listed.capacity)

theorem graph_record (aging : Aging) (state : Refresh) (listed : ListedChannel) :
    (record aging state listed).graph =
      take (aging.draw state.words).1 state.graph listed := by
  unfold record recordBy take
  cases listed.isValid with
  | false => rfl
  | true => cases state.graph.channel? listed.id <;> rfl

theorem take_of_not_valid {drift : Msat} (invalid : listed.isValid = false) :
    take drift graph listed = graph := by
  rw [take, invalid]
  rfl

/-- No record has its direction hold more than the capacity. -/
theorem estimate_le (graph : Graph) (listed : ListedChannel) (drift : Msat) :
    estimate graph listed drift ≤ listed.capacity := by
  unfold estimate
  split
  next => exact Aging.age_le _ _ _
  next => exact UInt64.sub_le Std.min_le_right
  next =>
    rw [UInt64.le_iff_toNat_le, UInt64.toNat_div]
    exact Nat.div_le_self _ _

/-- A record may change that of the opposite direction, but not its place, and is then added. -/
theorem exists_take_eq (drift : Msat) (graph : Graph) (valid : listed.isValid) :
    ∃ liquidity change, (∀ channel, Channel.place (change channel) = channel.place) ∧
      take drift graph listed =
        (graph.modify listed.id.opposite change).add (.ofListed listed liquidity) := by
  unfold take
  rw [valid, Bool.not_true, if_neg Bool.false_ne_true]
  cases graph.channel? listed.id with
  | some known =>
    refine ⟨_, _, ?_, rfl⟩
    exact fun _ => rfl
  | none =>
    simp only [enter, enterBy]
    cases hopposite : graph.channel? listed.id.opposite with
    | some opposite =>
      refine ⟨_, _, ?_, rfl⟩
      exact fun _ => rfl
    | none =>
      refine ⟨listed.capacity / 2, id, fun _ => rfl, ?_⟩
      rw [Graph.modify_of_unstored hopposite]
      rfl

/-- A record enters a graph if it is valid and its direction is not stored. -/
def enters (graph : Graph) (listed : ListedChannel) : Bool :=
  listed.isValid && (graph.channel? listed.id).isNone

/-- It renews its direction if it is valid and that is stored. -/
def renews (graph : Graph) (listed : ListedChannel) : Bool :=
  listed.isValid && (graph.channel? listed.id).isSome

/-- A new direction shares the capacity with the opposite one. -/
theorem channel?_enter (new : graph.channel? listed.id = none) (drift : Msat) (id : ChannelId) :
    (enter graph listed).channel? id = shared graph listed (estimate graph listed drift) id := by
  unfold enter enterBy estimate
  rw [new]
  cases hopposite : graph.channel? listed.id.opposite with
  | none =>
    simp only [Id.run_pure]
    rw [Graph.channel?_add, Channel.id_ofListed, shared]
    by_cases h : id = listed.id.opposite
    · rw [if_pos h, h, hopposite]
      rfl
    · rw [if_neg h]
  | some opposite =>
    have hkept : min opposite.liquidity listed.capacity ≤ listed.capacity := Std.min_le_right
    have hrest : listed.capacity - (listed.capacity - min opposite.liquidity listed.capacity) =
        min opposite.liquidity listed.capacity := by
      have hle := UInt64.sub_le hkept
      apply UInt64.toNat_inj.mp
      rw [UInt64.toNat_sub_of_le _ _ hle, UInt64.toNat_sub_of_le _ _ hkept]
      exact Nat.sub_sub_self (UInt64.le_iff_toNat_le.mp hkept)
    simp only [wrapping, pure_bind, Id.run_pure]
    rw [Graph.channel?_add, Graph.channel?_modify, Channel.id_ofListed, shared, hrest]

/-- So does one that is renewed. -/
theorem channel?_renew (graph : Graph) (listed : ListedChannel) (liquidity : Msat)
    (id : ChannelId) :
    (renew graph listed liquidity).channel? id = shared graph listed liquidity id := by
  unfold renew renewBy shared
  simp only [wrapping, pure_bind, Id.run_pure]
  rw [Graph.channel?_add, Graph.channel?_modify, Channel.id_ofListed]

/-- Taking in a record shares the capacity it tells between its two directions. -/
theorem channel?_take (drift : Msat) (graph : Graph) (valid : listed.isValid) (id : ChannelId) :
    (take drift graph listed).channel? id = shared graph listed (estimate graph listed drift) id := by
  unfold take
  rw [valid, Bool.not_true, if_neg Bool.false_ne_true]
  cases known : graph.channel? listed.id with
  | none => exact channel?_enter known drift id
  | some channel =>
    simp only
    rw [channel?_renew, estimate, known]

/-- It does so whatever was stored and drawn before. -/
theorem channel?_record (aging : Aging) (state : Refresh) (valid : listed.isValid) :
    ∃ liquidity ≤ listed.capacity, ∀ id,
      (record aging state listed).graph.channel? id = shared state.graph listed liquidity id := by
  refine ⟨_, estimate_le state.graph listed (aging.draw state.words).1, fun id => ?_⟩
  rw [graph_record, channel?_take _ _ valid]

/-- A record that is not usable is skipped. -/
theorem graph_record_of_not_valid (invalid : listed.isValid = false) :
    (record aging state listed).graph = state.graph := by
  rw [graph_record, take_of_not_valid invalid]

/-- A record leaves all other physical channels alone. -/
theorem channel?_take_of_ne (drift : Msat) (graph : Graph) (ne : id.scid ≠ listed.scid) :
    (take drift graph listed).channel? id = graph.channel? id := by
  cases valid : listed.isValid with
  | false => rw [take_of_not_valid valid]
  | true =>
    rw [channel?_take drift graph valid, shared, if_neg, if_neg]
    · rintro rfl
      exact ne rfl
    · rintro rfl
      exact ne rfl

theorem channel?_record_of_ne (aging : Aging) (state : Refresh) (ne : id.scid ≠ listed.scid) :
    (record aging state listed).graph.channel? id = state.graph.channel? id := by
  rw [graph_record, channel?_take_of_ne _ _ ne]

/-- No record makes a stored channel disappear. -/
theorem isSome_channel?_record (aging : Aging) (state : Refresh) (listed : ListedChannel)
    (stored : (state.graph.channel? id).isSome) :
    ((record aging state listed).graph.channel? id).isSome := by
  cases valid : listed.isValid with
  | false => rwa [graph_record_of_not_valid valid]
  | true =>
    obtain ⟨liquidity, -, hchannels⟩ := channel?_record aging state valid
    rw [hchannels, shared]
    split
    next => rfl
    split
    next => rwa [Option.isSome_map]
    next => exact stored

/-! ## The ids of a listing -/

/-- A valid record is seen, and no other id. -/
theorem mem_seen_record : id ∈ (record aging state listed).seen ↔
    id ∈ state.seen ∨ listed.isValid ∧ listed.id = id := by
  unfold record recordBy
  cases listed.isValid with
  | false => simp
  | true =>
    cases state.graph.channel? listed.id with
    | none => simp [or_comm]
    | some known => simp [or_comm]

/-- What has been seen at the end of a listing are the ids of its valid records. -/
theorem mem_seen_foldl {listing : List ListedChannel} :
    id ∈ (listing.foldl (record aging) state).seen ↔
      id ∈ state.seen ∨ ∃ listed ∈ listing, listed.isValid ∧ listed.id = id := by
  induction listing generalizing state with
  | nil => simp
  | cons first rest ih =>
    rw [List.foldl_cons, ih, mem_seen_record]
    simp [or_assoc]

/-! ## What is drawn -/

/-- The drifts that are drawn when a listing is taken in, each with the record that it is drawn for.
One is drawn for every record that renews its direction. -/
def drawn (aging : Aging) : Refresh → List ListedChannel → List (ListedChannel × Msat)
  | _, [] => []
  | state, listed :: rest =>
    let later := drawn aging (record aging state listed) rest
    if renews state.graph listed then (listed, (aging.draw state.words).1) :: later
    else later

theorem drawn_append (aging : Aging) (state : Refresh) (listing rest : List ListedChannel) :
    drawn aging state (listing ++ rest) =
      drawn aging state listing ++ drawn aging (listing.foldl (record aging) state) rest := by
  induction listing generalizing state with
  | nil => rfl
  | cons first later ih =>
    rw [List.cons_append, List.foldl_cons, drawn, drawn, ih]
    split
    next => rfl
    next => rfl

/-- Nothing is drawn but for the valid records of the listing. -/
theorem mem_of_mem_drawn {listing : List ListedChannel} {entry : ListedChannel × Msat}
    (mem : entry ∈ drawn aging state listing) : entry.1 ∈ listing ∧ entry.1.isValid := by
  induction listing generalizing state with
  | nil => cases mem
  | cons first rest ih =>
    rw [drawn] at mem
    split at mem
    next known =>
      rcases List.mem_cons.mp mem with rfl | mem
      · rw [renews, Bool.and_eq_true] at known
        exact ⟨List.mem_cons_self, known.1⟩
      · exact (ih mem).imp_left (List.mem_cons_of_mem first)
    next => exact (ih mem).imp_left (List.mem_cons_of_mem first)

/-- A record takes words from the supply if it renews its direction. -/
theorem words_record (aging : Aging) (state : Refresh) (listed : ListedChannel) :
    (record aging state listed).words =
      if renews state.graph listed then (aging.draw state.words).2 else state.words := by
  unfold record recordBy renews
  cases listed.isValid with
  | false => rfl
  | true => cases state.graph.channel? listed.id <;> rfl

/-- These are the draws that are made from the supply, in turn, and there are no others. -/
theorem draws_drawn (aging : Aging) (state : Refresh) (listing : List ListedChannel) :
    aging.draws (drawn aging state listing).length state.words =
      ((drawn aging state listing).map Prod.snd, (listing.foldl (record aging) state).words) := by
  induction listing generalizing state with
  | nil => rfl
  | cons first rest ih =>
    have later := ih (record aging state first)
    rw [words_record] at later
    rw [List.foldl_cons, drawn]
    split
    next known =>
      rw [if_pos known] at later
      simp only [List.length_cons, List.map_cons, Aging.draws, later]
    next unknown =>
      rw [if_neg unknown] at later
      exact later

/-! ## Names -/

theorem names_take (drift : Msat) (graph : Graph) (listed : ListedChannel) :
    (take drift graph listed).names = graph.names := by
  cases valid : listed.isValid with
  | false => rw [take_of_not_valid valid]
  | true =>
    obtain ⟨liquidity, change, -, htake⟩ := exists_take_eq drift graph valid
    rw [htake]
    exact Graph.names_add _ _

theorem names_record (aging : Aging) (state : Refresh) (listed : ListedChannel) :
    (record aging state listed).graph.names = state.graph.names := by
  rw [graph_record, names_take]

end Refresh

namespace Graph

/-- A refresh has seen the ids of the valid records of its listing. -/
theorem mem_seen_refresh {graph : Graph} {aging : Aging} {listing : List ListedChannel}
    {words : WordSupply} {id : ChannelId} : id ∈ (graph.refresh aging listing words).seen ↔
      ∃ listed ∈ listing, listed.isValid ∧ listed.id = id := by
  rw [refresh_eq, Refresh.mem_seen_foldl, or_iff_right ExtTreeSet.not_mem_empty]

/-- It remembers exactly those. -/
theorem listed_refresh (graph : Graph) (aging : Aging) (listing : List ListedChannel)
    (words : WordSupply) : (graph.refresh aging listing words).graph.listed =
      some (graph.refresh aging listing words).seen := by
  rw [refresh_eq]

/-- It stores what its records have led to. -/
theorem channel?_refresh (graph : Graph) (aging : Aging) (listing : List ListedChannel)
    (words : WordSupply) (id : ChannelId) : (graph.refresh aging listing words).graph.channel? id =
      (listing.foldl (Refresh.record aging) { graph, words }).graph.channel? id := by
  rw [refresh_eq]
  rfl

/-- What each record and each removal keeps, whatever the last listing is, applying a listing keeps. -/
theorem applyListing_induction {motive : Graph → Prop} {aging : Aging} {graph : Graph}
    (record : ∀ (state : Refresh) (listed : ListedChannel), motive state.graph →
      motive (Refresh.record aging state listed).graph)
    (list : ∀ (graph : Graph) (seen : ExtTreeSet ChannelId), motive graph →
      motive { graph with listed := some seen })
    (remove : ∀ (graph : Graph) (id : ChannelId), motive graph → motive (graph.remove id))
    (start : motive graph) (listing : List ListedChannel) (words : WordSupply) :
    motive (graph.applyListing aging listing words).graph := by
  have recorded : motive (listing.foldl (Refresh.record aging) { graph, words }).graph :=
    listing.foldlRecOn (motive := fun state => motive state.graph) _ start
      fun state h listed _ => record state listed h
  have refreshed : motive (graph.refresh aging listing words).graph := by
    rw [refresh_eq]
    exact list _ _ recorded
  exact List.foldlRecOn _ _ refreshed fun graph h id _ => remove graph id h

/-- A listing of channels brings no names. -/
theorem names_applyListing (graph : Graph) (aging : Aging) (listing : List ListedChannel)
    (words : WordSupply) : (graph.applyListing aging listing words).graph.names = graph.names := by
  refine applyListing_induction (motive := fun after => after.names = graph.names) ?_ ?_ ?_ rfl
    listing words
  · exact fun state listed h => (Refresh.names_record aging state listed).trans h
  · exact fun _ _ h => h
  · exact fun after id h => (names_remove after id).trans h

end Graph

end Rebalancing
