import Rebalancing.Proofs.Graph.Edits
import Rebalancing.Proofs.Liquidity.Conservation

/-!
# Aging of a known pair

Each record of a physical channel ages the estimate of its own direction and leaves the
remainder to the other one.  So when both directions are known and listed, one after the
other, the second record ages what the first has left over, which is at most half of the
capacity.  Wherever the two estimates were before, the direction that is listed last ends
up with at least half, and is above it by no more than the drift that was drawn for it.
-/

namespace Rebalancing

open Std

namespace Aging

variable {previous drift capacity : Msat}

/-- The capacity is within the range of words, so the sum is not cut off below it. -/
theorem toNat_age (previous drift capacity : Msat) : (age previous drift capacity).toNat =
    min (max (min previous.toNat capacity.toNat + drift.toNat) (capacity.toNat / 2))
      capacity.toNat := by
  have := capacity.toNat_lt
  rw [age, UInt64.toNat_min, UInt64.toNat_max, UInt64.toNat_satAdd, UInt64.toNat_min,
    UInt64.toNat_div]
  simp only [UInt64.reduceToNat]
  omega

/-- An estimate does not age below half of the capacity. -/
theorem half_le_age (previous drift capacity : Msat) :
    capacity.toNat / 2 ≤ (age previous drift capacity).toNat := by
  rw [toNat_age]
  omega

/-- One that is at most half of the capacity ages above that by the drift only. -/
theorem age_le_of_le_half (low : previous.toNat ≤ capacity.toNat - capacity.toNat / 2) :
    (age previous drift capacity).toNat ≤
      min capacity.toNat (capacity.toNat - capacity.toNat / 2 + drift.toNat) := by
  rw [toNat_age]
  omega

end Aging

namespace ListedChannel

/-- The valid records of a physical channel. -/
def ofScid (listing : List ListedChannel) (scid : ShortChannelId) : List ListedChannel :=
  listing.filter fun listed => listed.isValid && listed.scid = scid

theorem scid_of_mem_ofScid {listing : List ListedChannel} {scid : ShortChannelId}
    {listed : ListedChannel} (mem : listed ∈ ofScid listing scid) : listed.scid = scid := by
  have h := (List.mem_filter.mp mem).2
  rw [Bool.and_eq_true] at h
  exact of_decide_eq_true h.2

end ListedChannel

/-- Both directions of a physical channel are stored: that of the record has the estimate `held`, and
the opposite one the remainder of the capacity. -/
structure Graph.Splits (graph : Graph) (listed : ListedChannel) (held : Msat)
    (own opposite : Channel) : Prop where
  stored : graph.channel? listed.id = some own
  stored_opposite : graph.channel? listed.id.opposite = some opposite
  capacity : own.capacity = listed.capacity
  capacity_opposite : opposite.capacity = listed.capacity
  liquidity : own.liquidity = held
  liquidity_opposite : opposite.liquidity = listed.capacity - held

theorem Graph.Splits.congr {graph graph' : Graph} {listed : ListedChannel} {held : Msat}
    {own opposite : Channel} (splits : graph.Splits listed held own opposite)
    (same : ∀ id : ChannelId, id.scid = listed.scid → graph'.channel? id = graph.channel? id) :
    graph'.Splits listed held own opposite :=
  { splits with
    stored := (same _ rfl).trans splits.stored
    stored_opposite := (same _ rfl).trans splits.stored_opposite }

namespace Refresh

variable {aging : Aging} {state : Refresh} {listing rest : List ListedChannel}
  {listed : ListedChannel} {scid : ShortChannelId} {id : ChannelId}

/-! ## One record of many -/

/-- A record of a known pair ages its own direction, and leaves the remainder to the other one. -/
theorem exists_splits_take (drift : Msat) {graph : Graph} (valid : listed.isValid)
    {known other : Channel} (stored : graph.channel? listed.id = some known)
    (stored' : graph.channel? listed.id.opposite = some other) :
    ∃ own opposite, (take drift graph listed).Splits listed
      (Aging.age known.liquidity drift listed.capacity) own opposite := by
  have hestimate : estimate graph listed drift =
      Aging.age known.liquidity drift listed.capacity := by rw [estimate, stored]
  have hshared := channel?_take drift graph valid
  rw [hestimate] at hshared
  have hopposite : (take drift graph listed).channel? listed.id.opposite =
      some { other with
        capacity := listed.capacity
        liquidity := listed.capacity - Aging.age known.liquidity drift listed.capacity } := by
    rw [hshared, shared, if_neg (ChannelId.opposite_ne _), if_pos rfl, stored', Option.map_some]
  exact ⟨_, _,
    { stored := by rw [hshared, shared, if_pos rfl]
      stored_opposite := hopposite
      capacity := rfl
      capacity_opposite := rfl
      liquidity := liquidity_ofListed (Aging.age_le _ _ _)
      liquidity_opposite := rfl }⟩

/-- A listing without valid records of a physical channel leaves it alone. -/
theorem channel?_foldl_of_unlisted (unlisted : ListedChannel.ofScid listing id.scid = []) :
    (listing.foldl (record aging) state).graph.channel? id = state.graph.channel? id := by
  induction listing generalizing state with
  | nil => rfl
  | cons first rest ih =>
    rw [ListedChannel.ofScid, List.filter_cons] at unlisted
    split at unlisted
    next => cases unlisted
    next other =>
      rw [List.foldl_cons, ih unlisted]
      cases valid : first.isValid with
      | false => rw [graph_record_of_not_valid valid]
      | true =>
        refine channel?_record_of_ne aging state fun same => other ?_
        rw [valid, Bool.true_and, decide_eq_true same.symm]

/-- Nothing is drawn for it. -/
theorem drawn_of_unlisted (unlisted : ListedChannel.ofScid listing scid = []) :
    (drawn aging state listing).filter (·.1.scid = scid) = [] := by
  rw [List.filter_eq_nil_iff]
  intro entry mem same
  obtain ⟨mem, valid⟩ := mem_of_mem_drawn mem
  refine List.filter_eq_nil_iff.mp unlisted entry.1 mem ?_
  rw [valid, Bool.true_and]
  exact same

/-- The first valid record of a known pair ages it, and the records behind it go on from there. -/
theorem exists_of_listed (aging : Aging) (state : Refresh)
    (first : ListedChannel.ofScid listing listed.scid = listed :: rest) {known other : Channel}
    (stored : state.graph.channel? listed.id = some known)
    (stored' : state.graph.channel? listed.id.opposite = some other) :
    ∃ drift behind state' own opposite, ListedChannel.ofScid behind listed.scid = rest ∧
      listing.foldl (record aging) state = behind.foldl (record aging) state' ∧
      (drawn aging state listing).filter (·.1.scid = listed.scid) =
        (listed, drift) :: (drawn aging state' behind).filter (·.1.scid = listed.scid) ∧
      state'.graph.Splits listed (Aging.age known.liquidity drift listed.capacity) own opposite := by
  obtain ⟨before, behind, rfl, unlisted, valid, rfl⟩ := List.filter_eq_cons_iff.mp first
  have unlisted : ListedChannel.ofScid before listed.scid = [] :=
    List.filter_eq_nil_iff.mpr unlisted
  rw [Bool.and_eq_true] at valid
  have hknown : (before.foldl (record aging) state).graph.channel? listed.id = some known :=
    (channel?_foldl_of_unlisted unlisted).trans stored
  have hother : (before.foldl (record aging) state).graph.channel? listed.id.opposite = some other :=
    (channel?_foldl_of_unlisted unlisted).trans stored'
  obtain ⟨own, opposite, splits⟩ :=
    exists_splits_take (aging.draw (before.foldl (record aging) state).words).1 valid.1 hknown hother
  refine ⟨_, behind, record aging (before.foldl (record aging) state) listed, own, opposite, rfl,
    ?_, ?_, graph_record aging _ listed ▸ splits⟩
  · rw [List.foldl_append, List.foldl_cons]
  · rw [drawn_append, List.filter_append, drawn_of_unlisted unlisted, List.nil_append, drawn,
      renews, valid.1, hknown]
    simp

/-- What the records of a known pair come to: the second one ages the remainder of the first. -/
theorem exists_of_pair (aging : Aging) (state : Refresh) {first second : ListedChannel}
    (pair : ListedChannel.ofScid listing first.scid = [first, second])
    (opposite : second.id = first.id.opposite) (same : second.capacity = first.capacity)
    {known other : Channel} (stored : state.graph.channel? first.id = some known)
    (stored' : state.graph.channel? second.id = some other) :
    ∃ drift drift' final final',
      (drawn aging state listing).filter (·.1.scid = first.scid) =
        [(first, drift), (second, drift')] ∧
      (listing.foldl (record aging) state).graph.Splits second
        (Aging.age (first.capacity - Aging.age known.liquidity drift first.capacity) drift'
          first.capacity) final' final := by
  have hscid : second.scid = first.scid := congrArg ChannelId.scid opposite
  have opposite' : second.id.opposite = first.id := by
    rw [opposite, ChannelId.opposite_opposite]
  obtain ⟨drift, behind, state', own, remainder, rest, hfold, hdrawn, splits⟩ :=
    exists_of_listed aging state pair stored (opposite ▸ stored')
  -- the second record finds the remainder that the first one has left
  obtain ⟨drift', behind', state'', final', final, none, hfold', hdrawn', splits'⟩ :=
    exists_of_listed aging state' (hscid ▸ rest) (opposite ▸ splits.stored_opposite)
      (opposite' ▸ splits.stored)
  rw [splits.liquidity_opposite, same] at splits'
  refine ⟨drift, drift', final, final', ?_, ?_⟩
  · rw [hdrawn, ← hscid, hdrawn', drawn_of_unlisted none]
  · -- and what is listed behind it does not touch the two
    rw [hfold, hfold']
    exact splits'.congr fun id h => channel?_foldl_of_unlisted (h ▸ none)

end Refresh

namespace Graph

/-- **A known pair ages around half of its capacity.**  If both directions of a physical channel are
stored, and a listing has two valid records of it, one for each direction and of the same size, then
a refresh draws a drift for each of them, and the drift of the second bounds what follows: the
direction listed last holds at least half of the capacity, and above what is left of it no more than
that drift; the one listed first holds exactly the remainder; and both are within that drift of half
of the capacity, and one millisatoshi.  It does not matter what the estimates and the capacities
were before, or what else is listed. -/
theorem refresh_pair (graph : Graph) (aging : Aging) (listing : List ListedChannel)
    (words : WordSupply) (scid : ShortChannelId) (first second : ListedChannel)
    (stored : ∀ direction, (graph.channel? ⟨scid, direction⟩).isSome)
    (pair : ListedChannel.ofScid listing scid = [first, second])
    (opposite : second.direction ≠ first.direction) (same : second.satoshis = first.satoshis) :
    ∃ (drift drift' : Msat) (final final' : Channel),
      (Refresh.drawn aging { graph, words } listing).filter (·.1.scid = scid) =
        [(first, drift), (second, drift')] ∧
      let after := (graph.refresh aging listing words).graph
      let capacity := first.capacity.toNat
      let half := capacity / 2
      after.channel? first.id = some final ∧ after.channel? second.id = some final' ∧
      final.capacity = first.capacity ∧ final'.capacity = first.capacity ∧
      half ≤ final'.liquidity.toNat ∧
      final'.liquidity.toNat ≤ min capacity (capacity - half + drift'.toNat) ∧
      final.liquidity.toNat + final'.liquidity.toNat = capacity ∧
      ∀ channel ∈ [final, final'],
        capacity ≤ 2 * (channel.liquidity.toNat + (drift'.toNat + 1)) ∧
        2 * channel.liquidity.toNat ≤ capacity + 2 * (drift'.toNat + 1) := by
  have hscid {listed : ListedChannel} (mem : listed ∈ [first, second]) : listed.scid = scid :=
    ListedChannel.scid_of_mem_ofScid (pair ▸ mem)
  obtain rfl : first.scid = scid := hscid List.mem_cons_self
  have hsecond : second.scid = first.scid := hscid (List.mem_cons_of_mem _ List.mem_cons_self)
  have hcapacity : second.capacity = first.capacity := congrArg (UInt64.satMul · 1000) same
  have hopposite : second.id = first.id.opposite :=
    (ChannelId.eq_or_eq_opposite hsecond).resolve_left fun h =>
      opposite (congrArg ChannelId.direction h)
  obtain ⟨known, hknown⟩ := Option.isSome_iff_exists.mp (stored first.direction)
  obtain ⟨other, hother⟩ := Option.isSome_iff_exists.mp (stored second.direction)
  rw [← hsecond] at hother
  obtain ⟨drift, drift', final, final', hdrawn, splits⟩ :=
    Refresh.exists_of_pair aging { graph, words } pair hopposite hcapacity hknown hother
  have hfirst : second.id.opposite = first.id := by rw [hopposite, ChannelId.opposite_opposite]
  have hfinal := (channel?_refresh _ _ _ _ _).trans splits.stored_opposite
  have hfinal' := (channel?_refresh _ _ _ _ _).trans splits.stored
  refine ⟨drift, drift', final, final', hdrawn, hfirst ▸ hfinal, hfinal',
    splits.capacity_opposite.trans hcapacity, splits.capacity.trans hcapacity, ?_⟩
  have hhalf : first.capacity.toNat / 2 ≤ final'.liquidity.toNat := by
    rw [splits.liquidity]
    exact Aging.half_le_age _ _ _
  have hremainder : (first.capacity - Aging.age known.liquidity drift first.capacity).toNat ≤
      first.capacity.toNat - first.capacity.toNat / 2 := by
    rw [UInt64.toNat_sub_of_le _ _ (Aging.age_le _ _ _)]
    exact Nat.sub_le_sub_left (Aging.half_le_age _ _ _) _
  have habove : final'.liquidity.toNat ≤ min first.capacity.toNat
      (first.capacity.toNat - first.capacity.toNat / 2 + drift'.toNat) := by
    rw [splits.liquidity]
    exact Aging.age_le_of_le_half hremainder
  have hsum : final.liquidity.toNat + final'.liquidity.toNat = first.capacity.toNat := by
    rw [splits.liquidity_opposite, splits.liquidity, hcapacity,
      UInt64.toNat_sub_of_le _ _ (Aging.age_le _ _ _)]
    exact Nat.sub_add_cancel (UInt64.le_iff_toNat_le.mp (Aging.age_le _ _ _))
  refine ⟨hhalf, habove, hsum, ?_⟩
  simp only [List.forall_mem_cons, List.not_mem_nil, false_implies, implies_true, and_true]
  omega

/-- A ferry that goes both ways. -/
def twoWayFerry : Graph :=
  (empty.refresh {} [ferryListed "A" "B" 1000, ferryListed "B" "A" 1000] {}).graph

/-- Both ways have been enlarged. -/
def enlargedListing : List ListedChannel :=
  [ferryListed "B" "A" 2000, ferryListed "A" "A" 1000, ferryListed "A" "B" 2000]

/-- The way that is listed last holds at least half of what the ferry carries now. -/
theorem twoWayFerry_pair :
    (∀ direction, (twoWayFerry.channel? ⟨.ofParts 1 0 0, direction⟩).isSome) ∧
    ListedChannel.ofScid enlargedListing (.ofParts 1 0 0) =
      [ferryListed "B" "A" 2000, ferryListed "A" "B" 2000] ∧
    (ferryListed "A" "B" 2000).direction ≠ (ferryListed "B" "A" 2000).direction ∧
    ∃ final final',
      (twoWayFerry.refresh {} enlargedListing {}).graph.channel? (ferryListed "B" "A" 2000).id =
        some final ∧
      (twoWayFerry.refresh {} enlargedListing {}).graph.channel? (ferryListed "A" "B" 2000).id =
        some final' ∧
      1000000 ≤ final'.liquidity.toNat ∧
      final.liquidity.toNat + final'.liquidity.toNat = 2000000 := by
  have stored : ∀ direction, (twoWayFerry.channel? ⟨.ofParts 1 0 0, direction⟩).isSome := by
    rintro (_ | _)
    all_goals decide +kernel
  have pair : ListedChannel.ofScid enlargedListing (.ofParts 1 0 0) =
      [ferryListed "B" "A" 2000, ferryListed "A" "B" 2000] := by decide +kernel
  have opposite : (ferryListed "A" "B" 2000).direction ≠ (ferryListed "B" "A" 2000).direction := by
    decide +kernel
  obtain ⟨-, -, final, final', -, h, h', -, -, hhalf, -, hsum, -⟩ :=
    refresh_pair twoWayFerry {} enlargedListing {} _ _ _ stored pair opposite rfl
  exact ⟨stored, pair, opposite, final, final', h, h', hhalf, hsum⟩

end Graph

end Rebalancing
