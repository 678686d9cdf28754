import Mathlib.Data.Finset.Card
import Mathlib.Data.List.Induction
import Rebalancing.Node.Peers
import Rebalancing.Proofs.Lists
import Rebalancing.Proofs.Maps

/-!
# What a peer table holds

A listing is entered over the table that is there, and then whoever it does not name is let go.
What is left is the listing and nothing else: the last record of each peer that it names, in the
order of their ids, whatever the table held before.  The peers that are counted are those that were
held and are not listed.
-/

namespace Rebalancing

open Std

namespace ListedPeer

variable {listing : List ListedPeer} {peer : ListedPeer} {id : NodeId}

/-- The last record of a peer. -/
def last? (listing : List ListedPeer) (id : NodeId) : Option ListedPeer :=
  (listing.filter (·.id = id)).getLast?

/-- The peers of a listing. -/
def ids (listing : List ListedPeer) : Finset NodeId := (listing.map (·.id)).toFinset

theorem last?_concat : last? (listing ++ [peer]) id =
    if peer.id = id then some peer else last? listing id := by
  simp only [last?, List.getLast?_filter_concat, decide_eq_true_eq]

theorem mem_ids_concat : id ∈ ids (listing ++ [peer]) ↔ id ∈ ids listing ∨ peer.id = id := by
  simp [ids, eq_comm, or_comm]

/-- There is a last record of every peer that is listed, and it is of this peer. -/
theorem id_of_last? (h : last? listing id = some peer) : peer.id = id := by
  have mem := List.mem_of_getLast? h
  simpa using (List.mem_filter.mp mem).2

theorem isSome_last?_iff : (last? listing id).isSome ↔ id ∈ ids listing := by
  induction listing using List.reverseRecOn with
  | nil => simp [last?, ids]
  | append_singleton listing peer ih =>
    rw [last?_concat, mem_ids_concat, ← ih]
    by_cases h : peer.id = id <;> simp [h]

theorem last?_eq_none_iff : last? listing id = none ↔ id ∉ ids listing := by
  rw [← isSome_last?_iff, Option.isSome_iff_ne_none, not_not]

/-- The order by id. -/
def notBehind (peer next : ListedPeer) : Bool := (compare peer.id next.id).isLE

theorem notBehind_trans (first second third : ListedPeer) (h : first.notBehind second)
    (h' : second.notBehind third) : first.notBehind third :=
  TransCmp.isLE_trans h h'

theorem notBehind_total (first second : ListedPeer) :
    first.notBehind second || second.notBehind first := by
  rw [Bool.or_eq_true]
  refine or_iff_not_imp_left.mpr fun behind => ?_
  exact Ordering.isLE_of_eq_lt (OrientedCmp.lt_of_not_isLE behind)

/-- The same records in another order, but for the records of each peer. -/
def Rearranges (listing listing' : List ListedPeer) : Prop :=
  ∀ id, listing.filter (·.id = id) = listing'.filter (·.id = id)

theorem rearranges_swap {next : ListedPeer} (ne : peer.id ≠ next.id)
    (before behind : List ListedPeer) :
    Rearranges (before ++ peer :: next :: behind) (before ++ next :: peer :: behind) :=
  List.filter_swap ListedPeer.id ne before behind

theorem Rearranges.last?_eq {listing' : List ListedPeer} (rearranges : Rearranges listing listing')
    (id : NodeId) : last? listing id = last? listing' id := by
  rw [last?, rearranges, last?]

theorem Rearranges.ids_eq {listing' : List ListedPeer} (rearranges : Rearranges listing listing') :
    ids listing = ids listing' := by
  ext id
  rw [← isSome_last?_iff, rearranges.last?_eq, isSome_last?_iff]

end ListedPeer

namespace PeerTable

open ListedPeer (last? ids last?_concat mem_ids_concat id_of_last? isSome_last?_iff
  last?_eq_none_iff)

variable {table : PeerTable} {listing : List ListedPeer} {id : NodeId} {keep : NodeId → Bool}

/-! ## Entering a listing -/

/-- A peer that is listed has its last record, and the others have what they had. -/
theorem getElem?_foldl_enter (table : PeerTable) (listing : List ListedPeer) (id : NodeId) :
    (listing.foldl enter (table, ∅)).1[id]? = (last? listing id).or table[id]? := by
  induction listing using List.reverseRecOn with
  | nil => rfl
  | append_singleton listing peer ih =>
    rw [List.foldl_concat, last?_concat, enter, ExtTreeMap.getElem?_insert, ih]
    simp only [LawfulEqCmp.compare_eq_iff_eq]
    by_cases h : peer.id = id
    · rw [if_pos h, if_pos h, Option.some_or]
    · rw [if_neg h, if_neg h]

/-- The peers that are remembered are those that are listed. -/
theorem mem_seen_foldl_enter (table : PeerTable) (listing : List ListedPeer) (id : NodeId) :
    id ∈ (listing.foldl enter (table, ∅)).2 ↔ id ∈ ids listing := by
  induction listing using List.reverseRecOn with
  | nil => simp [ids]
  | append_singleton listing peer ih =>
    rw [List.foldl_concat, mem_ids_concat, enter, ExtTreeSet.mem_insert,
      LawfulEqCmp.compare_eq_iff_eq, ih, or_comm]

/-! ## Letting go -/

/-- Entries that are visited are let go if they are not to be kept. -/
theorem getElem?_foldl_visit (state : PeerTable × Nat) (entries : List NodeId) (id : NodeId) :
    (entries.foldl (visit keep) state).1[id]? =
      if id ∈ entries ∧ ¬keep id then none else state.1[id]? := by
  induction entries generalizing state with
  | nil => simp
  | cons entry entries ih =>
    rw [List.foldl_cons, ih, visit]
    by_cases kept : keep entry
    · rw [if_pos kept]
      by_cases same : id = entry
      · simp [same, kept]
      · simp [same]
    · rw [if_neg kept, ExtTreeMap.getElem?_erase]
      by_cases same : id = entry
      · simp [same, kept]
      · simp [same, Ne.symm same]

/-- Those that are let go are counted. -/
theorem dropped_foldl_visit (state : PeerTable × Nat) (entries : List NodeId) :
    (entries.foldl (visit keep) state).2 = state.2 + (entries.filter fun id => !keep id).length := by
  induction entries generalizing state with
  | nil => rfl
  | cons entry entries ih =>
    rw [List.foldl_cons, ih, visit]
    by_cases kept : keep entry
    · simp [kept]
    · simp only [kept, Bool.false_eq_true, if_false, Bool.not_false, List.filter_cons_of_pos,
        List.length_cons]
      omega

theorem getElem?_retain (table : PeerTable) (keep : NodeId → Bool) (id : NodeId) :
    (table.retain keep).1[id]? = if keep id then table[id]? else none := by
  rw [retain, ExtTreeMap.foldl_eq_foldl_keys, getElem?_foldl_visit]
  simp only [ExtTreeMap.mem_keys]
  by_cases kept : keep id
  · simp [kept]
  · by_cases mem : id ∈ table
    · simp [kept, mem]
    · simp [kept, mem]

theorem dropped_retain (table : PeerTable) (keep : NodeId → Bool) :
    (table.retain keep).2 = (table.keys.filter fun id => !keep id).length := by
  rw [retain, ExtTreeMap.foldl_eq_foldl_keys, dropped_foldl_visit, Nat.zero_add]

/-- The peers that a table holds. -/
def held (table : PeerTable) : Finset NodeId := table.keys.toFinset

theorem mem_held : id ∈ table.held ↔ table[id]?.isSome := by
  rw [held, List.mem_toFinset, ExtTreeMap.mem_keys, ExtTreeMap.isSome_getElem?_iff_mem]

theorem card_held : table.held.card = table.size := by
  rw [held, List.toFinset_card_of_nodup ExtTreeMap.nodup_keys, ExtTreeMap.length_keys]

/-! ## Replacing the table -/

theorem getElem?_replace (table : PeerTable) (listing : List ListedPeer) (id : NodeId) :
    (table.replace listing).1[id]? = last? listing id := by
  rw [replace, getElem?_retain, getElem?_foldl_enter]
  simp only [ExtTreeSet.contains_iff_mem, mem_seen_foldl_enter]
  by_cases listed : id ∈ ids listing
  · obtain ⟨peer, hlast⟩ := Option.isSome_iff_exists.mp (isSome_last?_iff.mpr listed)
    rw [if_pos listed, hlast, Option.some_or]
  · rw [if_neg listed, last?_eq_none_iff.mpr listed]

/-- Who is let go was held before, since whoever was entered is listed. -/
theorem dropped_replace (table : PeerTable) (listing : List ListedPeer) :
    (table.replace listing).2 = (table.held \ ids listing).card := by
  rw [replace, dropped_retain, ← List.toFinset_card_of_nodup (ExtTreeMap.nodup_keys.filter _)]
  congr 1
  ext id
  rw [List.mem_toFinset, List.mem_filter, ExtTreeMap.mem_keys, ← ExtTreeMap.isSome_getElem?_iff_mem,
    getElem?_foldl_enter, Finset.mem_sdiff, mem_held, Bool.not_eq_true', ← Bool.not_eq_true,
    ExtTreeSet.contains_iff_mem, mem_seen_foldl_enter]
  refine and_congr_left fun unlisted => ?_
  rw [last?_eq_none_iff.mpr unlisted, Option.none_or]

/-- The table has the last record of each peer of a listing, in the order of the ids, and no other
records.  This is what sorting them makes of any order in which they are taken out. -/
structure Lists (table : PeerTable) (listing : List ListedPeer) : Prop where
  getElem? : ∀ id, table[id]? = last? listing id
  size : table.size = (ids listing).card
  mem_values : ∀ peer, peer ∈ table.values ↔ last? listing peer.id = some peer
  ascending : table.values.Pairwise fun peer next => peer.id.text < next.id.text
  sorted : ∀ peers : List ListedPeer, peers.Perm table.values →
    peers.mergeSort ListedPeer.notBehind = table.values

theorem held_eq_ids (found : ∀ id, table[id]? = last? listing id) : table.held = ids listing := by
  ext id
  rw [mem_held, found, isSome_last?_iff]

/-- A record is found under its own id. -/
theorem id_of_mem_toList (found : ∀ id, table[id]? = last? listing id)
    {entry : NodeId × ListedPeer} (mem : entry ∈ table.toList) : entry.2.id = entry.1 := by
  rw [ExtTreeMap.mem_toList_iff_getElem?_eq_some, found] at mem
  exact id_of_last? mem

theorem mem_values_iff (found : ∀ id, table[id]? = last? listing id) (peer : ListedPeer) :
    peer ∈ table.values ↔ last? listing peer.id = some peer := by
  rw [values_eq_map_toList, List.mem_map]
  constructor
  · rintro ⟨entry, mem, rfl⟩
    rw [id_of_mem_toList found mem, ← found]
    exact ExtTreeMap.mem_toList_iff_getElem?_eq_some.mp mem
  · intro last
    exact ⟨(peer.id, peer), by rwa [ExtTreeMap.mem_toList_iff_getElem?_eq_some, found], rfl⟩

theorem pairwise_values (found : ∀ id, table[id]? = last? listing id) :
    table.values.Pairwise fun peer next => compare peer.id next.id = .lt := by
  rw [values_eq_map_toList, List.pairwise_map]
  refine ExtTreeMap.ordered_keys_toList.imp_of_mem fun {entry next} mem mem' before => ?_
  rw [id_of_mem_toList found mem, id_of_mem_toList found mem']
  exact before

/-- There is one way to sort the values, as no two have the same id. -/
theorem mergeSort_eq_values (found : ∀ id, table[id]? = last? listing id) {peers : List ListedPeer}
    (perm : peers.Perm table.values) : peers.mergeSort ListedPeer.notBehind = table.values := by
  have sorted := List.pairwise_mergeSort ListedPeer.notBehind_trans ListedPeer.notBehind_total peers
  have values : table.values.Pairwise fun peer next => peer.notBehind next :=
    (pairwise_values found).imp fun before => Ordering.isLE_of_eq_lt before
  refine ((List.mergeSort_perm peers _).trans perm).eq_of_pairwise ?_ sorted values
  intro peer next mem mem' before behind
  have mem := (mem_values_iff found peer).mp (perm.subset (List.mem_mergeSort.mp mem))
  have mem' := (mem_values_iff found next).mp mem'
  have same : peer.id = next.id := LawfulEqCmp.eq_of_compare (OrientedCmp.isLE_antisymm before behind)
  rw [same] at mem
  exact Option.some.inj (mem.symm.trans mem')

/-- Size, values and their order follow from what is found. -/
theorem lists_of_getElem? (found : ∀ id, table[id]? = last? listing id) : table.Lists listing where
  getElem? := found
  size := by rw [← card_held, held_eq_ids found]
  mem_values := mem_values_iff found
  ascending := (pairwise_values found).imp fun before => compareOfLessAndEq_eq_lt.mp before
  sorted _ := mergeSort_eq_values found

theorem lists_replace (table : PeerTable) (listing : List ListedPeer) :
    (table.replace listing).1.Lists listing :=
  lists_of_getElem? (getElem?_replace table listing)

/-- The order of records of different peers does not matter. -/
theorem replace_eq_of_rearranges {listing' : List ListedPeer}
    (rearranges : ListedPeer.Rearranges listing listing') :
    table.replace listing = table.replace listing' := by
  refine Prod.ext (ExtTreeMap.ext_getElem? fun id => ?_) ?_
  · rw [getElem?_replace, getElem?_replace, rearranges.last?_eq]
  · rw [dropped_replace, dropped_replace, rearranges.ids_eq]

/-- The table after some listings, one after another. -/
def replaceAll (listings : List (List ListedPeer)) : PeerTable :=
  listings.foldl (fun table listing => (table.replace listing).1) ∅

/-- The latest listing is all that counts. -/
theorem lists_replaceAll (listings : List (List ListedPeer)) :
    (replaceAll listings).Lists (listings.getLastD []) := by
  induction listings using List.reverseRecOn with
  | nil => exact lists_of_getElem? fun _ => rfl
  | append_singleton earlier listing _ =>
    rw [replaceAll, List.foldl_concat, List.getLastD_concat]
    exact lists_replace _ listing

/-- **The table is the last listing.**  Whatever listings came before, the table that a listing
leaves has the last record of each peer that is listed, and nothing else; it comes out in the strict
order of the ids.  The peers that are counted are those of the listing before that are listed no
longer.  A rearranged listing leaves the same table and the same count. -/
theorem replaceAll_isExact (earlier : List (List ListedPeer)) (listing : List ListedPeer) :
    let (table, dropped) := (replaceAll earlier).replace listing
    table.Lists listing ∧
    dropped = ((replaceAll earlier).held \ ids listing).card ∧
    (replaceAll earlier).held = ids (earlier.getLastD []) ∧
    ∀ listing', ListedPeer.Rearranges listing listing' →
      (replaceAll earlier).replace listing' = (table, dropped) :=
  ⟨lists_replace _ listing, dropped_replace _ listing, held_eq_ids (lists_replaceAll earlier).getElem?,
    fun _ rearranges => (replace_eq_of_rearranges rearranges).symm⟩

/-- A peer that is listed twice, and another one in front of its records or between them. -/
theorem replaceAll_isExact_listedTwice :
    let first : ListedPeer := ⟨⟨"b"⟩, false, 1, []⟩
    let last : ListedPeer := ⟨⟨"b"⟩, true, 2, []⟩
    let other : ListedPeer := ⟨⟨"a"⟩, true, 1, []⟩
    let gone : ListedPeer := ⟨⟨"c"⟩, true, 3, []⟩
    ListedPeer.Rearranges [first, other, last] [other, first, last] ∧
    (replaceAll [[gone, other]]).replace [other, first, last] =
      (replaceAll [[gone, other]]).replace [first, other, last] ∧
    ((replaceAll [[gone, other]]).replace [first, other, last]).1.values = [other, last] ∧
    ((replaceAll [[gone, other]]).replace [first, other, last]).2 = 1 := by
  intro first last other gone
  have ne : first.id ≠ other.id := by decide
  have rearranges := ListedPeer.rearranges_swap ne [] [last]
  refine ⟨rearranges, ?_, by decide +kernel, by decide +kernel⟩
  exact (replaceAll_isExact [[gone, other]] [first, other, last]).2.2.2 _ rearranges

end PeerTable

end Rebalancing
