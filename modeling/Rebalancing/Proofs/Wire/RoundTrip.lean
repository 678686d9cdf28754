import Mathlib.Data.List.Basic
import Rebalancing.Proofs.Json.RoundTrip
import Rebalancing.Proofs.Maps
import Rebalancing.Wire.Codec

/-!
# Reading what was stored

The decoder of a type reads every value back from its JSON form, and so from its text.
-/

namespace Rebalancing

open Std

namespace Json

/-! ## Values -/

theorem nat?_nat {limit n : Nat} (h : n ≤ limit) : (nat n).nat? limit = some n := by
  show (if (0 : Int) ≤ n ∧ (n : Int) ≤ limit then some (n : Int).toNat else none) = some n
  rw [if_pos ⟨Int.natCast_nonneg n, Int.ofNat_le.mpr h⟩, Int.toNat_natCast]

theorem uint32?_nat (n : UInt32) : (nat n.toNat).uint32? = some n := by
  rw [uint32?, nat?_nat (by have := n.toNat_lt; omega), Option.map_some, UInt32.ofNat_toNat]

theorem uint64?_nat (n : UInt64) : (nat n.toNat).uint64? = some n := by
  rw [uint64?, nat?_nat (by have := n.toNat_lt; omega), Option.map_some, UInt64.ofNat_toNat]

theorem isExact_uint32 (n : UInt32) : (nat n.toNat).IsExact :=
  .nat (by have := n.toNat_lt; omega)

theorem isExact_uint64 (n : UInt64) : (nat n.toNat).IsExact :=
  .nat (by have := n.toNat_lt; omega)

theorem isExact_members {members : List (String × Json)}
    (h : members.Forall fun member => member.2.IsExact) : (object members).IsExact :=
  .object (List.forall_iff_forall_mem.mp h)

/-! ## Records -/

/-- The first member of a name is the one that a lookup finds. -/
theorem Fields.get?_of_mem {given : List (String × Json)} (distinct : (given.map (·.1)).Nodup)
    {member : String × Json} (mem : member ∈ given) :
    get? ⟨given⟩ member.1 = some member.2 := by
  induction given with
  | nil => cases mem
  | cons first rest ih =>
    obtain ⟨hne, distinct⟩ : first.1 ∉ rest.map (·.1) ∧ (rest.map (·.1)).Nodup :=
      List.nodup_cons.mp distinct
    unfold get?
    rcases List.mem_cons.mp mem with rfl | mem
    · rw [List.find?_cons_of_pos (by simp)]
      rfl
    · have other : first.1 ≠ member.1 := by
        intro same
        rw [same] at hne
        exact hne (List.mem_map_of_mem mem)
      rw [List.find?_cons_of_neg (by simpa using other)]
      exact ih distinct mem

/-- A record is read from an object with its fields. -/
theorem read_object {α : Type} {names : List String} {members : List (String × Json)}
    {read : Fields → Option α} {value : α} (same : members.map (·.1) = names)
    (distinct : names.Nodup)
    (h : ∀ fields : Fields, (∀ member ∈ members, fields.get? member.1 = some member.2) →
      read fields = some value) :
    ((object members).fields? names >>= read) = some value := by
  have hfields : (object members).fields? names = some ⟨members⟩ := by
    unfold fields?
    simp only
    rw [List.filter_eq_self.mpr, if_pos (same ▸ distinct)]
    intro member mem
    show names.contains member.1 = true
    rw [List.contains_iff_mem, ← same]
    exact List.mem_map_of_mem mem
  rw [hfields]
  exact h ⟨members⟩ fun _ => Fields.get?_of_mem (same ▸ distinct)

end Json

/-! ## Types -/

/-- A type whose values are read back from their JSON forms. -/
class LawfulWire (α : Type) [Wire α] : Prop where
  isExact (value : α) : (Wire.toJson value).IsExact
  ofJson?_toJson (value : α) : Wire.ofJson? (Wire.toJson value) = some value

/-- A value is read back from its text if it is from its JSON form, and that has a text of its own. -/
theorem Wire.decode?_encode_of {α : Type} [Wire α] {value : α}
    (exact : (Wire.toJson value).IsExact) (back : Wire.ofJson? (Wire.toJson value) = some value) :
    Wire.decode? (Wire.encode value) = some value := by
  rw [Wire.decode?, Wire.encode, Json.ofBytes_print exact]
  exact back

theorem Wire.decode?_encode {α : Type} [Wire α] [LawfulWire α] (value : α) :
    Wire.decode? (Wire.encode value) = some value :=
  decode?_encode_of (LawfulWire.isExact value) (LawfulWire.ofJson?_toJson value)

instance : LawfulWire NodeId where
  isExact node := .string node.text
  ofJson?_toJson _ := rfl

instance : LawfulWire ShortChannelId where
  isExact scid := .string scid.text
  ofJson?_toJson scid := congrArg Except.toOption scid.parse_text

namespace Channel

theorem isExact_toJson (channel : Channel) : channel.toJson.IsExact := by
  exact Json.isExact_members ⟨.string _, .string _, .string _, Json.isExact_uint64 _, Json.isExact_uint64 _,
    Json.isExact_uint64 _, Json.isExact_uint64 _, Json.isExact_uint64 _, Json.isExact_uint64 _,
    Json.isExact_uint32 _, .bool _, Json.isExact_uint64 _⟩

theorem ofJson?_toJson (channel : Channel) : ofJson? channel.toJson = some channel := by
  have hscid : ShortChannelId.ofJson? channel.scid.toJson = some channel.scid :=
    LawfulWire.ofJson?_toJson channel.scid
  have hnode (node : NodeId) : NodeId.ofJson? node.toJson = some node :=
    LawfulWire.ofJson?_toJson node
  have hactive : Json.bool? (.bool channel.active) = some channel.active := rfl
  refine Json.read_object rfl (by decide) fun fields given => ?_
  simp only [List.forall_mem_cons] at given
  obtain ⟨scid, source, destination, capacity, liquidity, baseFee, feePerMillionth, minHtlc,
    maxHtlc, delay, active, lastUpdate, -⟩ := given
  simp only [Json.Fields.need, scid, source, destination, capacity, liquidity, baseFee,
    feePerMillionth, minHtlc, maxHtlc, delay, active, lastUpdate, hscid, hnode, hactive,
    Json.uint64?_nat, Json.uint32?_nat, Option.bind_eq_bind, Option.bind_some, Option.pure_def]

instance : LawfulWire Channel where
  isExact := isExact_toJson
  ofJson?_toJson := ofJson?_toJson

end Channel

/-- A list is read back if its items are. -/
theorem Json.list?_map {α : Type} {write : α → Json} {read : Json → Option α}
    (h : ∀ value, read (write value) = some value) (values : List α) :
    Json.list? read (.array (values.map write)) = some values := by
  show (values.map write).mapM read = some values
  have hread : read ∘ write = fun value => (pure value : Option α) := funext h
  rw [List.mapM_map, hread, List.mapM_pure, List.map_id']
  rfl

namespace Names

theorem foldl_insert (names : Names) (entries : List (NodeId × String)) :
    entries.foldl (fun names (node, name) => names.insert node name) names =
      names.insertMany entries := by
  induction entries generalizing names with
  | nil => rw [ExtTreeMap.insertMany_nil]; rfl
  | cons entry rest ih =>
    rw [ExtTreeMap.insertMany_cons]
    exact ih _

theorem isExact_toJson (names : Names) : names.toJson.IsExact := by
  refine .object fun member mem => ?_
  obtain ⟨entry, -, rfl⟩ := List.mem_map.mp mem
  exact .string entry.2

theorem ofJson?_toJson (names : Names) : ofJson? names.toJson = some names := by
  unfold ofJson? toJson
  simp only
  rw [List.mapM_map]
  -- each entry is read back as it is
  show (names.toList.mapM (fun entry => (pure entry : Option (NodeId × String))) >>= _) = _
  rw [List.mapM_pure, List.map_id']
  refine congrArg some ((foldl_insert ∅ names.toList).trans ?_)
  rw [← ExtTreeMap.ofList_eq_insertMany_empty]
  exact ofList_toList names

end Names

namespace Snapshot

theorem isExact_toJson (snapshot : Snapshot) : snapshot.toJson.IsExact := by
  refine Json.isExact_members ⟨.array fun item mem => ?_, Names.isExact_toJson snapshot.names⟩
  obtain ⟨channel, -, rfl⟩ := List.mem_map.mp mem
  exact channel.isExact_toJson

theorem ofJson?_toJson (snapshot : Snapshot) : ofJson? snapshot.toJson = some snapshot := by
  have hchannels := Json.list?_map Channel.ofJson?_toJson snapshot.channels
  have hnames := Names.ofJson?_toJson snapshot.names
  refine Json.read_object rfl (by decide) fun fields given => ?_
  simp only [List.forall_mem_cons] at given
  obtain ⟨channels, names, -⟩ := given
  simp only [Json.Fields.need, Json.Fields.orDefault, channels, names, hchannels, hnames,
    Option.bind_eq_bind, Option.bind_some, Option.pure_def]

instance : LawfulWire Snapshot where
  isExact := isExact_toJson
  ofJson?_toJson := ofJson?_toJson

end Snapshot

end Rebalancing
