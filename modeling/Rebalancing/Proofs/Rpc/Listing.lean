import Rebalancing.Proofs.Json.Fields
import Rebalancing.Proofs.Rpc.Terms
import Rebalancing.Proofs.Text.Numeral
import Rebalancing.Proofs.Wire.RoundTrip

/-!
# What records of a listing say

Nodes of different age word the same channel differently.  An amount is a number, or a text with a
numeral of the number, with its unit or without; the size of a channel is an amount, or it is given
in satoshis.  A record says the same in all of these ways: what is decoded depends on the amounts
alone.
-/

namespace Rebalancing

open Decimal (IsNumeral isNumeral_digits parse?_eq_some_iff)

namespace Json

variable {n : Msat} {text : List Char} {json record : Json} {name : String} {fields : Fields}

/-! ## Amounts -/

/-- A numeral of an amount, with its unit behind it or without. -/
def IsAmount (n : Msat) (text : List Char) : Prop :=
  ∃ numeral, IsNumeral n.toNat numeral ∧ (text = numeral ∨ text = numeral ++ msatUnit)

theorem dropUnit_append (text : List Char) : dropUnit (text ++ msatUnit) = text := by
  rw [dropUnit, if_pos (List.isSuffixOf_iff_suffix.mpr (List.suffix_append text msatUnit)),
    List.length_append, Nat.add_sub_cancel, List.take_left']
  rfl

/-- The unit is no part of a numeral. -/
theorem dropUnit_of_isNumeral {n : Nat} (h : IsNumeral n text) : dropUnit text = text := by
  refine if_neg fun suffix => ?_
  have mem : 'm' ∈ text := (List.isSuffixOf_iff_suffix.mp suffix).subset List.mem_cons_self
  exact h.not_mem (by decide) (by decide) mem

theorem eq_dropUnit (text : List Char) :
    text = dropUnit text ∨ text = dropUnit text ++ msatUnit := by
  by_cases suffix : msatUnit.isSuffixOf text
  · obtain ⟨front, rfl⟩ := List.isSuffixOf_iff_suffix.mp suffix
    exact .inr (by rw [dropUnit_append])
  · exact .inl (if_neg suffix).symm

/-- The texts that are taken for an amount. -/
theorem msat?_string {text : String} : msat? (.string text) = some n ↔ IsAmount n text.toList := by
  have limit : n.toNat ≤ 0xffffffffffffffff := Nat.le_of_lt_succ n.toNat_lt
  constructor
  · intro h
    obtain ⟨value, hvalue, rfl⟩ := Option.map_eq_some_iff.mp h
    obtain ⟨numeral, le⟩ := parse?_eq_some_iff.mp hvalue
    refine ⟨_, ?_, eq_dropUnit _⟩
    rwa [UInt64.toNat_ofNat_of_lt' (Nat.lt_succ_of_le le)]
  · rintro ⟨numeral, h, hunit⟩
    have front : dropUnit text.toList = numeral := by
      rcases hunit with same | same
      · rw [same, dropUnit_of_isNumeral h]
      · rw [same, dropUnit_append]
    show (Decimal.parse? _ (dropUnit text.toList)).map UInt64.ofNat = some n
    rw [front, parse?_eq_some_iff.mpr ⟨h, limit⟩, Option.map_some, UInt64.ofNat_toNat]

/-- The ways to word an amount. -/
inductive Spells (n : Msat) : Json → Prop
  | number : Spells n (.nat n.toNat)
  | text {text : String} (h : IsAmount n text.toList) : Spells n (.string text)

theorem Spells.numeral (n : Msat) : Spells n (.string (Decimal.text n.toNat)) :=
  .text ⟨_, isNumeral_digits n.toNat, .inl (String.toList_ofList ..)⟩

theorem Spells.withUnit (n : Msat) : Spells n (.string (Decimal.text n.toNat ++ "msat")) :=
  .text ⟨_, isNumeral_digits n.toNat, .inr (by
    rw [String.toList_append, Decimal.text, String.toList_ofList]
    rfl)⟩

theorem Spells.msat? (h : Spells n json) : json.msat? = some n := by
  cases h with
  | number => exact uint64?_nat n
  | text h => exact msat?_string.mpr h

theorem Spells.ne_null (h : Spells n json) : json ≠ .null := by
  cases h <;> nofun

/-! ## Fields -/

section Fields

variable {names : List String} {α : Type} {decode : Json → Option α}

/-- A record gives an amount, in some spelling. -/
def Gives (names : List String) (record : Json) (name : String) (n : Msat) : Prop :=
  ∃ json, record.field? names name = some json ∧ Spells n json

/-- A record leaves a field out, or it is null. -/
def Omits (names : List String) (record : Json) (name : String) : Prop :=
  record.field? names name = none ∨ record.field? names name = some .null

theorem optional_of_get? (h : fields.get? name = some json) (ne : json ≠ .null) :
    fields.optional name decode = (decode json).map some := by
  rw [Fields.optional, Fields.orDefault, h]
  show nullable? decode json = _
  unfold nullable?
  split
  case h_1 => exact absurd rfl ne
  case h_2 => rfl

theorem Gives.optional (h : record.Gives names name n) (hfields : record.fields? names = some fields) :
    fields.optional name msat? = some (some n) := by
  obtain ⟨json, hjson, spells⟩ := h
  rw [field?_of_fields? hfields] at hjson
  rw [optional_of_get? hjson spells.ne_null, spells.msat?, Option.map_some]

theorem Omits.optional (h : record.Omits names name) (hfields : record.fields? names = some fields) :
    fields.optional name decode = some none := by
  rw [Omits, field?_of_fields? hfields] at h
  rw [Fields.optional, Fields.orDefault]
  rcases h with h | h <;> rw [h]
  rfl

/-- A list with an item that does not decode does not decode. -/
theorem mapM_eq_none {item : Json} {items : List Json} (mem : item ∈ items)
    (h : decode item = none) : items.mapM decode = none := by
  induction items with
  | nil => cases mem
  | cons first items ih =>
    rw [List.mapM_cons]
    rcases List.mem_cons.mp mem with rfl | mem
    · rw [h]
      rfl
    · rw [ih mem]
      cases decode first <;> rfl

end Fields

end Json

namespace ListedChannel

open Json (Fields SameBut Gives Omits Spells IsAmount field?_of_fields? exists_fields?_of_field?
  optional_congr optional_of_get?)

variable {n : Msat} {record record' : Json} {name : String} {fields fields' : Fields}
  {channel : ListedChannel}

/-! ## The size -/

theorem size?_of_amount (amount : fields.optional "amount_msat" Json.msat? = some (some n))
    (satoshis : fields.optional "satoshis" Json.uint64? = some none) :
    size? fields = some (n / 1000) :=
  size?_eq_some_iff.mpr ⟨_, _, amount, satoshis, rfl⟩

/-- The satoshis decide. -/
theorem size?_of_satoshis {satoshis : UInt64} {amount : Option Msat}
    (hfields : record.fields? listedNames = some fields)
    (given : record.field? listedNames "satoshis" = some (.nat satoshis.toNat))
    (hamount : fields.optional "amount_msat" Json.msat? = some amount) :
    size? fields = some satoshis := by
  rw [field?_of_fields? hfields] at given
  have hsatoshis : fields.optional "satoshis" Json.uint64? = some (some satoshis) := by
    rw [optional_of_get? given nofun, Json.uint64?_nat, Option.map_some]
  exact size?_eq_some_iff.mpr ⟨_, _, hamount, hsatoshis, rfl⟩

/-- The capacity of a whole number of satoshis. -/
theorem toNat_capacity (h : channel.satoshis = n / 1000) :
    channel.capacity.toNat = n.toNat / 1000 * 1000 := by
  have := n.toNat_lt
  rw [capacity, h, UInt64.toNat_satMul, UInt64.toNat_div]
  simp only [UInt64.reduceToNat]
  omega

/-! ## Wordings -/

theorem sameTerms_of_subset {changed : List String} (subset : changed ⊆ "satoshis" :: amountNames)
    (same : ∀ name ∉ changed, fields.get? name = fields'.get? name) : SameTerms fields fields' :=
  fun name amount satoshis => same name fun mem =>
    (List.mem_cons.mp (subset mem)).elim satoshis amount

/-- Records decode to the same if they give the same size and bounds, in whatever wording. -/
theorem ofListing?_congr (hfields : record.fields? listedNames = some fields)
    (hfields' : record'.fields? listedNames = some fields') (same : SameTerms fields fields')
    (size : size? fields = size? fields') (minimum : minimum? fields = minimum? fields')
    (maximum : fields.optional "htlc_maximum_msat" Json.msat? =
      fields'.optional "htlc_maximum_msat" Json.msat?) : ofListing? record = ofListing? record' := by
  ext channel
  rw [ofListing?_eq_some_iff hfields, ofListing?_eq_some_iff hfields']
  constructor
  · intro describes
    exact describes.withAmounts same (size ▸ describes.size) (minimum ▸ describes.minimum)
      (maximum ▸ describes.maximum)
  · intro describes
    exact describes.withAmounts same.symm (size ▸ describes.size) (minimum ▸ describes.minimum)
      (maximum ▸ describes.maximum)

/-- How an amount is spelled does not matter. -/
theorem ofListing?_of_gives (mem : name ∈ amountNames)
    (same : SameBut listedNames [name] record record') (gives : Gives listedNames record name n)
    (gives' : Gives listedNames record' name n) : ofListing? record = ofListing? record' := by
  have ⟨_, given, _⟩ := gives
  obtain ⟨fields, fields', hfields, hfields', same⟩ := same.exists_fields? given
  have amount (other : String) :
      fields.optional other Json.msat? = fields'.optional other Json.msat? := by
    by_cases h : other = name
    · rw [h, gives.optional hfields, gives'.optional hfields']
    · exact optional_congr (same other (by simpa using h))
  have ne : "satoshis" ∉ [name] := by
    rintro (_ | ⟨_, ⟨⟩⟩)
    exact absurd mem (by decide)
  have subset : [name] ⊆ "satoshis" :: amountNames :=
    List.cons_subset.mpr ⟨List.mem_cons_of_mem _ mem, List.nil_subset _⟩
  refine ofListing?_congr hfields hfields' (sameTerms_of_subset subset same) ?_ ?_ (amount _)
  · exact size?_congr (amount _) (optional_congr (same _ ne))
  · rw [minimum?, minimum?, amount]

/-- A bound that a record gives is the one of the channel. -/
theorem ofListing?_of_minimum (same : SameBut listedNames ["htlc_minimum_msat"] record record')
    (gives : Gives listedNames record "htlc_minimum_msat" n)
    (decodes : ofListing? record' = some channel) :
    ofListing? record = some { channel with htlcMinimum := n } := by
  have ⟨_, given, _⟩ := gives
  obtain ⟨fields, fields', hfields, hfields', same⟩ := same.exists_fields? given
  have describes := (ofListing?_eq_some_iff hfields').mp decodes
  refine (ofListing?_eq_some_iff hfields).mpr
    (describes.withAmounts (sameTerms_of_subset (by decide) same).symm ?_ ?_ ?_)
  · rw [size?_congr (optional_congr (same _ (by decide))) (optional_congr (same _ (by decide)))]
    exact describes.size
  · rw [minimum?, gives.optional hfields]
    rfl
  · rw [optional_congr (same _ (by decide))]
    exact describes.maximum

theorem ofListing?_of_maximum (same : SameBut listedNames ["htlc_maximum_msat"] record record')
    (gives : Gives listedNames record "htlc_maximum_msat" n)
    (decodes : ofListing? record' = some channel) :
    ofListing? record = some { channel with htlcMaximum := some n } := by
  have ⟨_, given, _⟩ := gives
  obtain ⟨fields, fields', hfields, hfields', same⟩ := same.exists_fields? given
  have describes := (ofListing?_eq_some_iff hfields').mp decodes
  refine (ofListing?_eq_some_iff hfields).mpr
    (describes.withAmounts (sameTerms_of_subset (by decide) same).symm ?_ ?_ (gives.optional hfields))
  · rw [size?_congr (optional_congr (same _ (by decide))) (optional_congr (same _ (by decide)))]
    exact describes.size
  · rw [minimum?, optional_congr (same _ (by decide))]
    exact describes.minimum

/-- Records whose sizes are worded differently decode to the same if the sizes are the same. -/
theorem ofListing?_of_size? {changed : List String} {size : UInt64}
    (subset : changed ⊆ ["amount_msat", "satoshis"])
    (hfields : record.fields? listedNames = some fields)
    (hfields' : record'.fields? listedNames = some fields')
    (same : ∀ name ∉ changed, fields.get? name = fields'.get? name)
    (hsize : size? fields = some size) (hsize' : size? fields' = some size) :
    ofListing? record = ofListing? record' ∧
    ∀ channel, ofListing? record = some channel → channel.satoshis = size := by
  have bound {name : String} (h : name ∉ ["amount_msat", "satoshis"]) :
      fields.optional name Json.msat? = fields'.optional name Json.msat? :=
    optional_congr (same name fun mem => h (subset mem))
  have terms := sameTerms_of_subset (List.Subset.trans subset (by decide)) same
  constructor
  · refine ofListing?_congr hfields hfields' terms (hsize.trans hsize'.symm) ?_ (bound (by decide))
    rw [minimum?, minimum?, bound (by decide)]
  · intro channel decodes
    have describes := (ofListing?_eq_some_iff hfields).mp decodes
    exact Option.some.inj (describes.size.symm.trans hsize)

/-- An amount is as good as the satoshis that it has. -/
theorem ofListing?_of_amount
    (same : SameBut listedNames ["amount_msat", "satoshis"] record record')
    (gives : Gives listedNames record "amount_msat" n) (omits : Omits listedNames record "satoshis")
    (omits' : Omits listedNames record' "amount_msat")
    (given' : record'.field? listedNames "satoshis" = some (.nat (n / 1000).toNat)) :
    ofListing? record = ofListing? record' ∧
    ∀ channel, ofListing? record = some channel → channel.capacity.toNat = n.toNat / 1000 * 1000 := by
  have ⟨_, given, _⟩ := gives
  obtain ⟨fields, fields', hfields, hfields', same⟩ := same.exists_fields? given
  have size := size?_of_amount (gives.optional hfields) (omits.optional hfields)
  have size' := size?_of_satoshis hfields' given' (omits'.optional hfields')
  obtain ⟨decodes, satoshis⟩ :=
    ofListing?_of_size? (List.Subset.refl _) hfields hfields' same size size'
  exact ⟨decodes, fun channel h => toNat_capacity (satoshis channel h)⟩

/-- If both are given, the satoshis decide. -/
theorem ofListing?_of_satoshis {satoshis : UInt64}
    (same : SameBut listedNames ["amount_msat"] record record')
    (gives : Gives listedNames record "amount_msat" n)
    (omits' : Omits listedNames record' "amount_msat")
    (given : record.field? listedNames "satoshis" = some (.nat satoshis.toNat)) :
    ofListing? record = ofListing? record' ∧
    ∀ channel, ofListing? record = some channel → channel.satoshis = satoshis := by
  obtain ⟨fields, fields', hfields, hfields', same⟩ := same.exists_fields? given
  have given' : record'.field? listedNames "satoshis" = some (.nat satoshis.toNat) := by
    rw [field?_of_fields? hfields', ← same _ (by decide), ← field?_of_fields? hfields, given]
  exact ofListing?_of_size? (by decide) hfields hfields' same
    (size?_of_satoshis hfields given (gives.optional hfields))
    (size?_of_satoshis hfields' given' (omits'.optional hfields'))

/-! ## Refusals -/

/-- All amounts of a record that decodes do. -/
theorem Describes.isSome_amount (describes : Describes fields channel) (mem : name ∈ amountNames) :
    (fields.optional name Json.msat?).isSome := by
  obtain ⟨amount, -, hamount, -, -⟩ := size?_eq_some_iff.mp describes.size
  obtain ⟨minimum, hminimum, -⟩ := Option.map_eq_some_iff.mp describes.minimum
  rw [amountNames, List.mem_cons, List.mem_cons, List.mem_singleton] at mem
  rcases mem with rfl | rfl | rfl
  · rw [hamount]
    rfl
  · rw [hminimum]
    rfl
  · rw [describes.maximum]
    rfl

/-- A text that is no amount spoils the record. -/
theorem ofListing?_eq_none (mem : name ∈ amountNames) {text : String}
    (given : record.field? listedNames name = some (.string text))
    (refused : ∀ n, ¬IsAmount n text.toList) : ofListing? record = none := by
  obtain ⟨fields, hfields, hget⟩ := exists_fields?_of_field? given
  have none : Json.msat? (.string text) = none :=
    Option.eq_none_iff_forall_ne_some.mpr fun n h => refused n (Json.msat?_string.mp h)
  refine Option.eq_none_iff_forall_ne_some.mpr fun channel decodes => ?_
  have h := ((ofListing?_eq_some_iff hfields).mp decodes).isSome_amount mem
  rw [optional_of_get? hget nofun, none] at h
  cases h

/-- A record that is spoilt spoils the listing. -/
theorem listing?_eq_none {records : List Json} {answer : Json} (mem : record ∈ records)
    (given : answer.field? ["channels"] "channels" = some (.array records))
    (h : ofListing? record = none) : Json.listing? "channels" ofListing? answer = none := by
  obtain ⟨fields, hfields, hget⟩ := exists_fields?_of_field? given
  rw [Json.listing?, hfields]
  show fields.need "channels" _ = none
  rw [Fields.need, hget]
  exact Json.mapM_eq_none mem h

/-- **Wordings of a listing.**  A number, its numeral and the numeral with the unit spell the same
amount.  Records that spell an amount in different ways decode to the same, and bounds that are
given are those of the channel.  A record with nothing but an amount for the size decodes as the one
with its whole satoshis, which are the capacity.  If satoshis are given, an amount changes nothing.
A text that is no amount spoils the record and the listing. -/
theorem ofListing?_wordings (n : Msat) (record record' : Json) :
    (Spells n (.nat n.toNat) ∧ Spells n (.string (Decimal.text n.toNat)) ∧
      Spells n (.string (Decimal.text n.toNat ++ "msat"))) ∧
    (∀ name ∈ amountNames, SameBut listedNames [name] record record' →
      Gives listedNames record name n → Gives listedNames record' name n →
      ofListing? record = ofListing? record') ∧
    (∀ channel, ofListing? record' = some channel →
      (SameBut listedNames ["htlc_minimum_msat"] record record' →
        Gives listedNames record "htlc_minimum_msat" n →
        ofListing? record = some { channel with htlcMinimum := n }) ∧
      (SameBut listedNames ["htlc_maximum_msat"] record record' →
        Gives listedNames record "htlc_maximum_msat" n →
        ofListing? record = some { channel with htlcMaximum := some n })) ∧
    (SameBut listedNames ["amount_msat", "satoshis"] record record' →
      Gives listedNames record "amount_msat" n → Omits listedNames record "satoshis" →
      Omits listedNames record' "amount_msat" →
      record'.field? listedNames "satoshis" = some (.nat (n / 1000).toNat) →
      ofListing? record = ofListing? record' ∧
      ∀ channel, ofListing? record = some channel →
        channel.capacity.toNat = n.toNat / 1000 * 1000) ∧
    (∀ satoshis : UInt64, SameBut listedNames ["amount_msat"] record record' →
      Gives listedNames record "amount_msat" n → Omits listedNames record' "amount_msat" →
      record.field? listedNames "satoshis" = some (.nat satoshis.toNat) →
      ofListing? record = ofListing? record' ∧
      ∀ channel, ofListing? record = some channel → channel.satoshis = satoshis) ∧
    ∀ name ∈ amountNames, ∀ text : String,
      record.field? listedNames name = some (.string text) → (∀ n, ¬IsAmount n text.toList) →
      ofListing? record = none ∧
      ∀ (records : List Json) (answer : Json), record ∈ records →
        answer.field? ["channels"] "channels" = some (.array records) →
        Json.listing? "channels" ofListing? answer = none := by
  refine ⟨⟨.number, .numeral n, .withUnit n⟩, ?respelled, ?bounded, ?resized, ?decided, ?refused⟩
  case respelled => exact fun name => ofListing?_of_gives
  case bounded =>
    exact fun channel decodes => ⟨fun same gives => ofListing?_of_minimum same gives decodes,
      fun same gives => ofListing?_of_maximum same gives decodes⟩
  case resized => exact ofListing?_of_amount
  case decided => exact fun satoshis => ofListing?_of_satoshis
  case refused =>
    intro name mem text given refused
    have none := ofListing?_eq_none mem given refused
    exact ⟨none, fun records answer mem given => listing?_eq_none mem given none⟩

/-- The ferry in old and new wordings, in an object and in an array, and with a unit too many. -/
theorem ofListing?_wordings_ferry :
    let terms := [("source", .string "02aa"), ("destination", .string "03bb"),
      ("short_channel_id", .string "700000x1x0"), ("base_fee_millisatoshi", .nat 1000),
      ("fee_per_millionth", .nat 10), ("delay", .nat 34)]
    let ferry (name : String) (value : Json) := Json.object ((name, value) :: terms)
    let row : List Json := [.string "02aa", .string "03bb", .string "700000x1x0", .null, .nat 2000,
      .bool true, .nat 0, .nat 1000, .nat 10, .nat 34, .string "1000msat"]
    ofListing? (ferry "htlc_minimum_msat" (.nat 1000)) =
      ofListing? (ferry "htlc_minimum_msat" (.string "+01000msat")) ∧
    ofListing? (.array (row.set 10 (.nat 1000))) = ofListing? (.array row) ∧
    ofListing? (ferry "amount_msat" (.nat 2000999)) = ofListing? (ferry "satoshis" (.nat 2000)) ∧
    (ofListing? (ferry "satoshis" (.nat 2000))).map capacity = some 2000000 ∧
    ofListing? (ferry "htlc_maximum_msat" (.string "1000msatmsat")) = none := by
  intro terms ferry row
  refine ⟨?signed, ?item, ?size, by decide +kernel, ?refused⟩
  case signed =>
    have spells : Spells 1000 (.string "+01000msat") :=
      .text (Json.msat?_string.mp (by decide +kernel))
    exact (ofListing?_wordings 1000 _ _).2.1 _ (by decide) (Json.sameBut_value _ [] terms _ _ _)
      ⟨_, rfl, .number⟩ ⟨_, rfl, spells⟩
  case item =>
    have same := Json.sameBut_item (show listedNames[10]? = some "htlc_minimum_msat" from rfl) row
      (.nat 1000)
    exact (ofListing?_wordings 1000 _ _).2.1 _ (by decide) same ⟨_, rfl, .number⟩
      ⟨_, rfl, .withUnit 1000⟩
  case size =>
    have amount := Json.sameBut_member listedNames [] terms
      (show "amount_msat" ∉ terms.map (·.1) by decide) (.nat 2000999)
    have satoshis := Json.sameBut_member listedNames [] terms
      (show "satoshis" ∉ terms.map (·.1) by decide) (.nat 2000)
    exact ((ofListing?_wordings 2000999 _ _).2.2.2.1 (amount.trans satoshis.symm)
      ⟨_, rfl, .number⟩ (.inl rfl) (.inl rfl) rfl).1
  case refused =>
    refine ((ofListing?_wordings 0 _ (.object [])).2.2.2.2.2 "htlc_maximum_msat" (by decide)
      "1000msatmsat" rfl fun n h => ?_).1
    have none : Json.msat? (.string "1000msatmsat") = none := by decide +kernel
    cases none.symm.trans (Json.msat?_string.mpr h)

end ListedChannel

end Rebalancing
