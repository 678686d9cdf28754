import Rebalancing.Rpc.Listing

/-!
# Records of a listing, term by term

A record decodes to a channel if each of its fields says what the channel has.  The fields but the
amounts and the satoshis are looked up in every record in the same way.
-/

namespace Rebalancing

namespace Json

variable {fields fields' : Fields} {name : String} {α : Type} {decode : Json → Option α}
  {default : α}

theorem need_congr (h : fields.get? name = fields'.get? name) :
    fields.need name decode = fields'.need name decode := by
  rw [Fields.need, Fields.need, h]

theorem orDefault_congr (h : fields.get? name = fields'.get? name) :
    fields.orDefault name default decode = fields'.orDefault name default decode := by
  rw [Fields.orDefault, Fields.orDefault, h]

theorem optional_congr (h : fields.get? name = fields'.get? name) :
    fields.optional name decode = fields'.optional name decode :=
  orDefault_congr h

end Json

namespace ListedChannel

open Json (Fields need_congr orDefault_congr)

variable {n : Msat} {fields fields' : Fields} {channel : ListedChannel} {record : Json}

/-- The size that a record gives in one unit or the other. -/
def size? (fields : Fields) : Option UInt64 := do
  let amount ← fields.optional "amount_msat" Json.msat?
  let satoshis ← fields.optional "satoshis" Json.uint64?
  return listedSize satoshis amount

/-- The lower bound, which is zero if the record gives none. -/
def minimum? (fields : Fields) : Option Msat :=
  (fields.optional "htlc_minimum_msat" Json.msat?).map (·.getD 0)

/-- The fields of a record say what a channel has. -/
structure Describes (fields : Fields) (channel : ListedChannel) : Prop where
  scid : fields.need "short_channel_id" ShortChannelId.ofJson? = some channel.scid
  source : fields.need "source" NodeId.ofJson? = some channel.source
  destination : fields.need "destination" NodeId.ofJson? = some channel.destination
  size : size? fields = some channel.satoshis
  baseFee : fields.need "base_fee_millisatoshi" Json.uint64? = some channel.baseFee
  feePerMillionth : fields.need "fee_per_millionth" Json.uint64? = some channel.feePerMillionth
  minimum : minimum? fields = some channel.htlcMinimum
  maximum : fields.optional "htlc_maximum_msat" Json.msat? = some channel.htlcMaximum
  delay : fields.need "delay" Json.uint32? = some channel.delay
  active : fields.orDefault "active" true Json.bool? = some channel.active
  lastUpdate : fields.orDefault "last_update" 0 Json.uint64? = some channel.lastUpdate

theorem bind_of_eq_some {α β : Type} {x : Option α} {value : α} (h : x = some value)
    (f : α → Option β) : (x >>= f) = f value := by
  rw [h]
  rfl

theorem size?_eq_some_iff {size : UInt64} : size? fields = some size ↔
    ∃ amount satoshis, fields.optional "amount_msat" Json.msat? = some amount ∧
      fields.optional "satoshis" Json.uint64? = some satoshis ∧
      listedSize satoshis amount = size := by
  constructor
  · intro h
    obtain ⟨amount, hamount, h⟩ := Option.bind_eq_some_iff.mp h
    obtain ⟨satoshis, hsatoshis, h⟩ := Option.bind_eq_some_iff.mp h
    exact ⟨amount, satoshis, hamount, hsatoshis, Option.some.inj h⟩
  · rintro ⟨amount, satoshis, hamount, hsatoshis, rfl⟩
    rw [size?, bind_of_eq_some hamount, bind_of_eq_some hsatoshis]
    rfl

theorem size?_congr
    (amount : fields.optional "amount_msat" Json.msat? = fields'.optional "amount_msat" Json.msat?)
    (satoshis : fields.optional "satoshis" Json.uint64? =
      fields'.optional "satoshis" Json.uint64?) : size? fields = size? fields' := by
  rw [size?, size?, amount, satoshis]

/-- A record decodes to what its fields say. -/
theorem ofListing?_eq_some_iff (hfields : record.fields? listedNames = some fields) :
    ofListing? record = some channel ↔ Describes fields channel := by
  rw [ofListing?, bind_of_eq_some hfields]
  constructor
  · intro h
    obtain ⟨amount, hamount, h⟩ := Option.bind_eq_some_iff.mp h
    obtain ⟨satoshis, hsatoshis, h⟩ := Option.bind_eq_some_iff.mp h
    obtain ⟨minimum, hminimum, h⟩ := Option.bind_eq_some_iff.mp h
    obtain ⟨scid, hscid, h⟩ := Option.bind_eq_some_iff.mp h
    obtain ⟨source, hsource, h⟩ := Option.bind_eq_some_iff.mp h
    obtain ⟨destination, hdestination, h⟩ := Option.bind_eq_some_iff.mp h
    obtain ⟨baseFee, hbaseFee, h⟩ := Option.bind_eq_some_iff.mp h
    obtain ⟨feePerMillionth, hfeePerMillionth, h⟩ := Option.bind_eq_some_iff.mp h
    obtain ⟨maximum, hmaximum, h⟩ := Option.bind_eq_some_iff.mp h
    obtain ⟨delay, hdelay, h⟩ := Option.bind_eq_some_iff.mp h
    obtain ⟨active, hactive, h⟩ := Option.bind_eq_some_iff.mp h
    obtain ⟨lastUpdate, hlastUpdate, h⟩ := Option.bind_eq_some_iff.mp h
    cases h
    exact {
      scid := hscid, source := hsource, destination := hdestination
      size := size?_eq_some_iff.mpr ⟨amount, satoshis, hamount, hsatoshis, rfl⟩
      baseFee := hbaseFee, feePerMillionth := hfeePerMillionth
      minimum := Option.map_eq_some_iff.mpr ⟨minimum, hminimum, rfl⟩
      maximum := hmaximum, delay := hdelay, active := hactive, lastUpdate := hlastUpdate }
  · intro describes
    obtain ⟨amount, satoshis, hamount, hsatoshis, hsize⟩ := size?_eq_some_iff.mp describes.size
    obtain ⟨minimum, hminimum, hdefault⟩ := Option.map_eq_some_iff.mp describes.minimum
    rw [bind_of_eq_some hamount, bind_of_eq_some hsatoshis, bind_of_eq_some hminimum,
      bind_of_eq_some describes.scid, bind_of_eq_some describes.source, bind_of_eq_some describes.destination,
      bind_of_eq_some describes.baseFee, bind_of_eq_some describes.feePerMillionth,
      bind_of_eq_some describes.maximum, bind_of_eq_some describes.delay, bind_of_eq_some describes.active,
      bind_of_eq_some describes.lastUpdate, hsize, hdefault]
    rfl

/-! ## Other fields -/

/-- The fields that are amounts. -/
def amountNames : List String := ["amount_msat", "htlc_minimum_msat", "htlc_maximum_msat"]

/-- Records that say the same besides amounts and satoshis. -/
def SameTerms (fields fields' : Fields) : Prop :=
  ∀ name, name ∉ amountNames → name ≠ "satoshis" → fields.get? name = fields'.get? name

theorem SameTerms.symm (same : SameTerms fields fields') : SameTerms fields' fields :=
  fun name amount satoshis => (same name amount satoshis).symm

/-- What a record says besides its amounts carries over to another one. -/
theorem Describes.withAmounts (describes : Describes fields channel) (same : SameTerms fields fields')
    {size minimum : UInt64} {maximum : Option Msat} (hsize : size? fields' = some size)
    (hminimum : minimum? fields' = some minimum)
    (hmaximum : fields'.optional "htlc_maximum_msat" Json.msat? = some maximum) :
    Describes fields' { channel with
      satoshis := size, htlcMinimum := minimum, htlcMaximum := maximum } where
  scid := (need_congr (same _ (by decide) (by decide))).symm.trans describes.scid
  source := (need_congr (same _ (by decide) (by decide))).symm.trans describes.source
  destination := (need_congr (same _ (by decide) (by decide))).symm.trans describes.destination
  size := hsize
  baseFee := (need_congr (same _ (by decide) (by decide))).symm.trans describes.baseFee
  feePerMillionth := (need_congr (same _ (by decide) (by decide))).symm.trans describes.feePerMillionth
  minimum := hminimum
  maximum := hmaximum
  delay := (need_congr (same _ (by decide) (by decide))).symm.trans describes.delay
  active := (orDefault_congr (same _ (by decide) (by decide))).symm.trans describes.active
  lastUpdate := (orDefault_congr (same _ (by decide) (by decide))).symm.trans describes.lastUpdate

end ListedChannel

end Rebalancing
