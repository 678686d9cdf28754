import Mathlib.Logic.Function.Basic
import Rebalancing.Channel.Id
import Rebalancing.Proofs.Text.Numeral
import Rebalancing.Proofs.Text.Split

/-!
# The texts of channel ids

A short channel id is three numerals between two separators, and a channel id is a short channel
id, a slash and the numeral of a direction.  Every numeral is taken that has the right value, but
only the numeral of the direction may be written in several ways without making another id: the
text of a short channel id is the id.
-/

namespace Rebalancing

open Decimal (IsNumeral IsWordNumeral isNumeral_digits isWordNumeral_iff parse?_eq_some_iff)

namespace ShortChannelId

variable {text : List Char}

/-- Three numerals between two separators. -/
def IsTriple (text : List Char) : Prop :=
  ∃ block tx output, text = block ++ 'x' :: (tx ++ 'x' :: output) ∧
    IsWordNumeral block ∧ IsWordNumeral tx ∧ IsWordNumeral output

theorem not_mem_of_isWordNumeral {c : Char} (h : IsWordNumeral text) (digit : c.isDigit = false)
    (plus : c ≠ '+') : c ∉ text := by
  obtain ⟨n, h⟩ := h
  exact h.not_mem digit plus

/-- The separator is no part of a numeral, so there are just two of them. -/
theorem splitOn_eq_of_isWordNumeral {block tx output : List Char} (hblock : IsWordNumeral block)
    (htx : IsWordNumeral tx) (houtput : IsWordNumeral output) :
    Text.splitOn 'x' (block ++ 'x' :: (tx ++ 'x' :: output)) = [block, tx, output] := by
  have fresh {part : List Char} (h : IsWordNumeral part) : 'x' ∉ part :=
    not_mem_of_isWordNumeral h (by decide) (by decide)
  rw [Text.splitOn_append (fresh hblock), Text.splitOn_append (fresh htx),
    Text.splitOn_of_not_mem (fresh houtput)]

theorem isShortChannelId_iff : isShortChannelId text ↔ IsTriple text := by
  constructor
  · intro h
    unfold isShortChannelId at h
    split at h
    case h_1 block tx output hsplit =>
      have hparts := List.all_eq_true.mp h
      simp only [List.forall_mem_cons, ← isWordNumeral_iff] at hparts
      obtain ⟨hblock, htx, houtput, -⟩ := hparts
      refine ⟨block, tx, output, ?_, hblock, htx, houtput⟩
      rw [← Text.intercalate_splitOn 'x' text, hsplit]
      simp [List.intercalate]
    case h_2 => cases h
  · rintro ⟨block, tx, output, rfl, hblock, htx, houtput⟩
    rw [isShortChannelId, splitOn_eq_of_isWordNumeral hblock htx houtput]
    simp only [List.all_cons, List.all_nil, isWordNumeral_iff.mp hblock, isWordNumeral_iff.mp htx,
      isWordNumeral_iff.mp houtput, Bool.and_true]

/-- The text that is read is kept. -/
theorem parse_eq_ok_iff {text : String} {scid : ShortChannelId} :
    parse text = .ok scid ↔ scid.text = text := by
  constructor
  · intro h
    unfold parse at h
    split at h
    case isTrue =>
      cases h
      rfl
    case isFalse => cases h
  · rintro rfl
    exact parse_text scid

/-- A slash is no part of a short channel id. -/
theorem slash_not_mem (scid : ShortChannelId) : '/' ∉ scid.text.toList := by
  obtain ⟨block, tx, output, htext, hblock, htx, houtput⟩ :=
    isShortChannelId_iff.mp scid.wellFormed
  have fresh {part : List Char} (h : IsWordNumeral part) : '/' ∉ part :=
    not_mem_of_isWordNumeral h (by decide) (by decide)
  have other : '/' ≠ 'x' := by decide
  rw [htext]
  simp only [List.mem_append, List.mem_cons, fresh hblock, fresh htx, fresh houtput, other, or_self,
    not_false_eq_true]

end ShortChannelId

theorem Direction.ofByte_eq_ok_iff {value : UInt8} {direction : Direction} :
    ofByte value = .ok direction ↔ value.toNat = direction.toNat := by
  have hzero : value = 0 ↔ value.toNat = 0 := UInt8.toNat_inj.symm
  have hone : value = 1 ↔ value.toNat = 1 := UInt8.toNat_inj.symm
  unfold ofByte
  split
  case isTrue h => cases direction <;> simp [toNat, h]
  case isFalse h =>
    split
    case isTrue h' => cases direction <;> simp [toNat, h']
    case isFalse h' => cases direction <;> simp [toNat, ← hzero, ← hone, h, h']

namespace ChannelId

open ShortChannelId (IsTriple isShortChannelId_iff)

/-- Both steps of a reading that succeeds succeed. -/
theorem exists_of_bind_eq_ok {ε α β : Type} {x : Except ε α} {f : α → Except ε β} {result : β}
    (h : x >>= f = .ok result) : ∃ value, x = .ok value ∧ f value = .ok result := by
  cases x with
  | error error => cases h
  | ok value => exact ⟨value, rfl, h⟩

theorem eq_some_of_elim_eq_ok {ε α : Type} {x : Option α} {error : ε} {value : α}
    (h : x.elim (.error error) .ok = Except.ok value) : x = some value := by
  cases x with
  | none => cases h
  | some value => cases h; rfl

theorem parse_eq_ok_iff {text : String} {id : ChannelId} :
    parse text = .ok id ↔ ∃ direction : String,
      text = id.scid.text ++ "/" ++ direction ∧ IsNumeral id.direction.toNat direction.toList := by
  constructor
  · intro h
    obtain ⟨⟨front, back⟩, hsplit, h⟩ := exists_of_bind_eq_ok h
    obtain ⟨value, hvalue, h⟩ := exists_of_bind_eq_ok h
    obtain ⟨scid, hscid, h⟩ := exists_of_bind_eq_ok h
    obtain ⟨direction, hdirection, h⟩ := exists_of_bind_eq_ok h
    cases h
    obtain ⟨htext, -⟩ := Text.eq_of_splitOnce (eq_some_of_elim_eq_ok hsplit)
    obtain ⟨hnumeral, hle⟩ := parse?_eq_some_iff.mp (eq_some_of_elim_eq_ok hvalue)
    rw [Direction.ofByte_eq_ok_iff, UInt8.toNat_ofNat_of_lt' (Nat.lt_succ_of_le hle)] at hdirection
    rw [ShortChannelId.parse_eq_ok_iff] at hscid
    refine ⟨.ofList back, ?_, ?_⟩
    · apply String.toList_injective
      simp [hscid, htext]
    · rw [String.toList_ofList]
      exact hdirection ▸ hnumeral
  · rintro ⟨direction, rfl, hnumeral⟩
    have hsplit : Text.splitOnce '/' (id.scid.text ++ "/" ++ direction).toList =
        some (id.scid.text.toList, direction.toList) := by
      rw [String.toList_append, String.toList_append, List.append_assoc]
      exact Text.splitOnce_append id.scid.slash_not_mem direction.toList
    have hle : id.direction.toNat ≤ 0xff := by cases id.direction <;> decide
    have hvalue := parse?_eq_some_iff.mpr ⟨hnumeral, hle⟩
    have hdirection : Direction.ofByte (.ofNat id.direction.toNat) = .ok id.direction := by
      rw [Direction.ofByte_eq_ok_iff, UInt8.toNat_ofNat_of_lt' (Nat.lt_succ_of_le hle)]
    simp only [parse, hsplit, hvalue, hdirection, Option.elim_some, String.ofList_toList,
      ShortChannelId.parse_text, bind, Except.bind, pure, Except.pure]

/-- What is written is read back. -/
@[simp] theorem parse_text (id : ChannelId) : parse id.text = .ok id :=
  parse_eq_ok_iff.mpr ⟨id.direction.text, rfl, by
    rw [Direction.text, Decimal.text, String.toList_ofList]
    exact isNumeral_digits _⟩

theorem text_injective : Function.Injective text := by
  intro id other same
  have h := parse_text other
  rw [← same, parse_text] at h
  exact Except.ok.inj h

/-- **Texts of channel ids.**  The text of an id is read back as the id, so that no two ids have the
same text.  A text is read exactly if it is three numerals of words, between separators, in front of
a slash and a numeral of zero or one behind it; the id keeps what is in front as it was written, and
its direction is the number behind.  The short channel id of an output is read from its three
numbers. -/
theorem text_isExact :
    (∀ id : ChannelId, parse id.text = .ok id) ∧ Function.Injective text ∧
    (∀ text : String, (∃ id, parse text = .ok id) ↔
      ∃ scid direction : String, text = scid ++ "/" ++ direction ∧ IsTriple scid.toList ∧
        (IsNumeral 0 direction.toList ∨ IsNumeral 1 direction.toList)) ∧
    (∀ (text : String) (id : ChannelId), parse text = .ok id ↔
      ∃ scid direction : String, text = scid ++ "/" ++ direction ∧ IsTriple scid.toList ∧
        IsNumeral id.direction.toNat direction.toList ∧ id.scid.text = scid) ∧
    ∀ (block tx : UInt32) (output : UInt16),
      ShortChannelId.parse (Decimal.text block.toNat ++ "x" ++ Decimal.text tx.toNat ++ "x" ++
        Decimal.text output.toNat) = .ok (.ofParts block tx output) := by
  refine ⟨parse_text, text_injective, fun text => ⟨?_, ?_⟩, fun text id => ⟨?_, ?_⟩, ?_⟩
  · rintro ⟨id, h⟩
    obtain ⟨direction, htext, hnumeral⟩ := parse_eq_ok_iff.mp h
    refine ⟨id.scid.text, direction, htext, isShortChannelId_iff.mp id.scid.wellFormed, ?_⟩
    cases hdirection : id.direction with
    | zero => exact .inl (by rwa [hdirection] at hnumeral)
    | one => exact .inr (by rwa [hdirection] at hnumeral)
  · rintro ⟨scid, direction, htext, htriple, hzero | hone⟩
    · exact ⟨⟨⟨scid, isShortChannelId_iff.mpr htriple⟩, .zero⟩,
        parse_eq_ok_iff.mpr ⟨direction, htext, hzero⟩⟩
    · exact ⟨⟨⟨scid, isShortChannelId_iff.mpr htriple⟩, .one⟩,
        parse_eq_ok_iff.mpr ⟨direction, htext, hone⟩⟩
  · intro h
    obtain ⟨direction, htext, hnumeral⟩ := parse_eq_ok_iff.mp h
    exact ⟨_, direction, htext, isShortChannelId_iff.mp id.scid.wellFormed, hnumeral, rfl⟩
  · rintro ⟨scid, direction, htext, -, hnumeral, rfl⟩
    exact parse_eq_ok_iff.mpr ⟨direction, htext, hnumeral⟩
  · intro block tx output
    rw [ShortChannelId.parse_eq_ok_iff]
    apply String.toList_injective
    simp [ShortChannelId.ofParts, ShortChannelId.render, Decimal.text]

/-- Signs and zeros in front are kept in the short channel id, and dropped from the direction. -/
example : (parse "+1x02x3/+01").toOption.map text = some "+1x02x3/1" := by decide +kernel

end ChannelId

end Rebalancing
