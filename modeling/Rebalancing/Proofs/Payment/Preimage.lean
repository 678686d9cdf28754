import Rebalancing.Proofs.Wire.Types

/-!
# The texts of preimages

A preimage is written as 64 digits in lower case.  A text is read as a preimage exactly if it is
the preimage's text but for the case of its letters.  What else is wrong with a text is told in a
fixed order: an odd number of bytes, another number than 64, and the first byte that is no digit.
-/

namespace Rebalancing

namespace Hex

/-! ## Lower case -/

/-- What can be checked of 128 numbers holds of every ASCII character. -/
theorem forall_ascii {p : Char → Prop} (h : ∀ n < 128, p (.ofNat n)) (c : Char)
    (ascii : c.toNat < 128) : p c := by
  have := h c.toNat ascii
  rwa [Char.ofNat_toNat] at this

theorem utf8EncodeChar_toLower : ∀ c : Char, c.toNat < 128 →
    String.utf8EncodeChar c.toLower = (String.utf8EncodeChar c).map lower :=
  forall_ascii (by decide +kernel)

/-- Every byte of a character that is not ASCII has its highest bit set. -/
theorem toNat_lt_of_forall_lt {c : Char} (h : ∀ byte ∈ String.utf8EncodeChar c, byte < 0x80) :
    c.toNat < 128 := by
  -- the last byte of several is a continuation
  have last (front : List UInt8) :
      String.utf8EncodeChar c ≠ front ++ [c.val.toUInt8 &&& 0x3f ||| 0x80] := by
    intro same
    have lt := h _ (same ▸ List.mem_append_right front List.mem_cons_self)
    rw [UInt8.lt_iff_toNat_lt, UInt8.toNat_or] at lt
    exact absurd Nat.right_le_or (Nat.not_le.mpr lt)
  rcases c.utf8Size_eq with size | size | size | size
  · exact Nat.lt_succ_of_le (UInt32.le_iff_toNat_le.mp (Char.utf8Size_eq_one_iff.mp size))
  · exact absurd (String.utf8EncodeChar_eq_cons_cons size) (last [_])
  · exact absurd (String.utf8EncodeChar_eq_cons_cons_cons size) (last [_, _])
  · exact absurd (String.utf8EncodeChar_eq_cons_cons_cons_cons size) (last [_, _, _])

/-- Only ASCII characters are changed. -/
theorem toNat_lt_of_toLower {c : Char} (h : c.toLower.toNat < 128) : c.toNat < 128 := by
  unfold Char.toLower at h
  split at h
  case isTrue capital =>
    have le : c.toNat ≤ 'Z'.toNat := UInt32.le_iff_toNat_le.mp capital.2
    exact Nat.lt_of_le_of_lt le (by decide)
  case isFalse => exact h

theorem ascii_eq (text : String) : Json.ascii text = text.toList.flatMap String.utf8EncodeChar := by
  rw [← Json.ascii_ofList, String.ofList_toList]

theorem ascii_injective : Function.Injective Json.ascii := by
  intro text other same
  have h := Json.fromUTF8?_toUTF8 text
  have h' := Json.fromUTF8?_toUTF8 other
  rw [show text.toUTF8.toList = other.toUTF8.toList from same, h'] at h
  exact (Option.some.inj h).symm

theorem toList_toLower (text : String) : text.toLower.toList = text.toList.map Char.toLower :=
  String.toList_map ..

theorem ascii_toLower {text : String} (h : ∀ c ∈ text.toList, c.toNat < 128) :
    Json.ascii text.toLower = (Json.ascii text).map lower := by
  rw [ascii_eq, ascii_eq, toList_toLower, List.flatMap_map, List.map_flatMap]
  exact List.flatMap_congr fun c mem => utf8EncodeChar_toLower c (h c mem)

/-- A text of digits is ASCII. -/
theorem toNat_lt_of_forall_isDigit {text : String} (h : ∀ byte ∈ Json.ascii text, IsDigit byte) :
    ∀ c ∈ text.toList, c.toNat < 128 := by
  intro c mem
  rw [ascii_eq] at h
  exact toNat_lt_of_forall_lt fun byte hbyte => (h byte (List.mem_flatMap.mpr ⟨c, mem, hbyte⟩)).lt

/-- So is a text that is made of digits when it is put in lower case. -/
theorem toNat_lt_of_forall_isDigit_toLower {text : String}
    (h : ∀ byte ∈ Json.ascii text.toLower, IsDigit byte) : ∀ c ∈ text.toList, c.toNat < 128 := by
  intro c mem
  apply toNat_lt_of_toLower
  apply toNat_lt_of_forall_isDigit h
  rw [toList_toLower]
  exact List.mem_map_of_mem mem

end Hex

namespace Preimage

open Hex (Decodes IsDigit IsFirstFlaw)

variable {text : String} {preimage : Preimage}

theorem ascii_toHex (preimage : Preimage) :
    Json.ascii preimage.toHex = preimage.bytes.toList.flatMap Hex.pairBytes :=
  Hex.toUTF8_encode preimage.bytes.toList

/-- A text is read exactly if it has the right digits, in either case. -/
theorem ofHex_eq_ok_iff_toLower : ofHex text = .ok preimage ↔ preimage.toHex = text.toLower := by
  rw [ofHex_eq_ok_iff, Hex.decode_eq_iff]
  constructor
  · intro h
    cases h with
    | ok length digits same =>
      apply Hex.ascii_injective
      rw [ascii_toHex, same, Hex.ascii_toLower (Hex.toNat_lt_of_forall_isDigit digits)]
      rfl
  · intro h
    have hbytes : Json.ascii text.toLower = preimage.bytes.toList.flatMap Hex.pairBytes :=
      h ▸ ascii_toHex preimage
    have hdigits : ∀ byte ∈ Json.ascii text.toLower, IsDigit byte := fun byte mem =>
      Hex.isDigit_of_mem_pairBytes (hbytes ▸ mem)
    rw [Hex.ascii_toLower (Hex.toNat_lt_of_forall_isDigit_toLower hdigits)] at hbytes hdigits
    refine .ok ?_ (fun byte mem => ?_) hbytes.symm
    · have hlength := congrArg List.length hbytes
      rw [List.length_map, Hex.length_pairBytes, Vector.length_toList] at hlength
      exact hlength
    · exact (Hex.isDigit_lower byte).mp (hdigits _ (List.mem_map_of_mem mem))

/-- **Texts of preimages.**  A preimage is read back from its digits and from its form in JSON.  A text
is read exactly if its bytes are 64 digits, in either case, and in lower case it is then the text of
the preimage.  Otherwise an odd number of bytes is told first, then a number of them other than 64,
and then the first byte that is no digit with its place. -/
theorem hex_isExact :
    (∀ preimage : Preimage, ofHex preimage.toHex = .ok preimage ∧
      Wire.decode? (Wire.encode preimage) = some preimage) ∧
    ∀ text : String,
      ((∃ preimage, ofHex text = .ok preimage) ↔
        text.toUTF8.toList.length = 64 ∧ ∀ byte ∈ text.toUTF8.toList, IsDigit byte) ∧
      (∀ preimage, ofHex text = .ok preimage ↔ preimage.toHex = text.toLower) ∧
      (ofHex text = .error .oddLength ↔ text.toUTF8.toList.length % 2 = 1) ∧
      (ofHex text = .error .wrongLength ↔
        text.toUTF8.toList.length % 2 = 0 ∧ text.toUTF8.toList.length ≠ 64) ∧
      ∀ byte index, ofHex text = .error (.notDigit byte index) ↔
        text.toUTF8.toList.length = 64 ∧ IsFirstFlaw text.toUTF8.toList byte index := by
  refine ⟨fun preimage => ⟨ofHex_toHex preimage, Wire.decode?_encode preimage⟩, fun text => ?_⟩
  simp only [ofHex_eq_error_iff, Hex.decode_eq_iff]
  refine ⟨⟨?_, ?_⟩, fun _ => ofHex_eq_ok_iff_toLower, ⟨?_, .oddLength⟩,
    ⟨?_, fun h => .wrongLength h.1 h.2⟩, fun byte index => ⟨?_, fun h => .notDigit h.1 h.2⟩⟩
  · rintro ⟨preimage, h⟩
    rw [ofHex_eq_ok_iff, Hex.decode_eq_iff] at h
    cases h with
    | ok length digits => exact ⟨length, digits⟩
  · rintro ⟨length, digits⟩
    cases read : ofHex text with
    | ok preimage => exact ⟨preimage, rfl⟩
    | error error =>
      rw [ofHex_eq_error_iff, Hex.decode_eq_iff] at read
      cases read with
      | oddLength odd => omega
      | wrongLength _ other => exact absurd length other
      | notDigit _ first => exact absurd digits first.not_forall
  · intro h
    cases h with
    | oddLength odd => exact odd
  · intro h
    cases h with
    | wrongLength even other => exact ⟨even, other⟩
  · intro h
    cases h with
    | notDigit length first => exact ⟨length, first⟩

/-- Bytes are counted and not characters, and how many there are is told before what is wrong with
one of them. -/
example : ofHex "é!?" = .error .wrongLength ∧ ofHex "é!" = .error .oddLength := by decide +kernel

end Preimage

end Rebalancing
