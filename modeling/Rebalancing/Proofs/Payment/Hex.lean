import Rebalancing.Payment.Preimage
import Rebalancing.Proofs.Json.Leaves

/-!
# Hexadecimal texts of byte strings

Every byte is written as two digits, and the two digits are read back as the byte.  Of the other
texts those are read that differ from a written one in the case of their digits, and whatever is
not read has one thing wrong with it that comes first: `Decodes` says what a text comes to.
-/

namespace Rebalancing

namespace Hex

/-- The byte of a digit, in lower case. -/
def digitByte (n : Nat) : UInt8 := if n < 10 then 0x30 + .ofNat n else 0x57 + .ofNat n

theorem utf8EncodeChar_digit {n : Nat} (h : n < 16) :
    String.utf8EncodeChar (digit n) = [digitByte n] := by
  interval_cases n <;> rfl

theorem value?_digitByte {n : Nat} (h : n < 16) : value? (digitByte n) = some (.ofNat n) := by
  interval_cases n <;> rfl

/-- The bytes of the two digits of a byte. -/
def pairBytes (byte : UInt8) : List UInt8 := [digitByte (byte.toNat / 16), digitByte (byte.toNat % 16)]

theorem high_lt (byte : UInt8) : byte.toNat / 16 < 16 := by
  have := byte.toNat_lt
  omega

theorem low_lt (byte : UInt8) : byte.toNat % 16 < 16 := Nat.mod_lt _ (by decide)

/-- A byte is its two digits put together. -/
theorem ofNat_high_mul_add_ofNat_low (byte : UInt8) :
    UInt8.ofNat (byte.toNat / 16) * 16 + .ofNat (byte.toNat % 16) = byte := by
  have := byte.toNat_lt
  apply UInt8.toNat_inj.mp
  simp only [UInt8.toNat_add, UInt8.toNat_mul, UInt8.toNat_ofNat', UInt8.reduceToNat]
  omega

theorem toUTF8_encode (bytes : List UInt8) :
    (encode bytes).toUTF8.toList = bytes.flatMap pairBytes := by
  show Json.ascii (.ofList (bytes.flatMap encodeByte)) = _
  rw [Json.ascii_ofList, List.flatMap_assoc]
  congr 1
  funext byte
  show String.utf8EncodeChar (digit _) ++ (String.utf8EncodeChar (digit _) ++ []) = _
  rw [utf8EncodeChar_digit (high_lt byte), utf8EncodeChar_digit (low_lt byte)]
  rfl

theorem digitAt_digitByte {n : Nat} (h : n < 16) (index : Nat) :
    digitAt (digitByte n) index = .ok (.ofNat n) := by
  rw [digitAt, value?_digitByte h]

theorem decodePairs_pairBytes (bytes : List UInt8) (index : Nat) :
    decodePairs index (bytes.flatMap pairBytes) = .ok bytes := by
  induction bytes generalizing index with
  | nil => rfl
  | cons byte rest ih =>
    show decodePairs index
      (digitByte (byte.toNat / 16) :: digitByte (byte.toNat % 16) :: rest.flatMap pairBytes) = _
    rw [decodePairs, digitAt_digitByte (high_lt byte), digitAt_digitByte (low_lt byte), ih]
    show Except.ok ((UInt8.ofNat _ * 16 + .ofNat _) :: rest) = _
    rw [ofNat_high_mul_add_ofNat_low]

theorem length_pairBytes (bytes : List UInt8) :
    (bytes.flatMap pairBytes).length = 2 * bytes.length := by
  induction bytes with
  | nil => rfl
  | cons byte rest ih =>
    rw [List.flatMap_cons, List.length_append, ih, List.length_cons]
    show 2 + _ = _
    omega

/-- What has been written in digits is read back. -/
theorem decode_encode (bytes : List UInt8) :
    decode bytes.length (encode bytes).toUTF8.toList = .ok bytes := by
  rw [toUTF8_encode, decode, length_pairBytes, if_neg (by omega), if_neg (by simp),
    decodePairs_pairBytes]

/-! ## Digits in either case -/

/-- The bytes of the digits, in either case. -/
def digitBytes : List UInt8 := "0123456789abcdefABCDEF".toList.map fun c => .ofNat c.toNat

def IsDigit (byte : UInt8) : Prop := byte ∈ digitBytes

instance : DecidablePred IsDigit := fun byte => inferInstanceAs (Decidable (byte ∈ digitBytes))

/-- The byte of a capital letter in lower case; the others are as they are. -/
def lower (byte : UInt8) : UInt8 := if 0x41 ≤ byte ∧ byte ≤ 0x5a then byte + 0x20 else byte

/-- What can be checked of 256 numbers holds of every byte. -/
theorem forall_byte {p : UInt8 → Prop} (h : ∀ n < 256, p (.ofNat n)) (byte : UInt8) : p byte := by
  have := h byte.toNat byte.toNat_lt
  rwa [UInt8.ofNat_toNat] at this

/-- A byte has a value exactly if it is a digit, and the digit of that value is the byte in lower
case. -/
theorem value?_cases : ∀ byte : UInt8,
    (IsDigit byte ∧ ∃ n < 16, value? byte = some (.ofNat n) ∧ digitByte n = lower byte) ∨
      (¬IsDigit byte ∧ value? byte = none) :=
  forall_byte (by decide +kernel)

theorem isDigit_lower : ∀ byte : UInt8, IsDigit (lower byte) ↔ IsDigit byte :=
  forall_byte (by decide +kernel)

theorem IsDigit.lt {byte : UInt8} (h : IsDigit byte) : byte < 0x80 := by
  have all : ∀ byte ∈ digitBytes, byte < 0x80 := by decide +kernel
  exact all byte h

theorem isDigit_digitByte {n : Nat} (h : n < 16) : IsDigit (digitByte n) := by
  interval_cases n <;> decide

theorem isDigit_of_mem_pairBytes {bytes : List UInt8} {byte : UInt8}
    (mem : byte ∈ bytes.flatMap pairBytes) : IsDigit byte := by
  obtain ⟨source, -, mem⟩ := List.mem_flatMap.mp mem
  rcases List.mem_cons.mp mem with rfl | mem
  · exact isDigit_digitByte (high_lt source)
  · rw [List.mem_singleton.mp mem]
    exact isDigit_digitByte (low_lt source)

/-! ## What a text comes to -/

/-- The first byte that is no digit, and its place. -/
structure IsFirstFlaw (text : List UInt8) (byte : UInt8) (index : Nat) : Prop where
  getElem? : text[index]? = some byte
  flaw : ¬IsDigit byte
  digits : ∀ earlier ∈ text.take index, IsDigit earlier

/-- What reading `size` bytes from a text comes to. -/
inductive Decodes (size : Nat) (text : List UInt8) : Except Error (List UInt8) → Prop
  | ok {bytes : List UInt8} (length : text.length = 2 * size)
      (digits : ∀ byte ∈ text, IsDigit byte) (same : bytes.flatMap pairBytes = text.map lower) :
      Decodes size text (.ok bytes)
  | oddLength (odd : text.length % 2 = 1) : Decodes size text (.error .oddLength)
  | wrongLength (even : text.length % 2 = 0) (other : text.length ≠ 2 * size) :
      Decodes size text (.error .wrongLength)
  | notDigit {byte : UInt8} {index : Nat} (length : text.length = 2 * size)
      (first : IsFirstFlaw text byte index) : Decodes size text (.error (.notDigit byte index))

theorem IsFirstFlaw.not_forall {text : List UInt8} {byte : UInt8} {index : Nat}
    (h : IsFirstFlaw text byte index) : ¬∀ byte ∈ text, IsDigit byte := fun digits =>
  h.flaw (digits byte (List.mem_of_getElem? h.getElem?))

/-- There is no flaw in front of the first one. -/
theorem IsFirstFlaw.le {text : List UInt8} {byte byte' : UInt8} {index index' : Nat}
    (h : IsFirstFlaw text byte index) (h' : IsFirstFlaw text byte' index') : index ≤ index' := by
  by_contra lt
  have mem : byte' ∈ text.take index :=
    List.mem_of_getElem? ((List.getElem?_take_of_lt (Nat.lt_of_not_le lt)).trans h'.getElem?)
  exact h'.flaw (h.digits byte' mem)

/-- Behind digits the first flaw is that of the rest. -/
theorem IsFirstFlaw.cons {text : List UInt8} {byte first : UInt8} {index : Nat}
    (digit : IsDigit first) (h : IsFirstFlaw text byte index) :
    IsFirstFlaw (first :: text) byte (index + 1) where
  getElem? := h.getElem?
  flaw := h.flaw
  digits := by
    rw [List.take_succ_cons]
    exact List.forall_mem_cons.mpr ⟨digit, h.digits⟩

theorem IsFirstFlaw.head {text : List UInt8} {byte : UInt8} (flaw : ¬IsDigit byte) :
    IsFirstFlaw (byte :: text) byte 0 where
  getElem? := rfl
  flaw := flaw
  digits _ mem := nomatch mem

theorem pairBytes_injective {bytes bytes' : List UInt8}
    (same : bytes.flatMap pairBytes = bytes'.flatMap pairBytes) : bytes = bytes' := by
  have h := decodePairs_pairBytes bytes 0
  rw [same, decodePairs_pairBytes] at h
  exact (Except.ok.inj h).symm

/-- A text comes to one thing. -/
theorem Decodes.unique {size : Nat} {text : List UInt8} {result result' : Except Error (List UInt8)}
    (h : Decodes size text result) (h' : Decodes size text result') : result = result' := by
  cases h with
  | ok length digits same =>
    cases h' with
    | ok _ _ same' => exact congrArg Except.ok (pairBytes_injective (same.trans same'.symm))
    | oddLength odd => omega
    | wrongLength _ other => exact absurd length other
    | notDigit _ first => exact absurd digits first.not_forall
  | oddLength odd =>
    cases h' with
    | oddLength => rfl
    | ok length | wrongLength even | notDigit length => omega
  | wrongLength even other =>
    cases h' with
    | wrongLength => rfl
    | ok length | notDigit length => exact absurd length other
    | oddLength odd => omega
  | notDigit length first =>
    cases h' with
    | ok _ digits => exact absurd digits first.not_forall
    | oddLength odd => omega
    | wrongLength _ other => exact absurd length other
    | notDigit _ first' =>
      cases Nat.le_antisymm (first.le first') (first'.le first)
      cases Option.some.inj (first.getElem?.symm.trans first'.getElem?)
      rfl

theorem digitAt_cases (byte : UInt8) (index : Nat) :
    (IsDigit byte ∧ ∃ n < 16, digitAt byte index = .ok (.ofNat n) ∧ digitByte n = lower byte) ∨
      (¬IsDigit byte ∧ digitAt byte index = .error (.notDigit byte index)) := by
  rcases value?_cases byte with ⟨digit, n, lt, value, same⟩ | ⟨flaw, value⟩
  · exact .inl ⟨digit, n, lt, by rw [digitAt, value], same⟩
  · exact .inr ⟨flaw, by rw [digitAt, value]⟩

/-- The digits of the byte that two digits are put together to. -/
theorem pairBytes_of_lt {high low : Nat} (hhigh : high < 16) (hlow : low < 16) :
    pairBytes (UInt8.ofNat high * 16 + .ofNat low) = [digitByte high, digitByte low] := by
  have value : (UInt8.ofNat high * 16 + .ofNat low).toNat = 16 * high + low := by
    simp only [UInt8.toNat_add, UInt8.toNat_mul, UInt8.toNat_ofNat', UInt8.reduceToNat]
    omega
  rw [pairBytes, value, show (16 * high + low) / 16 = high by omega,
    show (16 * high + low) % 16 = low by omega]

/-- Pairs of digits are read up to the first byte that is none. -/
theorem decodePairs_cases (index : Nat) (text : List UInt8) (even : text.length % 2 = 0) :
    ((∀ byte ∈ text, IsDigit byte) ∧ ∃ bytes, decodePairs index text = .ok bytes ∧
      bytes.flatMap pairBytes = text.map lower) ∨
    ∃ byte place, IsFirstFlaw text byte place ∧
      decodePairs index text = .error (.notDigit byte (index + place)) := by
  induction index, text using decodePairs.induct with
  | case1 index high low rest ih =>
    simp only [decodePairs]
    rcases digitAt_cases high index with ⟨hhigh, n, ltn, readn, samen⟩ | ⟨flaw, unread⟩
    · rcases digitAt_cases low (index + 1) with ⟨hlow, m, ltm, readm, samem⟩ | ⟨flaw, unread⟩
      · rcases ih (by rw [List.length_cons, List.length_cons] at even; omega) with
          ⟨digits, bytes, read, same⟩ | ⟨byte, place, first, unread⟩
        · refine .inl ⟨by simp [hhigh, hlow]; exact digits, _, by rw [readn, readm, read]; rfl, ?_⟩
          rw [List.flatMap_cons, pairBytes_of_lt ltn ltm, samen, samem, same]
          rfl
        · refine .inr ⟨byte, place + 2, (first.cons hlow).cons hhigh, ?_⟩
          rw [readn, readm, unread, show index + (place + 2) = index + 2 + place by omega]
          rfl
      · refine .inr ⟨low, 1, (IsFirstFlaw.head flaw).cons hhigh, ?_⟩
        rw [readn, unread]
        rfl
    · refine .inr ⟨high, 0, .head flaw, ?_⟩
      rw [unread]
      rfl
  | case2 text index odd =>
    rcases text with _ | ⟨high, _ | ⟨low, rest⟩⟩
    · exact .inl ⟨List.forall_mem_nil _, [], rfl, rfl⟩
    · exact absurd even (by simp)
    · exact absurd rfl (odd high low rest)

theorem decode_decodes (size : Nat) (text : List UInt8) : Decodes size text (decode size text) := by
  unfold decode
  split
  case isTrue odd => exact .oddLength (by omega)
  case isFalse even =>
    split
    case isTrue other => exact .wrongLength (by omega) other
    case isFalse length =>
      rcases decodePairs_cases 0 text (by omega) with
        ⟨digits, bytes, read, same⟩ | ⟨byte, place, first, unread⟩
      · rw [read]
        exact .ok (by omega) digits same
      · rw [unread, Nat.zero_add]
        exact .notDigit (by omega) first

/-- The rules of `Decodes` are all there is to the reading. -/
theorem decode_eq_iff {size : Nat} {text : List UInt8} {result : Except Error (List UInt8)} :
    decode size text = result ↔ Decodes size text result :=
  ⟨fun h => h ▸ decode_decodes size text, fun h => (decode_decodes size text).unique h⟩

end Hex

namespace Preimage

variable {text : String} {preimage : Preimage}

/-- A preimage is read from the digits of its bytes. -/
theorem decode_eq (text : String) : Hex.decode 32 text.toUTF8.toList =
    (ofHex text).map fun preimage => preimage.bytes.toList := by
  unfold ofHex
  split
  case h_1 error h => exact h
  case h_2 bytes h => exact h

theorem ofHex_eq_ok_iff :
    ofHex text = .ok preimage ↔ Hex.decode 32 text.toUTF8.toList = .ok preimage.bytes.toList := by
  rw [decode_eq]
  cases ofHex text with
  | error error => exact ⟨nofun, nofun⟩
  | ok read =>
    refine ⟨fun same => congrArg (Except.map _) same, fun same => ?_⟩
    obtain ⟨bytes⟩ := read
    exact congrArg (Except.ok ∘ Preimage.mk) (Vector.toList_inj.mp (Except.ok.inj same))

theorem ofHex_eq_error_iff {error : Hex.Error} :
    ofHex text = .error error ↔ Hex.decode 32 text.toUTF8.toList = .error error := by
  rw [decode_eq]
  cases ofHex text with
  | error other =>
    exact ⟨fun same => congrArg (Except.map _) same, fun same => congrArg _ (Except.error.inj same)⟩
  | ok read => exact ⟨nofun, nofun⟩

theorem ofHex_toHex (preimage : Preimage) : ofHex preimage.toHex = .ok preimage := by
  have h := Hex.decode_encode preimage.bytes.toList
  rw [Vector.length_toList] at h
  exact ofHex_eq_ok_iff.mpr h

end Preimage

end Rebalancing
