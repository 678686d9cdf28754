import Rebalancing.Payment.Hex
import Rebalancing.Payment.Sha256

/-! # Preimages and payment secrets

A payment is locked to the SHA-256 hash of a secret of 32 bytes, and revealing the secret proves that
it was settled. -/

namespace Rebalancing

structure Preimage where
  bytes : Vector UInt8 32
deriving DecidableEq

namespace Preimage

def toHex (preimage : Preimage) : String := Hex.encode preimage.bytes.toList

def ofHex (text : String) : Except Hex.Error Preimage :=
  match h : Hex.decode 32 text.toUTF8.toList with
  | .error e => .error e
  | .ok bytes => .ok ⟨⟨bytes.toArray, by
      unfold Hex.decode at h
      split at h
      · simp at h
      · split at h
        · simp at h
        next hl =>
          have := Hex.length_decodePairs h
          simp only [List.size_toArray]
          omega⟩⟩

/-- The hash that a payment is locked to. -/
def hash (preimage : Preimage) : Vector UInt8 32 := Sha256.digest preimage.bytes.toList

/-- What is shown in place of a secret. -/
def redacted (_ : Preimage) : String := "Preimage(..)"

/-- The low bytes of the first 32 words. -/
def ofWords (words : List UInt64) : Preimage := ⟨.ofFn fun i => (words.getD i 0).toUInt8⟩

end Preimage

/-- A preimage with its hash. -/
structure PaymentSecret where
  preimage : Preimage
  hash : Vector UInt8 32
deriving DecidableEq

namespace PaymentSecret

def ofPreimage (preimage : Preimage) : PaymentSecret := ⟨preimage, preimage.hash⟩

def hashHex (secret : PaymentSecret) : String := Hex.encode secret.hash.toList

/-- Whether `preimage` unlocks the payment. -/
def unlockedBy (secret : PaymentSecret) (preimage : Preimage) : Bool := preimage.hash = secret.hash

end PaymentSecret

end Rebalancing
