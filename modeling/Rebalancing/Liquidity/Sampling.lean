import Rebalancing.Saturating

/-! # Uniform draws from a supply of random words

A draw from an interval multiplies a word by the size of the interval: the upper half of the product
is the offset, and the lower half decides whether the word is taken. Words that would make some
offsets likelier than others are passed over. -/

namespace Rebalancing

/-- Random words to come, and how many have been taken. When they run out every word is zero. -/
structure WordSupply where
  pending : List UInt64 := []
  taken : Nat := 0
deriving DecidableEq

namespace WordSupply

def next (supply : WordSupply) : UInt64 × WordSupply :=
  (supply.pending.headD 0, ⟨supply.pending.tail, supply.taken + 1⟩)

/-- The greatest lower half that is taken for an interval of `size` values. -/
def zone (size : Nat) : Nat := size <<< (63 - size.log2) - 1

/-- An offset below `size`, from the first word that is taken. -/
def offset (size : Nat) : List UInt64 → Nat → Nat × WordSupply
  | [], taken => (0, ⟨[], taken + 1⟩)
  | word :: rest, taken =>
    let product := word.toNat * size
    if product % 0x10000000000000000 ≤ zone size then (product / 0x10000000000000000, ⟨rest, taken + 1⟩)
    else offset size rest (taken + 1)

/-- A value of the interval from `low` to `high`. -/
def between (low high : UInt64) (supply : WordSupply) : UInt64 × WordSupply :=
  let size := high - low + 1
  if size = 0 then supply.next
  else
    let (offset, supply) := offset size.toNat supply.pending supply.taken
    (low + .ofNat offset, supply)

end WordSupply

end Rebalancing
