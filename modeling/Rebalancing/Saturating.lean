/-! # Saturating arithmetic on machine words

Every sum, difference and product is the word nearest to the exact result. The `toNat` lemmas turn
each operation into a `min` over natural numbers. -/

namespace UInt64

/-- The word nearest to `n`. -/
def clamp (n : Nat) : UInt64 := .ofNat (min n 0xffffffffffffffff)

@[simp] theorem toNat_clamp (n : Nat) : (clamp n).toNat = min n 0xffffffffffffffff := by
  simp only [clamp, toNat_ofNat']
  omega

def satAdd (a b : UInt64) : UInt64 := clamp (a.toNat + b.toNat)

def satSub (a b : UInt64) : UInt64 := clamp (a.toNat - b.toNat)

def satMul (a b : UInt64) : UInt64 := clamp (a.toNat * b.toNat)

theorem toNat_satAdd (a b : UInt64) : (a.satAdd b).toNat = min (a.toNat + b.toNat) 0xffffffffffffffff :=
  toNat_clamp _

theorem toNat_satSub (a b : UInt64) : (a.satSub b).toNat = a.toNat - b.toNat := by
  have := a.toNat_lt
  simp only [satSub, toNat_clamp]
  omega

theorem toNat_satMul (a b : UInt64) : (a.satMul b).toNat = min (a.toNat * b.toNat) 0xffffffffffffffff :=
  toNat_clamp _

/-- No word is above the greatest one. -/
theorem le_greatest (a : UInt64) : a ≤ 0xffffffffffffffff := by
  have := a.toNat_lt
  rw [le_iff_toNat_le]
  exact Nat.le_of_lt_succ this

theorem le_satAdd (a b : UInt64) : a ≤ a.satAdd b := by
  have := a.toNat_lt
  rw [le_iff_toNat_le, toNat_satAdd]
  omega

theorem satAdd_le_satAdd {a b c d : UInt64} (h : a ≤ b) (h' : c ≤ d) : a.satAdd c ≤ b.satAdd d := by
  rw [le_iff_toNat_le] at *
  rw [toNat_satAdd, toNat_satAdd]
  omega

@[simp] theorem satAdd_zero (a : UInt64) : a.satAdd 0 = a := by
  have := a.toNat_lt
  apply UInt64.toNat_inj.mp
  rw [toNat_satAdd, UInt64.toNat_zero]
  omega

theorem satAdd_assoc (a b c : UInt64) : (a.satAdd b).satAdd c = a.satAdd (b.satAdd c) := by
  apply UInt64.toNat_inj.mp
  simp only [toNat_satAdd]
  omega

end UInt64

namespace UInt32

def satAdd (a b : UInt32) : UInt32 := .ofNat (min (a.toNat + b.toNat) 0xffffffff)

theorem toNat_satAdd (a b : UInt32) : (a.satAdd b).toNat = min (a.toNat + b.toNat) 0xffffffff := by
  simp only [satAdd, toNat_ofNat']
  omega

theorem le_satAdd (a b : UInt32) : a ≤ a.satAdd b := by
  have := a.toNat_lt
  rw [le_iff_toNat_le, toNat_satAdd]
  omega

end UInt32
