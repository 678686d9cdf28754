import Std.Data.ExtTreeMap
import Rebalancing.Text.Decimal
import Rebalancing.Text.Split

/-! # Names of nodes and channels

A node is named by an opaque text whose order decides the direction of a channel. A channel is named
by a short channel id; together with a direction it names one forwarding direction, written
`scid/direction`. -/

namespace Rebalancing

open Std

structure NodeId where
  text : String
deriving DecidableEq, Inhabited

namespace NodeId

instance : Ord NodeId := ⟨compareOn text⟩
instance : TransOrd NodeId := inferInstanceAs (TransCmp (compareOn text))
instance : LawfulEqOrd NodeId where
  eq_of_compare {a b} h := by
    cases a; cases b
    exact congrArg NodeId.mk (LawfulEqOrd.eq_of_compare (α := String) h)

def isEmpty (node : NodeId) : Bool := node.text == ""

end NodeId

/-- Why a text names no channel. -/
inductive IdError where
  | shortChannelId (text : String)
  | direction (value : UInt8)
  | channelId (text : String)
deriving DecidableEq

def IdError.message : IdError → String
  | .shortChannelId text => "invalid short channel id: " ++ text
  | .direction value => "invalid channel direction: " ++ Decimal.text value.toNat
  | .channelId text => "invalid channel id: " ++ text

/-- The form `BLOCKxTXxOUTPUT`: three 64-bit numerals between two separators. -/
def isShortChannelId (text : List Char) : Bool :=
  match Text.splitOn 'x' text with
  | [block, tx, output] =>
    [block, tx, output].all fun part => (Decimal.parse? 0xffffffffffffffff part).isSome
  | _ => false

/-- The name of a physical channel. The text is kept as it was given. -/
structure ShortChannelId where
  text : String
  wellFormed : isShortChannelId text.toList = true
deriving DecidableEq

namespace ShortChannelId

@[ext] theorem ext {a b : ShortChannelId} (h : a.text = b.text) : a = b := by
  cases a; cases b; cases h; rfl

instance : Ord ShortChannelId := ⟨compareOn text⟩
instance : TransOrd ShortChannelId := inferInstanceAs (TransCmp (compareOn text))
instance : LawfulEqOrd ShortChannelId where
  eq_of_compare h := ext (LawfulEqOrd.eq_of_compare (α := String) h)

def parse (text : String) : Except IdError ShortChannelId :=
  if h : isShortChannelId text.toList = true then .ok ⟨text, h⟩ else .error (.shortChannelId text)

@[simp] theorem parse_text (scid : ShortChannelId) : parse scid.text = .ok scid := by
  simp [parse, scid.wellFormed]

/-- The text of a channel funded by the given output. -/
def render (block tx : UInt32) (output : UInt16) : List Char :=
  Decimal.digits block.toNat ++ 'x' :: (Decimal.digits tx.toNat ++ 'x' :: Decimal.digits output.toNat)

private theorem separator_not_mem (n : Nat) : 'x' ∉ Decimal.digits n := fun h => by
  have := Decimal.isDigit_of_mem_digits h
  simp at this

theorem isShortChannelId_render (block tx : UInt32) (output : UInt16) :
    isShortChannelId (render block tx output) = true := by
  have hb := block.toNat_lt
  have ht := tx.toNat_lt
  have ho := output.toNat_lt
  have parsed (n : Nat) (h : n < 0x100000000) :
      Decimal.parse? 0xffffffffffffffff (Decimal.digits n) = some n := Decimal.parse?_digits (by omega)
  simp only [isShortChannelId, render, Text.splitOn_append (separator_not_mem _),
    Text.splitOn_of_not_mem (separator_not_mem _), List.all_cons, List.all_nil]
  rw [parsed _ hb, parsed _ ht, parsed _ (by omega)]
  rfl

/-- The id of the channel funded by an output of a transaction of a block. -/
def ofParts (block tx : UInt32) (output : UInt16) : ShortChannelId :=
  ⟨String.ofList (render block tx output), by simpa using isShortChannelId_render block tx output⟩

end ShortChannelId

/-- Direction zero is taken by the node whose id sorts first. -/
inductive Direction where
  | zero
  | one
deriving DecidableEq, Inhabited

namespace Direction

/-- The direction of a channel forwarding from `source` to `destination`. -/
def between (source destination : NodeId) : Direction :=
  if source.text < destination.text then .zero else .one

def opposite : Direction → Direction
  | .zero => .one
  | .one => .zero

def toNat : Direction → Nat
  | .zero => 0
  | .one => 1

def ofByte (value : UInt8) : Except IdError Direction :=
  if value = 0 then .ok .zero else if value = 1 then .ok .one else .error (.direction value)

def text (direction : Direction) : String := Decimal.text direction.toNat

@[simp] theorem opposite_opposite (d : Direction) : d.opposite.opposite = d := by cases d <;> rfl

theorem opposite_ne (d : Direction) : d.opposite ≠ d := by cases d <;> simp [opposite]

instance : Ord Direction := ⟨compareOn toNat⟩
instance : TransOrd Direction := inferInstanceAs (TransCmp (compareOn toNat))
instance : LawfulEqOrd Direction where
  eq_of_compare {a b} h := by
    have : a.toNat = b.toNat := LawfulEqOrd.eq_of_compare (α := Nat) h
    cases a <;> cases b <;> simp_all [toNat]

end Direction

/-- One forwarding direction of a physical channel. -/
structure ChannelId where
  scid : ShortChannelId
  direction : Direction
deriving DecidableEq

namespace ChannelId

instance : Ord ChannelId := ⟨compareLex (compareOn scid) (compareOn direction)⟩
instance : TransOrd ChannelId :=
  inferInstanceAs (TransCmp (compareLex (compareOn scid) (compareOn direction)))
instance : LawfulEqOrd ChannelId where
  eq_of_compare {a b} h := by
    have h : compareLex (compareOn scid) (compareOn direction) a b = .eq := h
    rw [compareLex_eq_eq] at h
    cases a; cases b
    exact congr (congrArg ChannelId.mk (LawfulEqOrd.eq_of_compare (α := ShortChannelId) h.1))
      (LawfulEqOrd.eq_of_compare (α := Direction) h.2)

/-- The same physical channel in the other forwarding direction. -/
def opposite (id : ChannelId) : ChannelId := { id with direction := id.direction.opposite }

def text (id : ChannelId) : String := id.scid.text ++ "/" ++ id.direction.text

/-- Reads `scid/direction`. A direction that is no 8-bit numeral makes the whole text no channel id;
otherwise the short channel id is checked before the direction's value. -/
def parse (text : String) : Except IdError ChannelId := do
  let (scid, direction) ← (Text.splitOnce '/' text.toList).elim (.error (.channelId text)) .ok
  let direction ← (Decimal.parse? 0xff direction).elim (.error (.channelId text)) .ok
  let scid ← ShortChannelId.parse (String.ofList scid)
  let direction ← Direction.ofByte (.ofNat direction)
  return ⟨scid, direction⟩

@[simp] theorem opposite_opposite (id : ChannelId) : id.opposite.opposite = id := by
  simp [opposite]

theorem opposite_ne (id : ChannelId) : id.opposite ≠ id := fun h =>
  id.direction.opposite_ne (congrArg direction h)

end ChannelId

end Rebalancing
