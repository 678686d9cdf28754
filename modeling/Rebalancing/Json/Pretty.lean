import Rebalancing.Json.Printer

/-! # JSON for people

A value over several lines, each item and member on a line of its own and two columns further in than
what holds it. -/

namespace Rebalancing.Json

mutual

/-- The value with the members of every object in the order of their names. -/
def sorted : Json → Json
  | .array items => .array (sortedItems items)
  | .object members => .object ((sortedMembers members).mergeSort fun a b => a.1 ≤ b.1)
  | leaf => leaf

def sortedItems : List Json → List Json
  | [] => []
  | item :: rest => item.sorted :: sortedItems rest

def sortedMembers : List (String × Json) → List (String × Json)
  | [] => []
  | (name, value) :: rest => (name, value.sorted) :: sortedMembers rest

end

/-- A new line at some depth. -/
def lineAt (depth : Nat) : List UInt8 := 0x0a :: List.replicate (2 * depth) 0x20

mutual

/-- The bytes of a value that stands at some depth. -/
def pretty (depth : Nat) : Json → List UInt8
  | .array [] => ascii "[]"
  | .array (item :: rest) =>
    0x5b :: (lineAt (depth + 1) ++ item.pretty (depth + 1) ++ prettyItems (depth + 1) rest
      ++ lineAt depth ++ [0x5d])
  | .object [] => ascii "\x7b\x7d"
  | .object ((name, value) :: rest) =>
    0x7b :: (lineAt (depth + 1) ++ printString name ++ ascii ": " ++ value.pretty (depth + 1)
      ++ prettyMembers (depth + 1) rest ++ lineAt depth ++ [0x7d])
  | leaf => leaf.print

/-- Items that follow others. -/
def prettyItems (depth : Nat) : List Json → List UInt8
  | [] => []
  | item :: rest => 0x2c :: (lineAt depth ++ item.pretty depth ++ prettyItems depth rest)

/-- Members that follow others. -/
def prettyMembers (depth : Nat) : List (String × Json) → List UInt8
  | [] => []
  | (name, value) :: rest =>
    0x2c :: (lineAt depth ++ printString name ++ ascii ": " ++ value.pretty depth
      ++ prettyMembers depth rest)

end

mutual

/-- Whether all leaves of a value can be read. -/
def isReadable : Json → Bool
  | .unreadable => false
  | .array items => itemsReadable items
  | .object members => membersReadable members
  | _ => true

def itemsReadable : List Json → Bool
  | [] => true
  | item :: rest => item.isReadable && itemsReadable rest

def membersReadable : List (String × Json) → Bool
  | [] => true
  | (_, value) :: rest => value.isReadable && membersReadable rest

end

end Rebalancing.Json
