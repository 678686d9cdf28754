import Rebalancing.Json.Token

/-! # JSON values -/

namespace Rebalancing

/-- A JSON value. The members of an object are in the order of the text, repeated names included. A
leaf whose value does not exist, such as a string with an unpaired surrogate, can be skipped but not
read; so can an object with such a member name. -/
inductive Json where
  | null
  | bool (value : Bool)
  | number (value : Json.Number)
  | string (text : String)
  | array (items : List Json)
  | object (members : List (String × Json))
  | unreadable

namespace Json

instance : Inhabited Json := ⟨.null⟩

/-- A natural number as a JSON value. -/
def nat (n : Nat) : Json := .number (.integer n)

/-- Members with the value that the last member of their name has, at the place of the first. -/
def lastWins (members : List (String × Json)) : List (String × Json) :=
  members.foldl (fun kept (name, value) =>
    if kept.any (·.1 = name) then kept.map fun m => if m.1 = name then (name, value) else m
    else kept ++ [(name, value)]) []

mutual

/-- The value in which every object has each member name once. -/
def distinct : Json → Json
  | .array items => .array (distinctItems items)
  | .object members => .object (lastWins (distinctMembers members))
  | leaf => leaf

def distinctItems : List Json → List Json
  | [] => []
  | item :: rest => item.distinct :: distinctItems rest

def distinctMembers : List (String × Json) → List (String × Json)
  | [] => []
  | (name, value) :: rest => (name, value.distinct) :: distinctMembers rest

end

end Json

end Rebalancing
