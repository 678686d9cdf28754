import Rebalancing.Json.Tree

/-! # Decoding JSON values

Decoders turn a value into something of the domain, or refuse it. A record is given as an object, in
which a known member may not be repeated and others do not matter, or as an array of its fields in
order, where fields at the end may be left out. -/

namespace Rebalancing.Json

def text? : Json → Option String
  | .string text => some text
  | _ => none

def bool? : Json → Option Bool
  | .bool value => some value
  | _ => none

def integer? : Json → Option Int
  | .number (.integer n) => some n
  | _ => none

/-- A natural number up to a limit. -/
def nat? (limit : Nat) (json : Json) : Option Nat :=
  json.integer?.bind fun n => if 0 ≤ n ∧ n ≤ limit then some n.toNat else none

def uint8? (json : Json) : Option UInt8 := (json.nat? 0xff).map .ofNat

def uint16? (json : Json) : Option UInt16 := (json.nat? 0xffff).map .ofNat

def uint32? (json : Json) : Option UInt32 := (json.nat? 0xffffffff).map .ofNat

def uint64? (json : Json) : Option UInt64 := (json.nat? 0xffffffffffffffff).map .ofNat

/-- A list whose items all decode. -/
def list? {α : Type} (decode : Json → Option α) : Json → Option (List α)
  | .array items => items.mapM decode
  | _ => none

/-- A value that may be null. -/
def nullable? {α : Type} (decode : Json → Option α) : Json → Option (Option α)
  | .null => some none
  | json => (decode json).map some

/-- The fields of a record that are given. -/
structure Fields where
  given : List (String × Json)

/-- The fields of a record, of which `names` are known. -/
def fields? (names : List String) : Json → Option Fields
  | .object members =>
    let known := members.filter fun (name, _) => names.contains name
    if (known.map (·.1)).Nodup then some ⟨known⟩ else none
  | .array items => if items.length ≤ names.length then some ⟨names.zip items⟩ else none
  | _ => none

namespace Fields

def get? (fields : Fields) (name : String) : Option Json :=
  (fields.given.find? (·.1 = name)).map (·.2)

/-- A field that has to be given. -/
def need {α : Type} (fields : Fields) (name : String) (decode : Json → Option α) : Option α :=
  (fields.get? name).bind decode

/-- A field that has a default. The default does not stand for null. -/
def orDefault {α : Type} (fields : Fields) (name : String) (default : α) (decode : Json → Option α) :
    Option α :=
  match fields.get? name with
  | none => some default
  | some json => decode json

/-- A field that may be left out or null. -/
def optional {α : Type} (fields : Fields) (name : String) (decode : Json → Option α) :
    Option (Option α) :=
  fields.orDefault name none (nullable? decode)

end Fields

end Rebalancing.Json
