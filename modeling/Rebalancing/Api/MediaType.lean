/-! # Media types

The value of a content type header: a type and a subtype, and after them parameters that do not matter
here but have to be well formed. -/

namespace Rebalancing

/-- A media type. The suffix of a subtype follows its last plus sign. -/
structure MediaType where
  type : String
  subtype : String
  suffix : Option String := none
deriving DecidableEq

namespace MediaType

/-- Characters of names. -/
def isTokenChar (c : Char) : Bool := c.isAlphanum || "!#$%&'*+-.^_`|~".toList.contains c

/-- Characters that may stand between quotes. -/
def isQuotable (c : Char) : Bool := 31 < c.toNat && c.toNat < 127

/-- Where a reader of parameters is. `fresh` tells that nothing of the part under way has been read. -/
inductive Place where
  | name (fresh : Bool)
  | value (fresh : Bool)
  | quoted (fresh : Bool)
  | afterQuoted

/-- Whether parameters are well formed from some place on. -/
def parametersOk : Place → List Char → Bool
  | .name fresh, [] => fresh
  | .value _, [] => true
  | .quoted _, [] => false
  | .afterQuoted, [] => true
  | .name fresh, c :: rest =>
    if c = ' ' then fresh && parametersOk (.name true) rest
    else if c = '=' then !fresh && parametersOk (.value true) rest
    else isTokenChar c && parametersOk (.name false) rest
  | .value fresh, c :: rest =>
    if c = '"' then fresh && parametersOk (.quoted true) rest
    else if c = ';' then !fresh && parametersOk (.name true) rest
    else isTokenChar c && parametersOk (.value false) rest
  | .quoted fresh, c :: rest =>
    if c = '"' ∧ !fresh then parametersOk .afterQuoted rest
    else isQuotable c && parametersOk (.quoted false) rest
  | .afterQuoted, c :: rest =>
    if c = ';' then parametersOk (.name true) rest else c = ' ' && parametersOk .afterQuoted rest

/-- A name in lower case, letters outside ASCII apart. -/
def lower (name : List Char) : String := String.ofList (name.map Char.toLower)

/-- What stands before and after the last plus sign, unless the sign comes first. -/
def splitSuffix (name : List Char) : List Char × Option (List Char) :=
  let suffix := (name.reverse.takeWhile (· ≠ '+')).reverse
  let before := name.take (name.length - suffix.length - 1)
  if before = [] ∨ suffix.length = name.length then (name, none) else (before, some suffix)

def ofChars? (text : List Char) : Option MediaType :=
  let type := text.takeWhile isTokenChar
  match text.dropWhile isTokenChar with
  | '/' :: rest =>
    let subtype := rest.takeWhile isTokenChar
    let well := match rest.dropWhile isTokenChar with
      | [] => true
      | c :: parameters => subtype ≠ [] && (c = ';' || c = ' ') && parametersOk (.name true) parameters
    if type ≠ [] && well then
      let (name, suffix) := splitSuffix subtype
      some { type := lower type, subtype := lower name, suffix := suffix.map lower }
    else none
  | _ => none

/-- Whether content of this type is JSON. -/
def isJson (type : MediaType) : Bool :=
  type.type = "application" && (type.subtype = "json" || type.suffix = some "json")

end MediaType

end Rebalancing
