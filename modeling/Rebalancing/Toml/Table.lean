import Rebalancing.Toml.Value

/-! # Tables under construction

The lines of a document extend its tables in three ways: a name with dots goes through tables that it
may create, a header opens a table that was at most implied before, and a double header adds a table
to a list. No line may define again what another one has defined. -/

namespace Rebalancing.Toml

/-- How a table came about. -/
inductive Origin where
  /-- By its own header, or as the table of the document. -/
  | header
  /-- As a table around that of a header. -/
  | implied
  /-- As a table around a value with a dotted name. -/
  | dotted
deriving DecidableEq

/-- What a name stands for. -/
inductive Entry where
  | value (value : Toml)
  | table (origin : Origin) (entries : List (String × Entry))
  /-- The entries of each table of a list, last one first. -/
  | tables (children : List (Origin × List (String × Entry)))

abbrev Entries := List (String × Entry)

namespace Entries

def get? (entries : Entries) (name : String) : Option Entry :=
  (entries.find? (·.1 = name)).map (·.2)

/-- Puts an entry in the place of the one with its name, or at the end. -/
def put (entries : Entries) (name : String) (entry : Entry) : Entries :=
  if entries.any (·.1 = name) then
    entries.map fun (other, old) => if other = name then (name, entry) else (other, old)
  else entries ++ [(name, entry)]

def erase (entries : Entries) (name : String) : Entries := entries.filter (·.1 ≠ name)

end Entries

/-- Changes the table that `path` leads to, creating what is missing on the way with the given origin.
A table that a header has opened is closed to dotted names. -/
def updateAt (origin : Origin) (change : Origin × Entries → Option (Origin × Entries)) :
    List String → Origin × Entries → Option (Origin × Entries)
  | [], here => change here
  | name :: path, (own, entries) => do
    match entries.get? name with
    | none =>
      let (origin', inner) ← updateAt origin change path (origin, [])
      return (own, entries.put name (.table origin' inner))
    | some (.table inner contents) =>
      if origin = .dotted && inner = .header then none
      let (origin', inner) ← updateAt origin change path (inner, contents)
      return (own, entries.put name (.table origin' inner))
    | some (.tables (last :: before)) =>
      let last ← updateAt origin change path last
      return (own, entries.put name (.tables (last :: before)))
    | some (.tables []) | some (.value _) => none

/-- Adds a new name to a table. The table is the current one, or it was made for dotted names. -/
def addValue (through : Bool) (name : String) (value : Toml) :
    Origin × Entries → Option (Origin × Entries)
  | (origin, entries) =>
    if (through && origin ≠ .dotted) || (entries.get? name).isSome then none
    else some (origin, entries ++ [(name, .value value)])

/-- Adds the value of a name with dots. -/
def assign (path : List String) (name : String) (value : Toml) (here : Origin × Entries) :
    Option (Origin × Entries) :=
  updateAt .dotted (addValue (!path.isEmpty) name value) path here

mutual

/-- The value that an entry comes to. -/
def Entry.toToml : Entry → Toml
  | .value value => value
  | .table _ entries => .table (entriesToToml entries)
  | .tables children => .array (childrenToToml children).reverse

def entriesToToml : List (String × Entry) → List (String × Toml)
  | [] => []
  | (name, entry) :: rest => (name, entry.toToml) :: entriesToToml rest

def childrenToToml : List (Origin × List (String × Entry)) → List Toml
  | [] => []
  | (_, entries) :: rest => .table (entriesToToml entries) :: childrenToToml rest

end

/-- A document as far as it has been read: its tables without the current one, and the current one
with the name of its header. -/
structure Draft where
  root : Entries := []
  /-- The name of the current table; empty for that of the document. -/
  path : List String := []
  /-- Whether the current table is one of a list. -/
  listed : Bool := false
  current : Origin × Entries := (.header, [])

namespace Draft

/-- Puts the current table into its place. -/
def settle (draft : Draft) : Option Entries :=
  match draft.path.getLast? with
  | none => some draft.current.2
  | some name =>
    let place : Origin × Entries → Option (Origin × Entries)
      | (origin, entries) =>
        match entries.get? name, draft.listed with
        | none, true => some (origin, entries.put name (.tables [draft.current]))
        | some (.tables children), true =>
          some (origin, entries.put name (.tables (draft.current :: children)))
        | none, false => some (origin, entries.put name (.table draft.current.1 draft.current.2))
        | some (.table .implied _), false =>
          some (origin, entries.put name (.table draft.current.1 draft.current.2))
        | _, _ => none
    (updateAt .implied place draft.path.dropLast (.header, draft.root)).map (·.2)

/-- Opens the table of a header. A table that is there already has to be an implied one, and its
entries are kept. -/
def openTable (draft : Draft) (path : List String) : Option Draft := do
  let root ← draft.settle
  let name ← path.getLast?
  let known := (entriesAt path.dropLast root).bind (·.get? name)
  let take : Origin × Entries → Option (Origin × Entries)
    | (origin, entries) =>
      match entries.get? name with
      | none | some (.table .implied _) => some (origin, entries.erase name)
      | _ => none
  let (_, root) ← updateAt .implied take path.dropLast (.header, root)
  let contents := match known with
    | some (.table _ contents) => contents
    | _ => []
  return { root, path, listed := false, current := (.header, contents) }
where
  /-- The entries of the table that a path leads to. -/
  entriesAt : List String → Entries → Option Entries
    | [], entries => some entries
    | name :: path, entries =>
      match entries.get? name with
      | some (.table _ inner) => entriesAt path inner
      | some (.tables ((_, inner) :: _)) => entriesAt path inner
      | _ => none

/-- Opens a further table of a list. -/
def openListed (draft : Draft) (path : List String) : Option Draft := do
  let root ← draft.settle
  let name ← path.getLast?
  let look : Origin × Entries → Option (Origin × Entries)
    | (origin, entries) =>
      match entries.get? name with
      | none | some (.tables _) => some (origin, entries)
      | _ => none
  let (_, root) ← updateAt .implied look path.dropLast (.header, root)
  return { root, path, listed := true, current := (.header, []) }

/-- Adds the value of a name with dots to the current table. -/
def assign (draft : Draft) (path : List String) (name : String) (value : Toml) : Option Draft :=
  (Toml.assign path name value draft.current).map fun current => { draft with current }

def finish (draft : Draft) : Option (List (String × Toml)) := draft.settle.map entriesToToml

end Draft

end Rebalancing.Toml
