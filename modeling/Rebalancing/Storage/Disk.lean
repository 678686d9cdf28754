import Std.Data.ExtTreeMap
import Rebalancing.Text.Path

/-! # Disks

The files and directories that a program finds and leaves. Every change is one step, which is refused
as a whole where a real disk would refuse it: nothing is written into a directory that does not
exist, nor in the place of a directory. -/

namespace Rebalancing

open Std

inductive Entry where
  | file (content : List UInt8)
  | directory
deriving DecidableEq

structure Disk where
  /-- What is at each location. The root and the working directory are always there. -/
  entries : ExtTreeMap Location Entry := ∅
  /-- Whether anything can be changed. -/
  writable : Bool := true

/-- A change to a disk. -/
inductive FileStep where
  /-- A directory comes to be, with all those around it. -/
  | createDirectories (location : Location)
  | write (location : Location) (content : List UInt8)
  /-- A file moves to a place where there is no directory. -/
  | rename (source target : Location)
deriving DecidableEq

namespace Disk

def entry? (disk : Disk) (location : Location) : Option Entry :=
  if location = [] ∨ location = ["/"] then some .directory else disk.entries[location]?

def isDirectory (disk : Disk) (location : Location) : Bool := disk.entry? location = some .directory

/-- The content of the file at a location. -/
def read? (disk : Disk) (location : Location) : Option (List UInt8) :=
  match disk.entry? location with
  | some (.file content) => some content
  | _ => none

def contains (disk : Disk) (location : Location) : Bool := (disk.entry? location).isSome

/-- Whether a file can stand at a location. -/
def admitsFile (disk : Disk) (location : Location) : Bool :=
  disk.writable && disk.isDirectory location.dropLast && !disk.isDirectory location

def put (disk : Disk) (location : Location) (entry : Entry) : Disk :=
  { disk with entries := disk.entries.insert location entry }

/-- Makes the directories that lead from an existing one along the given names. -/
def makeDirectories (disk : Disk) (base : Location) : List String → Option Disk
  | [] => some disk
  | name :: rest =>
    let location := base ++ [name]
    match disk.entry? location with
    | some (.file _) => none
    | some .directory => disk.makeDirectories location rest
    | none =>
      if disk.writable then (disk.put location .directory).makeDirectories location rest else none

/-- The disk after a step that is not refused. -/
def perform (disk : Disk) : FileStep → Option Disk
  | .createDirectories location => disk.makeDirectories [] location
  | .write location content =>
    if disk.admitsFile location then some (disk.put location (.file content)) else none
  | .rename source target =>
    match disk.read? source with
    | some content =>
      if disk.admitsFile target then
        some ({ disk with entries := disk.entries.erase source }.put target (.file content))
      else none
    | none => none

/-- Performs steps up to the first that is refused, and tells whether none was. -/
def performAll (disk : Disk) : List FileStep → Disk × Bool
  | [] => (disk, true)
  | step :: rest =>
    match disk.perform step with
    | some disk => disk.performAll rest
    | none => (disk, false)

/-- The disk without a location and all that is in it. -/
def remove (disk : Disk) (location : Location) : Disk :=
  { disk with entries := disk.entries.filter fun place _ => !location.isPrefixOf place }

end Disk

end Rebalancing
