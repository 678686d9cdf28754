import Rebalancing.Storage.Disk

/-! # Access to files

What a program may do with files, whether they are on a disk that is a value or on a real one. -/

namespace Rebalancing

structure Files (m : Type → Type) where
  /-- Whether there is anything at a location. -/
  contains : Location → m Bool
  /-- The content of the file at a location. -/
  read? : Location → m (Option (List UInt8))
  /-- Performs a step, and tells whether it was not refused. -/
  perform : FileStep → m Bool

namespace Files

/-- Performs steps up to the first that is refused, and tells whether none was. -/
def performAll {m : Type → Type} [Monad m] (files : Files m) : List FileStep → m Bool
  | [] => return true
  | step :: rest => do if ← files.perform step then files.performAll rest else return false

/-- The steps that write a file, with the directories around it. -/
def writing (location : Location) (content : List UInt8) : List FileStep :=
  [.createDirectories location.dropLast, .write location content]

end Files

/-- Access to a disk that is a value. -/
def Disk.files : Files (StateM Disk) where
  contains location := return (← get).contains location
  read? location := return (← get).read? location
  perform step := do
    match (← get).perform step with
    | some disk => set disk; return true
    | none => return false

end Rebalancing
