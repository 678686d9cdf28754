import Rebalancing.Storage.Disk
import Rebalancing.Wire.Codec

/-! # The graph file

The snapshot of a graph, kept as JSON in one file. It is written beside the file and then moved into
its place, so that the file never holds half of a snapshot. -/

namespace Rebalancing

namespace GraphFile

/-- Where a snapshot is written before it takes the place of the file. -/
def staging (location : Location) : Location :=
  location.dropLast ++ (location.getLast?.map (Path.withExtension · "json.tmp")).toList

/-- The snapshot in the graph file. A file that is missing or cannot be read is as good as none. -/
def load (disk : Disk) (location : Location) : Option Snapshot :=
  (disk.read? location).bind Wire.decode?

def saveSteps (location : Location) (snapshot : Snapshot) : List FileStep := [
  .createDirectories location.dropLast,
  .write (staging location) (Wire.encode snapshot),
  .rename (staging location) location]

/-- Saves a snapshot, and tells whether it is saved. -/
def save (disk : Disk) (location : Location) (snapshot : Snapshot) : Disk × Bool :=
  disk.performAll (saveSteps location snapshot)

end GraphFile

end Rebalancing
