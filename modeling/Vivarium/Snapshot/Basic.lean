import Vivarium.World.Basic

/-!
# Snapshots

A snapshot is the whole state of a world as plain data. `World.snapshot` takes one; what a snapshot
from elsewhere must satisfy to be a world's is the subject of `Snapshot.defect?`.
-/

namespace Vivarium

/-- The state of a world, field by field, with the soup as two tables. -/
structure Snapshot where
  version : UInt32
  words : List Word
  owners : List (Option Hue)
  population : List Organism
  cycles : UInt64
  mutations : UInt64
  rate : Binary64
  maxAge : UInt64
  cap : UInt64
  history : List UInt32
  historyCapacity : UInt64
  stream : Stream
  lineage : Stream
deriving DecidableEq

namespace Snapshot

/-- The version of the format. -/
def currentVersion : UInt32 := 1

/-- Equality with the rates compared as numbers. -/
def equal (s t : Snapshot) : Bool := s.rate.equal t.rate && { s with rate := t.rate } == t

end Snapshot

/-- The state of a world. -/
def World.snapshot (w : World) : Snapshot where
  version := Snapshot.currentVersion
  words := w.memory.words
  owners := w.memory.owners
  population := w.population.toList
  cycles := w.cycles
  mutations := w.habitat.mutations
  rate := w.settings.rate
  maxAge := w.settings.maxAge
  cap := w.cap
  history := w.history
  historyCapacity := w.historyCapacity
  stream := w.habitat.stream
  lineage := w.lineage

end Vivarium
