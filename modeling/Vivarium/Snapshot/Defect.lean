import Vivarium.Binary64.Decimal
import Vivarium.Memory.Tables
import Vivarium.Snapshot.Basic

/-!
# Defects of snapshots

* `Snapshot.Defect` : what can be wrong with a snapshot, and `Defect.message` in words;
* `Snapshot.tests` : a test for each field; `Snapshot.defect?` : the first defect that they find;
* `World.ofSnapshot` : the world of a snapshot without defects;
* `World.replace` : that world in the place of another, or nothing changed.
-/

namespace Vivarium

namespace Snapshot

/-- What can be wrong with a snapshot. -/
inductive Defect
  | version (found : UInt32)
  | wordCount (found : Nat)
  | ownerCount (found : Nat)
  | ownerHue
  | rate (found : Binary64)
  | noHistory
  | historyLength (held : Nat) (capacity : UInt64)
  | pointer (index : Nat) (ip : UInt64)
  | hue (index : Nat)
  | population (alive : Nat) (cap : UInt64)
  | tables (defect : Memory.Defect)
deriving DecidableEq

def Defect.reason : Defect → String
  | version n => "version " ++ toString n.toNat
  | wordCount n => s!"memory has {n} cells, expected 4096"
  | ownerCount n => s!"ownership map has {n} entries, expected 4096"
  | ownerHue => "ownership marker out of range"
  | rate x => "mutation rate " ++ x.plain ++ " outside [0, 1]"
  | noHistory => "history capacity is zero"
  | historyLength held capacity => s!"history holds {held} samples, capacity is {capacity}"
  | pointer i ip => s!"process {i} has ip {ip} outside memory"
  | hue i => s!"process {i} has an invalid lineage marker"
  | population alive cap => s!"{alive} live processes exceed the cap of {cap}"
  | tables d => d.message

def Defect.message : Defect → String
  | version n => s!"Unsupported snapshot version: expected {currentVersion}, found {n}"
  | d => "Invalid snapshot: " ++ d.reason

/-! ## Tests -/

/-- A defect, if it is there. -/
def Defect.when (d : Defect) (found : Bool) : Option Defect := if found then some d else none

/-- What is wrong with the member of that number: its pointer, or else its hue. -/
def memberDefect? (o : Organism) (i : Nat) : Option Defect :=
  if Address.count ≤ o.ip.toNat then some (.pointer i o.ip)
  else (Defect.hue i).when (!decide o.hue.Valid)

def livingCount (s : Snapshot) : Nat := s.population.countP (·.alive)

/-- A test for each field, in the order in which defects are reported. -/
def tests (s : Snapshot) : List (Option Defect) :=
  [(Defect.version s.version).when (s.version != currentVersion),
    (Defect.wordCount s.words.length).when (s.words.length != Address.count),
    (Defect.ownerCount s.owners.length).when (s.owners.length != Address.count),
    Defect.ownerHue.when (s.owners.any fun o => !decide (Memory.ValidOwner o)),
    (Defect.rate s.rate).when !(Binary64.zero.le s.rate && s.rate.le .one),
    Defect.noHistory.when (s.historyCapacity == 0),
    (Defect.historyLength s.history.length s.historyCapacity).when
      (decide (s.historyCapacity.toNat < s.history.length)),
    s.population.zipIdx.findSome? fun (o, i) => memberDefect? o i,
    (Defect.population s.livingCount s.cap).when (decide (s.cap.toNat < s.livingCount))]

/-- The first defect that a test finds. -/
def defect? (s : Snapshot) : Option Defect := s.tests.findSome? id

end Snapshot

/-! ## Worlds of snapshots -/

/-- The world of a snapshot, or the reason why there is none. -/
def World.ofSnapshot (s : Snapshot) : Except Snapshot.Defect World :=
  match s.defect? with
  | some d => .error d
  | none =>
    match Memory.ofTables s.words s.owners with
    | .error d => .error (.tables d)
    | .ok memory => .ok {
        habitat := ⟨memory, s.stream, ⟨s.rate, s.maxAge⟩, s.mutations⟩
        population := s.population.toArray
        lineage := s.lineage
        cap := s.cap
        cycles := s.cycles
        history := s.history
        historyCapacity := s.historyCapacity }

/-- Puts the world of a snapshot in the place of this one, which stays as it is if there is none. -/
def World.replace (w : World) (s : Snapshot) : World × Except Snapshot.Defect Unit :=
  match World.ofSnapshot s with
  | .error d => (w, .error d)
  | .ok v => (v, .ok ())

end Vivarium
