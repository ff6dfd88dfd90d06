import Vivarium.Execution.Habitat
import Vivarium.Organism

/-!
# Worlds

A world is a habitat, the organisms that live in it, the stream that their hues are drawn from, and
the record of its cycles.

* `World.ofConfig` : an empty world; both its streams come from one seed;
* `World.load`, `World.addRoot`, `World.plant` : how a world is peopled;
* `World.reset` : empties a world and keeps its settings and streams.
-/

namespace Vivarium

/-- A population in its habitat. The population is in order of birth, and its dead members stay in
it until the next cycle. The history holds the newest counts, oldest first. -/
structure World where
  habitat : Habitat
  population : Array Organism
  lineage : Stream
  cap : UInt64
  cycles : UInt64
  history : List UInt32
  historyCapacity : UInt64
deriving DecidableEq

namespace World

/-- The nonce of the stream that hues are drawn from; the stream of chance has nonce zero. -/
def lineageNonce : UInt64 := 1

/-- A world without organisms. The seed is used if the configuration names none. -/
def ofConfig (c : Config) (fallback : UInt64) : World :=
  let seed := c.seed.getD fallback
  { habitat := ⟨Memory.empty, .ofSeed seed 0, c.settings, 0⟩
    population := #[]
    lineage := .ofSeed seed lineageNonce
    cap := c.cap
    cycles := 0
    history := []
    historyCapacity := max c.historyCapacity 1 }

def memory (w : World) : Memory := w.habitat.memory

def settings (w : World) : Settings := w.habitat.settings

def livingCount (w : World) : Nat := w.population.countP (·.alive)

def extinct (w : World) : Bool := w.livingCount == 0

/-- Another organism may live. -/
def hasRoom (w : World) : Bool := decide (w.livingCount < w.cap.toNat)

/-! ## Peopling -/

def setSettings (w : World) (s : Settings) : World :=
  { w with habitat := { w.habitat with settings := s } }

def setRate (w : World) (rate : Binary64) : World := w.setSettings (w.settings.setRate rate)

def setMaxAge (w : World) (maxAge : UInt64) : World := w.setSettings (w.settings.setMaxAge maxAge)

/-- Puts words into the soup as they are. -/
def load (w : World) (a : Address) (words : List Word) : World :=
  { w with habitat := { w.habitat with memory := w.habitat.memory.load a words } }

/-- A root at `a` and its number in the population, if there is room. -/
def addRoot (w : World) (a : Address) : World × Option Nat :=
  if w.hasRoom then
    let (o, lineage) := Organism.root a w.lineage
    ({ w with population := w.population.push o, lineage := lineage }, some w.population.size)
  else (w, none)

/-- Words from `a` on and a root in front of them. -/
def plant (w : World) (a : Address) (words : List Word) : World × Option Nat :=
  (w.load a words).addRoot a

theorem habitat_addRoot (w : World) (a : Address) : (w.addRoot a).1.habitat = w.habitat := by
  unfold addRoot
  split <;> rfl

theorem memory_plant (w : World) (a : Address) (words : List Word) :
    (w.plant a words).1.memory = w.memory.load a words := by
  rw [memory, plant, habitat_addRoot]
  rfl

def reset (w : World) : World :=
  { w with
    habitat := { w.habitat with memory := Memory.empty, mutations := 0 }
    population := #[]
    cycles := 0
    history := [] }

/-! ## Looking -/

/-- The number of the first live organism at `a`. -/
def organismAt (w : World) (a : Address) : Option Nat :=
  w.population.findIdx? fun o => o.alive && o.ip == a.toUInt64

/-- Equality with the rates compared as numbers. -/
def equal (v w : World) : Bool :=
  v.settings.equal w.settings && v.setSettings w.settings == w

end World

end Vivarium
