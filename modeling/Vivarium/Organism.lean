import Vivarium.Hue
import Vivarium.Instruction.Basic

/-!
# Organisms

An organism is an instruction pointer, four registers, and what is known of its life: whether it is
alive, how many turns it has had, how many generations it is from its root, and its hue.
-/

namespace Vivarium

/-- The state of one program in execution. A pointer outside the ring is possible only in an
organism that was not born here. -/
structure Organism where
  ip : UInt64
  registers : Vector Word registerCount
  alive : Bool
  age : UInt64
  depth : UInt32
  hue : Hue
deriving DecidableEq

namespace Organism

/-- The cell that the pointer names. -/
def here (o : Organism) : Address := .ofUInt64 o.ip

/-- The content of the register that a number selects. -/
def register (o : Organism) (v : Word) : Word := o.registers[Register.ofWord v]

def setRegister (o : Organism) (r : Register) (v : Word) : Organism :=
  { o with registers := o.registers.set r v }

def newborn (a : Address) (depth : UInt32) (hue : Hue) : Organism where
  ip := a.toUInt64
  registers := Vector.replicate registerCount 0
  alive := true
  age := 0
  depth := depth
  hue := hue

/-- An organism without parents, of a random hue. -/
def root (a : Address) (lineage : Stream) : Organism × Stream :=
  let (hue, lineage) := Hue.random lineage
  (newborn a 0 hue, lineage)

/-- The next generation. The count stays at its largest value once it has reached it. -/
def nextDepth (d : UInt32) : UInt32 := if d = 0xFFFFFFFF then d else d + 1

/-- A child of `o`, with nothing but depth and hue from its parent. -/
def child (o : Organism) (a : Address) (lineage : Stream) : Organism × Stream :=
  let (hue, lineage) := o.hue.drift lineage
  (newborn a (nextDepth o.depth) hue, lineage)

def kill (o : Organism) : Organism := { o with alive := false }

end Organism

end Vivarium
