import Vivarium.Memory.Basic
import Vivarium.Organism

/-!
# What an operand stands for

* `Operand.read` : the word that an operand gives;
* `Operand.place` : where a result goes that is written to it.

Both take addresses relative to the organism's own cell, and a register's content by its residue.
-/

namespace Vivarium

/-- Where an operand can be written. -/
inductive Place
  /-- An immediate operand: the result is dropped. -/
  | nowhere
  | register (r : Register)
  | cell (a : Address)
deriving DecidableEq, Repr

namespace Place

/-- The cell, if the place is one. -/
def address? : Place → Option Address
  | cell a => some a
  | _ => none

/-- What stands there now. -/
def content (o : Organism) (m : Memory) : Place → Word
  | nowhere => 0
  | register r => o.registers.get r
  | cell a => m.word a

end Place

namespace Operand

/-- The cell as far from the organism's own as the operand's number says. -/
def relativeCell (x : Operand) (o : Organism) : Address := o.here + Address.ofWord x.value

/-- The cell that the selected register names. -/
def indirectCell (x : Operand) (o : Organism) : Address := Address.ofWord (o.register x.value)

def read (x : Operand) (o : Organism) (m : Memory) : Word :=
  match x.mode with
  | .immediate => x.value
  | .relative => m.word (x.relativeCell o)
  | .register => o.register x.value
  | .indirect => m.word (x.indirectCell o)

def place (x : Operand) (o : Organism) : Place :=
  match x.mode with
  | .immediate => .nowhere
  | .relative => .cell (x.relativeCell o)
  | .register => .register (Register.ofWord x.value)
  | .indirect => .cell (x.indirectCell o)

end Operand

end Vivarium
