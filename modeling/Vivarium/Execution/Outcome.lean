import Vivarium.Execution.Effect
import Vivarium.Execution.Habitat

/-!
# Carrying out instructions

* `Effect.apply` : makes the change that an instruction asks for;
* `Instruction.execute` : draws if the instruction is one that draws, and makes its change;
* `Organism.act` : the same for the instruction in the organism's own cell.

The pointer is not moved here: `Flow` says where it goes afterwards.
-/

namespace Vivarium

/-- Where the pointer goes after an instruction. -/
inductive Flow
  /-- To the next cell. -/
  | next
  /-- Past the next cell. -/
  | skip
  | jump (a : Address)
deriving DecidableEq, Repr

namespace Flow

def target (here : Address) : Flow → Address
  | next => here + 1
  | skip => here + 2
  | jump a => a

end Flow

/-- What is left after an instruction: the organism and the habitat, where the pointer goes, and
the cell at which a child was asked for. -/
structure Outcome where
  organism : Organism
  habitat : Habitat
  flow : Flow
  birth : Option Address

def Effect.apply (e : Effect) (o : Organism) (h : Habitat) : Outcome :=
  match e with
  | pass => ⟨o, h, .next, none⟩
  | assign r v => ⟨o.setRegister r v, h, .next, none⟩
  | store a v => ⟨o, h.write a v o.hue, .next, none⟩
  | jump a => ⟨o, h, .jump a, none⟩
  | skip => ⟨o, h, .skip, none⟩
  | spawn a => ⟨o, h, .next, some a⟩
  | tune command argument => ⟨o, { h with settings := h.settings.tune command argument }, .next, none⟩
  | die => ⟨o.kill, h, .next, none⟩

/-- The draw that an instruction makes before anything else: an address for `rand`, whatever becomes
of it, and none for the others. -/
def Instruction.draw (i : Instruction) (s : Stream) : Word × Stream :=
  if i.opcode? = some .rand then
    let (n, s) := s.below Address.count
    (BitVec.ofNat 32 n, s)
  else (0, s)

/-- Carries out an instruction, wherever it comes from. -/
def Instruction.execute (i : Instruction) (o : Organism) (h : Habitat) : Outcome :=
  match h with
  | ⟨memory, stream, settings, mutations⟩ =>
    let (drawn, stream) := i.draw stream
    (i.effect o memory drawn).apply o ⟨memory, stream, settings, mutations⟩

theorem Instruction.execute_eq (i : Instruction) (o : Organism) (h : Habitat) :
    i.execute o h =
      (i.effect o h.memory (i.draw h.stream).1).apply o
        { h with stream := (i.draw h.stream).2 } := by
  cases h
  rfl

namespace Instruction

theorem draw_of_ne_rand {i : Instruction} (hi : i.opcode? ≠ some .rand) (s : Stream) :
    i.draw s = (0, s) :=
  if_neg hi

theorem draw_of_rand {i : Instruction} (hi : i.opcode? = some .rand) (s : Stream) :
    i.draw s = (BitVec.ofNat 32 (s.below Address.count).1, (s.below Address.count).2) :=
  if_pos hi

/-- An instruction that takes no draw makes its change in the habitat as it is. -/
theorem execute_of_ne_rand {i : Instruction} (hi : i.opcode? ≠ some .rand) (o : Organism) (h : Habitat) :
    i.execute o h = (i.effect o h.memory 0).apply o h := by
  rw [execute_eq, draw_of_ne_rand hi]

end Instruction

/-- Reads the word in the organism's cell and carries it out. Only the reading can fail. -/
def Organism.act (o : Organism) (h : Habitat) : Except OutOfBounds Outcome :=
  match h.memory.read o.ip with
  | .ok w => .ok ((Instruction.ofWord w).execute o h)
  | .error e => .error e

end Vivarium
