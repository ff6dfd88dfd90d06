import Vivarium.Execution.Place

/-!
# The effects of instructions

An instruction asks for one change at most. `Instruction.effect` says which, from the organism and
the soup as they are and a number drawn beforehand; nothing is changed here.
-/

namespace Vivarium

/-- A single change. -/
inductive Effect
  /-- Nothing changes. -/
  | pass
  | assign (r : Register) (v : Word)
  /-- A word for a cell, which reaches it through `Habitat.write`. -/
  | store (a : Address) (v : Word)
  | jump (a : Address)
  | skip
  | spawn (a : Address)
  | tune (command argument : Word)
  | die
deriving DecidableEq, Repr

/-- The change that replaces what stands at a place by a function of it. -/
def Place.update (p : Place) (o : Organism) (m : Memory) (f : Word → Word) : Effect :=
  match p with
  | .nowhere => .pass
  | .register r => .assign r (f (p.content o m))
  | .cell a => .store a (f (p.content o m))

/-- A jump to the operand's cell. An operand that is no cell gives no jump. -/
def Operand.jump (x : Operand) (o : Organism) : Effect :=
  match (x.place o).address? with
  | some a => .jump a
  | none => .pass

/-- The change that an instruction asks for, given the number that a random draw would yield. -/
def Instruction.effect (i : Instruction) (o : Organism) (m : Memory) (drawn : Word) : Effect :=
  let a := i.a.read o m
  let b := i.b.read o m
  let update := (i.b.place o).update o m
  match i.opcode? with
  | none => .pass
  | some .nop => .pass
  | some .mov => update fun _ => a
  | some .add => update fun d => d + a
  | some .sub => update fun d => d - a
  | some .jmp => i.a.jump o
  | some .jz => if b = 0 then i.a.jump o else .pass
  | some .jnz => if b = 0 then .pass else i.a.jump o
  | some .spwn =>
    match (i.a.place o).address? with
    | some a => .spawn a
    | none => .pass
  | some .seq => if a = b then .skip else .pass
  | some .sne => if a = b then .pass else .skip
  | some .rand => update fun _ => drawn
  | some .sys => .tune a b
  | some .addf => update fun d => d.addValues a
  | some .die => .die

end Vivarium
