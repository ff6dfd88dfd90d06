import Mathlib.Data.BitVec
import Vivarium.Proofs.Effects

/-!
# Operands that stand for the same

An operand acts only through the word that it gives and the place that it names, and some opcodes have no
use for one of their operands or for both. So an instruction does the same as another of its opcode if the
operands that the opcode uses stand for the same.

* `Operand.Alike` : operands that every organism takes for the same; `Operand.alike_iff` : which numbers
  make such operands, mode by mode;
* `Instruction.used` : the operands that an instruction has a use for;
* `Instruction.execute_of_alike` : instructions that do the same.
-/

namespace Vivarium

/-- Operands that give the same word and name the same place, whichever organism and soup. -/
structure Operand.Alike (x y : Operand) : Prop where
  read : ∀ (o : Organism) (m : Memory), x.read o m = y.read o m
  place : ∀ o : Organism, x.place o = y.place o

/-- Numbers that a mode takes for the same: an immediate one as it is, a relative one modulo the size of
the ring, and others for the register that they select. -/
def Mode.Same (mode : Mode) (v w : Word) : Prop :=
  match mode with
  | immediate => v = w
  | relative => Address.ofWord v = Address.ofWord w
  | register | indirect => Register.ofWord v = Register.ofWord w

namespace Organism

/-- An organism whose registers hold their own numbers. -/
def numbered : Organism :=
  { newborn 0 0 ⟨0⟩ with registers := Vector.ofFn fun r => BitVec.ofNat 32 r }

/-- The cells that its registers name tell them apart. -/
theorem ofWord_eq_of_numbered {v w : Word}
    (h : Address.ofWord (numbered.register v) = Address.ofWord (numbered.register w)) :
    Register.ofWord v = Register.ofWord w := by
  have key : ∀ r s : Register, Address.ofWord numbered.registers[r] =
      Address.ofWord numbered.registers[s] → r = s := by
    decide
  exact key _ _ h

end Organism

namespace Operand

theorem Alike.refl (x : Operand) : x.Alike x := ⟨fun _ _ => rfl, fun _ => rfl⟩

theorem Alike.jump {x y : Operand} (h : x.Alike y) (o : Organism) : x.jump o = y.jump o := by
  rw [Operand.jump, Operand.jump, h.place]

theorem alike_iff (mode : Mode) (v w : Word) :
    (⟨mode, v⟩ : Operand).Alike ⟨mode, w⟩ ↔ mode.Same v w := by
  constructor
  · intro h
    -- A single organism will do, if no two of its registers name the same cell.
    have hplace := h.place .numbered
    cases mode with
    | immediate => exact h.read .numbered .empty
    | relative => exact add_left_cancel (Place.cell.inj hplace)
    | register => exact Place.register.inj hplace
    | indirect => exact Organism.ofWord_eq_of_numbered (Place.cell.inj hplace)
  · intro h
    cases mode with
    | immediate => exact h ▸ .refl _
    | relative =>
      have hcell : ∀ o, relativeCell ⟨.relative, v⟩ o = relativeCell ⟨.relative, w⟩ o :=
        fun o => congrArg (o.here + ·) h
      exact ⟨fun o m => congrArg m.word (hcell o), fun o => congrArg Place.cell (hcell o)⟩
    | register => exact ⟨fun o m => congrArg o.registers.get h, fun o => congrArg Place.register h⟩
    | indirect =>
      have hcell : ∀ o, indirectCell ⟨.indirect, v⟩ o = indirectCell ⟨.indirect, w⟩ o :=
        fun o => congrArg (fun r => Address.ofWord o.registers[r]) h
      exact ⟨fun o m => congrArg m.word (hcell o), fun o => congrArg Place.cell (hcell o)⟩

end Operand

/-- The operands that an opcode has a use for: those whose values it takes, the destination of what it
computes, and the cell of a jump or a birth. -/
def Opcode.uses (op : Opcode) (a b : Operand) : List Operand :=
  match op with
  | nop | die => []
  | jmp | spwn => [a]
  | rand => [b]
  | mov | add | sub | jz | jnz | seq | sne | sys | addf => [a, b]

theorem Opcode.map_uses (f : Operand → Operand) (op : Opcode) (a b : Operand) :
    (op.uses a b).map f = op.uses (f a) (f b) := by
  cases op <;> rfl

namespace Instruction

/-- The operands that the instruction has a use for. One with an unassigned code has none. -/
def used (i : Instruction) : List Operand :=
  match i.opcode? with
  | none => []
  | some op => op.uses i.a i.b

variable {i j : Instruction}

theorem used_of_opcode {op : Opcode} (hop : i.opcode? = some op) : i.used = op.uses i.a i.b := by
  rw [used, hop]

/-- Operands that are changed are used as they were before. -/
theorem used_map (f : Operand → Operand) (i : Instruction) :
    (⟨i.code, f i.a, f i.b⟩ : Instruction).used = i.used.map f := by
  have hop : (⟨i.code, f i.a, f i.b⟩ : Instruction).opcode? = i.opcode? := rfl
  rw [used, hop, used]
  cases i.opcode? with
  | none => rfl
  | some op => exact (op.map_uses f i.a i.b).symm

/-- Operands that are not used do not matter, and alike ones can take the place of each other. -/
theorem effect_of_alike (hop : i.opcode? = j.opcode?) (h : List.Forall₂ Operand.Alike i.used j.used)
    (o : Organism) (m : Memory) (drawn : Word) : i.effect o m drawn = j.effect o m drawn := by
  cases hj : j.opcode? with
  | none => simp only [effect, hop, hj]
  | some op =>
    rw [used_of_opcode (hop.trans hj), used_of_opcode hj] at h
    -- One case for each row of `Opcode.uses`.
    cases op with
    | nop | die => simp only [effect, hop, hj]
    | jmp | spwn =>
      obtain ⟨ha, -⟩ := List.forall₂_cons.mp h
      simp only [effect, hop, hj, ha.jump, ha.place]
    | rand =>
      obtain ⟨hb, -⟩ := List.forall₂_cons.mp h
      simp only [effect, hop, hj, hb.place]
    | mov | add | sub | jz | jnz | seq | sne | sys | addf =>
      obtain ⟨ha, hrest⟩ := List.forall₂_cons.mp h
      obtain ⟨hb, -⟩ := List.forall₂_cons.mp hrest
      simp only [effect, hop, hj, ha.read, hb.read, hb.place, ha.jump]

theorem execute_of_alike (hop : i.opcode? = j.opcode?)
    (h : List.Forall₂ Operand.Alike i.used j.used) (o : Organism) (k : Habitat) :
    i.execute o k = j.execute o k := by
  have hdraw : i.draw k.stream = j.draw k.stream := by rw [draw, draw, hop]
  rw [execute_eq, execute_eq, hdraw, effect_of_alike hop h]

end Instruction

end Vivarium
