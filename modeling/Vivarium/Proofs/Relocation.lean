import Mathlib.Data.BitVec
import Vivarium.Proofs.Acts

/-!
# Programs run alike wherever they lie

All addresses but those in registers are relative to the organism that uses them, so turning the ring
under a world changes nothing else, as long as nobody uses a register for an address.

* `Memory.rotate`, `Organism.rotate`, `World.rotate` : everything moved by the same number of cells;
* `Instruction.Direct` : no operand takes its address from a register;
* `World.executedIn` : the instructions of the acts in a number of cycles;
* `World.rotate_turn`, `World.rotate_step` : turns and cycles commute with rotation;
* `World.rotate_iterate` : so does any number of cycles.
-/

namespace Vivarium

variable (k : Address)

/-! ## Rotations -/

/-- The soup with every cell moved on by `k`. -/
def Memory.rotate (m : Memory) : Memory :=
  ⟨m.cells.mapIdx fun i _ => m.cell (BitVec.ofNat 12 i - k)⟩

/-- The organism with its pointer moved on by `k`. -/
def Organism.rotate (o : Organism) : Organism := { o with ip := (o.here + k).toUInt64 }

def Habitat.rotate (h : Habitat) : Habitat := { h with memory := h.memory.rotate k }

/-- The world with every cell and every pointer moved on by `k`. -/
def World.rotate (w : World) : World :=
  { w with
    habitat := w.habitat.rotate k
    population := w.population.map (Organism.rotate k) }

def Place.rotate : Place → Place
  | nowhere => nowhere
  | register r => register r
  | cell a => cell (a + k)

def Effect.rotate : Effect → Effect
  | store a v => store (a + k) v
  | jump a => jump (a + k)
  | spawn a => spawn (a + k)
  | e => e

def Flow.rotate : Flow → Flow
  | next => next
  | skip => skip
  | jump a => jump (a + k)

def Outcome.rotate (out : Outcome) : Outcome where
  organism := out.organism.rotate k
  habitat := out.habitat.rotate k
  flow := out.flow.rotate k
  birth := out.birth.map (· + k)

/-! ## Instructions that are carried out -/

/-- Neither operand takes its address from a register. -/
def Instruction.Direct (i : Instruction) : Prop := i.a.mode ≠ .indirect ∧ i.b.mode ≠ .indirect

instance (i : Instruction) : Decidable i.Direct := inferInstanceAs (Decidable (_ ∧ _))

/-- The instructions that are carried out in the next `n` cycles. -/
def World.executedIn (n : Nat) (w : World) : List Instruction := (w.actsIn n).map Act.instruction

/-! ## What a rotation does -/

namespace Memory

theorem cell_rotate (m : Memory) (a : Address) : (m.rotate k).cell a = m.cell (a - k) := by
  simp only [cell, rotate, Vector.getElem_mapIdx, BitVec.ofNat_toNat, BitVec.setWidth_eq]

theorem word_rotate (m : Memory) (a : Address) : (m.rotate k).word (a + k) = m.word a := by
  rw [word, cell_rotate, BitVec.add_sub_cancel, word]

theorem rotate_set (m : Memory) (a : Address) (c : Cell) :
    (m.set a c).rotate k = (m.rotate k).set (a + k) c := by
  apply ext_cell
  intro b
  have hiff : a = b - k ↔ a + k = b := by
    constructor
    · rintro rfl
      exact BitVec.sub_add_cancel b k
    · rintro rfl
      exact (BitVec.add_sub_cancel a k).symm
  rw [cell_rotate, cell_set, cell_set, cell_rotate]
  simp only [hiff]

end Memory

namespace Organism

@[simp] theorem here_rotate (o : Organism) : (o.rotate k).here = o.here + k :=
  Address.ofUInt64_toUInt64 _

/-- The pointer moves round the ring. -/
theorem toNat_ip_rotate (o : Organism) :
    (o.rotate k).ip.toNat = (o.ip.toNat + k.toNat) % Address.count := by
  rw [rotate, Address.toNat_toUInt64, BitVec.toNat_add, here, Address.toNat_ofUInt64,
    Nat.mod_add_mod]

theorem rotate_newborn (a : Address) (depth : UInt32) (hue : Hue) :
    (newborn a depth hue).rotate k = newborn (a + k) depth hue := by
  simp only [rotate, newborn, here, Address.ofUInt64_toUInt64]

/-- A child that is asked for `k` cells on is the same child there, with the same draws. -/
theorem child_rotate (o : Organism) (a : Address) (s : Stream) :
    (o.rotate k).child (a + k) s = ((o.child a s).1.rotate k, (o.child a s).2) := by
  simp only [child, rotate_newborn]
  rfl

theorem rotate_endTurn (o : Organism) (s : Settings) (flow : Flow) :
    (o.rotate k).endTurn s (flow.rotate k) = (o.endTurn s flow).rotate k := by
  have htarget : (flow.rotate k).target (o.here + k) = flow.target o.here + k := by
    cases flow with
    | next => exact add_right_comm _ _ _
    | skip => exact add_right_comm _ _ _
    | jump a => rfl
  simp only [endTurn, here_rotate, htarget]
  simp only [rotate, here, Address.ofUInt64_toUInt64]

end Organism

/-! ## Acting -/

namespace Operand

variable {x : Operand} (o : Organism) (m : Memory)

theorem relativeCell_rotate (x : Operand) :
    x.relativeCell (o.rotate k) = x.relativeCell o + k := by
  rw [relativeCell, Organism.here_rotate, add_right_comm, relativeCell]

theorem read_rotate (hx : x.mode ≠ .indirect) :
    x.read (o.rotate k) (m.rotate k) = x.read o m := by
  unfold read
  cases hm : x.mode with
  | immediate => rfl
  | relative =>
    show (m.rotate k).word (x.relativeCell (o.rotate k)) = m.word (x.relativeCell o)
    rw [relativeCell_rotate, Memory.word_rotate]
  | register => rfl
  | indirect => exact absurd hm hx

theorem place_rotate (hx : x.mode ≠ .indirect) : x.place (o.rotate k) = (x.place o).rotate k := by
  unfold place
  cases hm : x.mode with
  | immediate => rfl
  | relative => exact congrArg Place.cell (relativeCell_rotate k o x)
  | register => rfl
  | indirect => exact absurd hm hx

end Operand

theorem Place.address?_rotate (p : Place) : (p.rotate k).address? = p.address?.map (· + k) := by
  cases p <;> rfl

theorem Place.update_rotate (p : Place) (o : Organism) (m : Memory) (f : Word → Word) :
    (p.rotate k).update (o.rotate k) (m.rotate k) f = (p.update o m f).rotate k := by
  cases p with
  | nowhere => rfl
  | register r => rfl
  | cell a =>
    show Effect.store (a + k) (f ((m.rotate k).word (a + k))) = .store (a + k) (f (m.word a))
    rw [Memory.word_rotate]

theorem Operand.jump_rotate {x : Operand} (hx : x.mode ≠ .indirect) (o : Organism) :
    x.jump (o.rotate k) = (x.jump o).rotate k := by
  unfold jump
  rw [place_rotate k o hx, Place.address?_rotate]
  cases (x.place o).address? <;> rfl

namespace Instruction

variable {i : Instruction}

/-- A direct instruction asks for the same change, as far on as the rest has moved. -/
theorem effect_rotate (hi : i.Direct) (o : Organism) (m : Memory) (drawn : Word) :
    i.effect (o.rotate k) (m.rotate k) drawn = (i.effect o m drawn).rotate k := by
  obtain ⟨ha, hb⟩ := hi
  unfold effect
  simp only [Operand.read_rotate k o m ha, Operand.read_rotate k o m hb,
    Operand.place_rotate k o ha, Operand.place_rotate k o hb, Place.update_rotate,
    Operand.jump_rotate k ha o, Place.address?_rotate]
  cases i.opcode? with
  | none => rfl
  | some op =>
    cases op with
    | nop | mov | add | sub | jmp | rand | sys | addf | die => rfl
    | jz | jnz | seq | sne =>
      dsimp only
      split <;> rfl
    | spwn =>
      dsimp only
      cases (i.a.place o).address? <;> rfl

end Instruction

theorem Habitat.rotate_write (h : Habitat) (a : Address) (v : Word) (hue : Hue) :
    (h.rotate k).write (a + k) v hue = (h.write a v hue).rotate k := by
  by_cases hk : h.settings.rate.exceedsDraw h.stream.fraction.1 = true
  · have hk' : (h.rotate k).settings.rate.exceedsDraw (h.rotate k).stream.fraction.1 = true := hk
    rw [write_of_exceeds hk, write_of_exceeds hk', rotate, rotate, Memory.rotate_set]
  · have hk' : ¬ (h.rotate k).settings.rate.exceedsDraw (h.rotate k).stream.fraction.1 = true := hk
    rw [write_of_not_exceeds hk, write_of_not_exceeds hk', rotate, rotate, Memory.rotate_set]

theorem Effect.rotate_apply (e : Effect) (o : Organism) (h : Habitat) :
    (e.rotate k).apply (o.rotate k) (h.rotate k) = (e.apply o h).rotate k := by
  cases e with
  | store a v =>
    have hw := h.rotate_write k a v o.hue
    simp only [rotate, apply, Outcome.rotate, ← hw]
    rfl
  | pass | assign | jump | skip | spawn | tune | die => rfl

theorem Instruction.rotate_execute {i : Instruction} (hi : i.Direct) (o : Organism) (h : Habitat) :
    i.execute (o.rotate k) (h.rotate k) = (i.execute o h).rotate k := by
  rw [execute_eq, execute_eq, ← Effect.rotate_apply]
  show (i.effect _ (h.memory.rotate k) (i.draw h.stream).1).apply _ _ = _
  rw [effect_rotate k hi]
  rfl

namespace Organism

variable {o : Organism} {h : Habitat}

/-- Inside the ring and with a direct instruction, an organism acts alike wherever it lies. -/
theorem rotate_perform (ho : o.ip.toNat < Address.count)
    (hi : (Instruction.ofWord (h.memory.word o.here)).Direct) :
    (o.rotate k).perform (h.rotate k) = (o.perform h).rotate k := by
  have ho' : (o.rotate k).ip.toNat < Address.count := by
    rw [toNat_ip_rotate]
    exact Nat.mod_lt _ (by decide)
  have hword : (h.rotate k).memory.word (o.rotate k).here = h.memory.word o.here := by
    rw [here_rotate]
    exact Memory.word_rotate k h.memory o.here
  rw [perform_eq _ ho', perform_eq _ ho, hword, Instruction.rotate_execute k hi]

theorem rotate_afterTurn (ho : o.ip.toNat < Address.count)
    (hi : (Instruction.ofWord (h.memory.word o.here)).Direct) :
    (o.rotate k).afterTurn (h.rotate k) = (o.afterTurn h).rotate k := by
  rw [afterTurn, rotate_perform k ho hi]
  exact rotate_endTurn k _ _ _

end Organism

/-! ## Worlds -/

namespace World

variable {w : World}

theorem member_rotate (w : World) (i : Nat) :
    (w.rotate k).population[i]? = w.population[i]?.map (Organism.rotate k) :=
  Array.getElem?_map

@[simp] theorem livingCount_rotate (w : World) : (w.rotate k).livingCount = w.livingCount := by
  rw [livingCount, rotate, Array.countP_map]
  rfl

@[simp] theorem hasRoom_rotate (w : World) : (w.rotate k).hasRoom = w.hasRoom := by
  rw [hasRoom, livingCount_rotate]
  rfl

@[simp] theorem extinct_rotate (w : World) : (w.rotate k).extinct = w.extinct := by
  rw [extinct, livingCount_rotate, extinct]

theorem rotate_childOf (w : World) (parent : Organism) (birth : Option Address) :
    (w.rotate k).childOf (parent.rotate k) (birth.map (· + k)) =
      ((w.childOf parent birth).1.map (Organism.rotate k), (w.childOf parent birth).2) := by
  cases birth with
  | none => rfl
  | some a =>
    have hlineage : (w.rotate k).lineage = w.lineage := rfl
    rw [Option.map_some, childOf, childOf, hasRoom_rotate, hlineage, Organism.child_rotate]
    split_ifs <;> rfl

variable {i : Nat} {o : Organism}

theorem rotate_acted (hact : (o.rotate k).perform (w.habitat.rotate k) =
    (o.perform w.habitat).rotate k) :
    (w.rotate k).acted i (o.rotate k) = (w.acted i o).rotate k := by
  have hact' : (o.rotate k).perform (w.rotate k).habitat = (o.perform w.habitat).rotate k := hact
  rw [acted, hact', acted, rotate, rotate]
  simp only [Array.map_setIfInBounds]
  rfl

theorem rotate_offspring (hact : (o.rotate k).perform (w.habitat.rotate k) =
    (o.perform w.habitat).rotate k) :
    (w.rotate k).offspring i (o.rotate k) =
      ((w.offspring i o).1.map (Organism.rotate k), (w.offspring i o).2) := by
  have hact' : (o.rotate k).perform (w.rotate k).habitat = (o.perform w.habitat).rotate k := hact
  rw [offspring, rotate_acted k hact, hact']
  exact rotate_childOf k _ _ _

/-- A turn in which a direct instruction is carried out. -/
theorem rotate_turn (hw : w.Sound) (h : ∀ x ∈ w.act? i, x.instruction.Direct) :
    (w.rotate k).turn i = (w.turn i).rotate k := by
  cases hi : w.population[i]? with
  | none =>
    have hi' : (w.rotate k).population[i]? = none := by
      rw [member_rotate, hi]
      rfl
    rw [turn_eq_self hi, turn_eq_self hi']
  | some o =>
    have hi' : (w.rotate k).population[i]? = some (o.rotate k) := by
      rw [member_rotate, hi]
      rfl
    have ho : o.ip.toNat < Address.count := (hw.members o (Array.mem_of_getElem? hi)).ip
    have hdirect : (Instruction.ofWord (w.habitat.memory.word o.here)).Direct :=
      h ⟨o, w.habitat⟩ (act?_of_some hi)
    have hact := Organism.rotate_perform k ho hdirect
    have hself := Organism.rotate_afterTurn k ho hdirect
    have hchild := rotate_offspring (i := i) k hact
    rw [turn_eq_parts hi, turn_eq_parts hi', hchild]
    simp only [rotate, Array.map_append, Array.map_setIfInBounds, ← Option.toArray_map]
    rw [hact, hself]
    rfl

theorem rotate_foldl_turn (is : List Nat) (hw : w.Sound)
    (h : ∀ x ∈ actsBy is w, x.instruction.Direct) :
    is.foldl turn (w.rotate k) = (is.foldl turn w).rotate k := by
  induction is generalizing w with
  | nil => rfl
  | cons i is ih =>
    simp only [actsBy, List.mem_append, Option.mem_toList] at h
    rw [List.foldl_cons, List.foldl_cons, rotate_turn k hw fun x hx => h x (Or.inl hx)]
    exact ih (sound_turn hw i) fun x hx => h x (Or.inr hx)

theorem rotate_reap (w : World) : (w.rotate k).reap = w.reap.rotate k := by
  have halive : (fun o : Organism => o.alive) ∘ Organism.rotate k = fun o => o.alive := rfl
  rw [reap, reap, rotate, rotate, Array.filter_map, halive]

theorem rotate_record (w : World) : (w.rotate k).record = w.record.rotate k := by
  rw [record, record, livingCount_rotate]
  rfl

/-- A cycle in which direct instructions alone are carried out. -/
theorem rotate_step (hw : w.Sound) (h : ∀ x ∈ w.acts, x.instruction.Direct) :
    (w.rotate k).step = w.step.rotate k := by
  cases hl : w.extinct with
  | true =>
    have hl' : (w.rotate k).extinct = true := by rw [extinct_rotate, hl]
    rw [step_of_extinct hl, step_of_extinct hl', rotate_reap]
  | false =>
    have hl' : (w.rotate k).extinct = false := by rw [extinct_rotate, hl]
    rw [step_of_living hl, step_of_living hl', livingCount_rotate, rotate_reap,
      rotate_foldl_turn k _ (sound_reap hw) h, rotate_record]

/-- If every instruction that is carried out in `n` cycles of a sound world is direct, the world
moved on by `k` cells goes through the same `n` cycles, moved on by `k` cells. -/
theorem rotate_iterate (hw : w.Sound) (n : Nat) (h : ∀ x ∈ w.executedIn n, x.Direct) :
    step^[n] (w.rotate k) = (step^[n] w).rotate k := by
  rw [executedIn, List.forall_mem_map] at h
  induction n generalizing w with
  | zero => rfl
  | succ n ih =>
    simp only [actsIn, List.mem_append] at h
    rw [Function.iterate_succ_apply, Function.iterate_succ_apply,
      rotate_step k hw fun x hx => h x (Or.inl hx)]
    exact ih (sound_step hw) fun x hx => h x (Or.inr hx)

/-- The ancestor lies across the end of the ring, has a child, and overwrites a word of its own; all
its writes are altered. -/
theorem rotate_iterate_mutated :
    let w := ((ofConfig ⟨.one, 0, 3, 2, some 7⟩ 0).plant 4094 (Ancestor.program 3 4)).1
    w.Sound ∧ (∀ x ∈ w.executedIn 5, x.Direct) ∧
      step^[5] (w.rotate 7) = (step^[5] w).rotate 7 := by
  intro w
  have hsound : w.Sound := sound_plant (sound_ofConfig _ _) _ _
  have hdirect : ∀ x ∈ w.executedIn 5, x.Direct := by decide +kernel
  exact ⟨hsound, hdirect, rotate_iterate 7 hsound 5 hdirect⟩

end World

end Vivarium
