import Vivarium.Proofs.Turn

/-!
# What instructions ask for

Every instruction asks for one change at most, and the change tells much about the instruction. Later
statements about what instructions of one kind change are derived from the statements here.

* `Opcode.computed` : the word that an opcode computes, if it is one that writes;
* `Operand.read_eq_content` : an operand that names a place is read as the word that stands there;
* `Instruction.Asks`, `Instruction.asks_effect` : what an instruction must be to ask for a change;
* `Instruction.effect_eq_store_iff`, `Instruction.effect_eq_spawn_iff`, `Instruction.effect_eq_die_iff` :
  which instructions ask for it;
* `Instruction.operands`, `Instruction.effect_congr` : what an instruction must find in the soup to ask for
  the same.
-/

namespace Vivarium

/-- The word that an opcode computes from the content `d` of its destination, its operand `a` and a
number drawn, if it computes one. -/
def Opcode.computed (op : Opcode) (d a drawn : Word) : Option Word :=
  match op with
  | mov => some a
  | add => some (d + a)
  | sub => some (d - a)
  | rand => some drawn
  | addf => some (d.addValues a)
  | nop | jmp | jz | jnz | spwn | seq | sne | sys | die => none

theorem Opcode.isSome_computed_iff (op : Opcode) (d a drawn : Word) :
    (op.computed d a drawn).isSome = true ↔
      some op ∈ [some Opcode.mov, some .add, some .sub, some .rand, some .addf] := by
  cases op <;> simp [Opcode.computed]

/-- The operands whose values an opcode takes. The second operand of an opcode that computes is not
among them, and neither is the target of a jump or a birth. -/
def Opcode.operands (op : Opcode) (a b : Operand) : List Operand :=
  match op with
  | mov | add | sub | addf => [a]
  | jz | jnz => [b]
  | seq | sne | sys => [a, b]
  | nop | jmp | spwn | rand | die => []

/-! ## Places -/

theorem Place.address?_eq_some_iff (p : Place) (a : Address) : p.address? = some a ↔ p = .cell a := by
  cases p <;> simp [address?]

namespace Operand

variable (x : Operand) (o : Organism)

theorem place_eq_register_iff (r : Register) :
    x.place o = .register r ↔ x.mode = .register ∧ Register.ofWord x.value = r := by
  unfold place
  cases x.mode <;> simp

theorem place_eq_cell_iff :
    (∃ a, x.place o = .cell a) ↔ x.mode = .relative ∨ x.mode = .indirect := by
  unfold place
  cases x.mode <;> simp

/-- What is read of an operand that names a place is what stands there. -/
theorem read_eq_content (m : Memory) (hx : x.place o ≠ .nowhere) :
    x.read o m = (x.place o).content o m := by
  unfold place at hx ⊢
  unfold read
  cases hmode : x.mode with
  | immediate =>
    rw [hmode] at hx
    exact absurd rfl hx
  | relative | register | indirect => rfl

theorem place_of_immediate (hx : x.mode = .immediate) : x.place o = .nowhere := by
  rw [place, hx]

end Operand

/-! ## Changes -/

namespace Instruction

/-- What an instruction of the organism `o` in the soup `m` must be to ask for a change. -/
def Asks (i : Instruction) (o : Organism) (m : Memory) (drawn : Word) : Effect → Prop
  | .pass => True
  | .assign r v => i.b.place o = .register r ∧
      ∃ op ∈ i.opcode?, op.computed (o.registers.get r) (i.a.read o m) drawn = some v
  | .store a v => i.b.place o = .cell a ∧
      ∃ op ∈ i.opcode?, op.computed (m.word a) (i.a.read o m) drawn = some v
  | .jump a => i.opcode? ∈ [some .jmp, some .jz, some .jnz] ∧ i.a.place o = .cell a
  | .skip => i.opcode? ∈ [some .seq, some .sne]
  | .spawn a => i.opcode? = some .spwn ∧ i.a.place o = .cell a
  | .tune command argument =>
      i.opcode? = some .sys ∧ i.a.read o m = command ∧ i.b.read o m = argument
  | .die => i.opcode? = some .die

variable {i : Instruction} {o : Organism} {m : Memory} {drawn : Word}

theorem asks_update {op : Opcode} (hop : i.opcode? = some op) {f : Word → Word}
    (hf : ∀ d, op.computed d (i.a.read o m) drawn = some (f d)) :
    i.Asks o m drawn ((i.b.place o).update o m f) := by
  cases hplace : i.b.place o with
  | nowhere => trivial
  | register r => exact ⟨hplace, op, hop, hf _⟩
  | cell a => exact ⟨hplace, op, hop, hf _⟩

theorem asks_jump (hop : i.opcode? ∈ [some .jmp, some .jz, some .jnz]) :
    i.Asks o m drawn (i.a.jump o) := by
  unfold Operand.jump
  split
  · rename_i a ha
    exact ⟨hop, (Place.address?_eq_some_iff _ a).mp ha⟩
  · trivial

theorem asks_effect (i : Instruction) (o : Organism) (m : Memory) (drawn : Word) :
    i.Asks o m drawn (i.effect o m drawn) := by
  unfold effect
  cases hop : i.opcode? with
  | none => trivial
  | some op =>
    cases op with
    | nop => trivial
    | mov | add | sub | rand | addf => exact asks_update hop fun d => rfl
    | jmp => exact asks_jump (by simp [hop])
    | jz | jnz =>
      simp only
      split_ifs
      all_goals first
        | exact asks_jump (by simp [hop])
        | trivial
    | seq | sne =>
      simp only
      split_ifs
      all_goals simp [Asks, hop]
    | spwn =>
      simp only
      split
      · rename_i a ha
        exact ⟨hop, (Place.address?_eq_some_iff _ a).mp ha⟩
      · trivial
    | sys => exact ⟨hop, rfl, rfl⟩
    | die => exact hop

theorem asks_of_effect_eq {e : Effect} (he : i.effect o m drawn = e) : i.Asks o m drawn e :=
  he ▸ i.asks_effect o m drawn

/-- An instruction whose opcode computes a word asks for it to be put where its second operand says. -/
theorem effect_of_computed {op : Opcode} (hop : i.opcode? = some op) {v : Word}
    (hv : op.computed ((i.b.place o).content o m) (i.a.read o m) drawn = some v) :
    i.effect o m drawn = (i.b.place o).update o m fun _ => v := by
  cases op with
  | mov | add | sub | rand | addf =>
    obtain rfl := Option.some.inj hv
    simp only [effect, hop, Place.update]
  | nop | jmp | jz | jnz | spwn | seq | sne | sys | die => cases hv

variable (i o m drawn)

/-- An instruction writes what its opcode computes, to the cell that its second operand names. -/
theorem effect_eq_store_iff (a : Address) (v : Word) : i.effect o m drawn = .store a v ↔
      i.b.place o = .cell a ∧
        ∃ op ∈ i.opcode?, op.computed (m.word a) (i.a.read o m) drawn = some v := by
  refine ⟨asks_of_effect_eq, ?_⟩
  rintro ⟨hplace, op, hop, hv⟩
  rw [effect_of_computed hop (v := v) (by rw [hplace]; exact hv), hplace]
  rfl

theorem effect_eq_spawn_iff (a : Address) :
    i.effect o m drawn = .spawn a ↔ i.opcode? = some .spwn ∧ i.a.place o = .cell a := by
  refine ⟨asks_of_effect_eq, ?_⟩
  rintro ⟨hop, hplace⟩
  rw [← Place.address?_eq_some_iff] at hplace
  simp only [effect, hop, hplace]

theorem effect_eq_die_iff : i.effect o m drawn = .die ↔ i.opcode? = some .die := by
  refine ⟨asks_of_effect_eq, fun hop => ?_⟩
  simp only [effect, hop]

/-! ## What is read -/

/-- The operands whose values the instruction takes. -/
def operands (i : Instruction) : List Operand :=
  match i.opcode? with
  | none => []
  | some op => op.operands i.a i.b

variable {o m drawn}

/-- An instruction asks for the same in two soups if its operands have the same values there and, if it
adds or subtracts, the same stands at its destination. -/
theorem effect_congr {n : Memory} (hread : ∀ x ∈ i.operands, x.read o m = x.read o n)
    (hcontent : i.opcode? ∈ [some .add, some .sub, some .addf] →
      (i.b.place o).content o m = (i.b.place o).content o n) :
    i.effect o m drawn = i.effect o n drawn := by
  cases hop : i.opcode? with
  | none => simp only [effect, hop]
  | some op =>
    have hmem : i.operands = op.operands i.a i.b := by simp only [operands, hop]
    rw [hmem] at hread
    rw [hop] at hcontent
    cases op with
    | nop | jmp | spwn | die => simp only [effect, hop]
    | rand => simp only [effect, hop, Place.update]
    | mov => simp only [effect, hop, Place.update, hread i.a (by simp [Opcode.operands])]
    | add | sub | addf =>
      simp only [effect, hop, Place.update, hread i.a (by simp [Opcode.operands]),
        hcontent (by simp)]
    | jz | jnz => simp only [effect, hop, hread i.b (by simp [Opcode.operands])]
    | seq | sne | sys =>
      simp only [effect, hop, hread i.a (by simp [Opcode.operands]),
        hread i.b (by simp [Opcode.operands])]

end Instruction

end Vivarium
