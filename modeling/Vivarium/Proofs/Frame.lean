import Vivarium.Proofs.Mutation

/-!
# What an instruction leaves alone

The frame of an instruction is what it does not change, whatever its operands are and whatever the soup
holds. Its opcode and the modes of its operands tell beforehand where a change can be.

* `Effect.flow_apply_eq_jump_iff`, `Effect.birth_apply_eq_some_iff` : which changes move the pointer out
  of line and which ask for a child;
* `Instruction.registers_execute`, `Instruction.memory_execute_of_stores` : the register and the cell that
  may be changed;
* `Instruction.Frame`, `Instruction.frame_execute` : the whole frame.
-/

namespace Vivarium

/-! ## Changes -/

namespace Effect

variable (e : Effect) (o : Organism) (h : Habitat)

theorem flow_apply_eq_skip_iff : (e.apply o h).flow = .skip ↔ e = .skip := by
  cases e <;> simp [apply]

theorem flow_apply_eq_jump_iff (a : Address) : (e.apply o h).flow = .jump a ↔ e = .jump a := by
  cases e <;> simp [apply]

theorem birth_apply_eq_some_iff (a : Address) : (e.apply o h).birth = some a ↔ e = .spawn a := by
  cases e <;> simp [apply]

end Effect

/-! ## Instructions -/

namespace Instruction

/-- The instruction computes a word for its second operand. -/
def Computes (i : Instruction) : Prop :=
  i.opcode? ∈ [some .mov, some .add, some .sub, some .rand, some .addf]

variable (i : Instruction) (o : Organism) (h : Habitat)

theorem computes_of_computed {i : Instruction} {d a drawn v : Word}
    (hv : ∃ op ∈ i.opcode?, op.computed d a drawn = some v) : i.Computes := by
  obtain ⟨op, hop, hv⟩ := hv
  rw [Computes, Option.mem_def.mp hop]
  exact (op.isSome_computed_iff _ _ _).mp (Option.isSome_of_mem hv)

theorem stores_of_effect {i : Instruction} {o : Organism} {m : Memory} {drawn : Word} {a : Address}
    {v : Word} (he : i.effect o m drawn = .store a v) : i.Stores := by
  obtain ⟨hplace, hv⟩ := asks_of_effect_eq he
  exact ⟨computes_of_computed hv, (i.b.place_eq_cell_iff o).mp ⟨a, hplace⟩⟩

theorem alive_execute {i : Instruction} (hi : i.opcode? ≠ some .die) (o : Organism) (h : Habitat) :
    (i.execute o h).organism.alive = o.alive := by
  rw [execute_eq]
  cases he : i.effect o h.memory (i.draw h.stream).1 with
  | die => exact absurd (asks_of_effect_eq he) hi
  | pass | assign | store | jump | skip | spawn | tune => rfl

/-- A register is changed only if a word is computed for it. -/
theorem registers_execute : (i.execute o h).organism.registers = o.registers ∨
    i.Computes ∧ i.b.mode = .register ∧
      ∃ v, (i.execute o h).organism.registers =
        (o.setRegister (Register.ofWord i.b.value) v).registers := by
  rw [execute_eq]
  cases he : i.effect o h.memory (i.draw h.stream).1 with
  | assign r v =>
    obtain ⟨hplace, hv⟩ := asks_of_effect_eq he
    obtain ⟨hmode, rfl⟩ := (i.b.place_eq_register_iff o r).mp hplace
    exact Or.inr ⟨computes_of_computed hv, hmode, v, rfl⟩
  | pass | store | jump | skip | spawn | tune | die => exact Or.inl rfl

theorem memory_execute_of_stores {i : Instruction} (hi : i.Stores) (o : Organism) (h : Habitat) :
    ∃ a v, i.b.place o = .cell a ∧
      (i.execute o h).habitat.memory = h.memory.set a ⟨v, some o.hue⟩ := by
  obtain ⟨y, hy⟩ := Option.isSome_iff_exists.mp ((i.isSome_writing_iff o h).mpr hi)
  have hplace := (asks_of_effect_eq ((i.writing_eq_some_iff o h y).mp hy).1).1
  refine ⟨y.address, y.stored, hplace, ?_⟩
  rw [memory_execute, hy, Memory.receive]

theorem writing_eq_none {i : Instruction} (hi : ¬ i.Stores) (o : Organism) (h : Habitat) :
    i.writing o h = none := by
  rw [← isSome_writing_iff (o := o) (h := h)] at hi
  exact Option.not_isSome_iff_eq_none.mp hi

/-- The two kinds of change exclude each other. -/
theorem registers_or_memory_execute :
    (i.execute o h).organism.registers = o.registers ∨ (i.execute o h).habitat.memory = h.memory := by
  rw [execute_eq]
  cases i.effect o h.memory (i.draw h.stream).1 with
  | assign r v => exact Or.inr rfl
  | pass | store | jump | skip | spawn | tune | die => exact Or.inl rfl

/-- A mutation comes of a write. -/
theorem mutations_execute_eq_or : (i.execute o h).habitat.mutations = h.mutations ∨
    i.Stores ∧ (i.execute o h).habitat.mutations = h.mutations + 1 := by
  rw [mutations_execute]
  cases hy : i.writing o h with
  | none => exact Or.inl (UInt64.add_zero _)
  | some y =>
    have hi : i.Stores := (i.isSome_writing_iff o h).mp (Option.isSome_of_mem hy)
    rw [Option.toList_some, List.countP_singleton]
    split_ifs
    · exact Or.inr ⟨hi, rfl⟩
    · exact Or.inl (UInt64.add_zero _)

theorem settings_execute {i : Instruction} (hi : i.opcode? ≠ some .sys) (o : Organism) (h : Habitat) :
    (i.execute o h).habitat.settings = h.settings := by
  rw [execute_eq]
  cases he : i.effect o h.memory (i.draw h.stream).1 with
  | tune command argument => exact absurd (asks_of_effect_eq he).1 hi
  | store a v => simp only [Effect.apply, Habitat.settings_write]
  | pass | assign | jump | skip | spawn | die => rfl

theorem stream_execute {i : Instruction} (hrand : i.opcode? ≠ some .rand) (hi : ¬ i.Stores)
    (o : Organism) (h : Habitat) : (i.execute o h).habitat.stream = h.stream := by
  rw [execute_of_ne_rand hrand]
  cases he : i.effect o h.memory 0 with
  | store a v => exact absurd (stores_of_effect he) hi
  | pass | assign | jump | skip | spawn | tune | die => rfl

theorem birth_execute_eq_some_iff (a : Address) :
    (i.execute o h).birth = some a ↔ i.opcode? = some .spwn ∧ i.a.place o = .cell a := by
  rw [execute_eq, Effect.birth_apply_eq_some_iff, effect_eq_spawn_iff]

theorem isSome_birth_execute_iff : (i.execute o h).birth.isSome = true ↔
    i.opcode? = some .spwn ∧ (i.a.mode = .relative ∨ i.a.mode = .indirect) := by
  rw [Option.isSome_iff_exists, ← i.a.place_eq_cell_iff o, ← exists_and_left]
  exact exists_congr (i.birth_execute_eq_some_iff o h)

theorem execute_of_unassigned {i : Instruction} (hi : i.opcode? = none) (o : Organism) (h : Habitat) :
    i.execute o h = ⟨o, h, .next, none⟩ := by
  rw [execute_of_ne_rand (by simp [hi]), effect, hi]
  rfl

theorem opcode?_eq_none {i : Instruction} (hi : i.code = 12 ∨ i.code = 13 ∨ 15 < i.code) :
    i.opcode? = none :=
  (Opcode.ofCode?_eq_none_iff i.code).mpr hi

/-- What the instruction `i` of the organism `o` leaves alone in the habitat `h`, with the outcome `out`. -/
structure Frame (out : Outcome) : Prop where
  ip : out.organism.ip = o.ip
  age : out.organism.age = o.age
  depth : out.organism.depth = o.depth
  hue : out.organism.hue = o.hue
  alive : i.opcode? ≠ some .die → out.organism.alive = o.alive
  /-- One register at most is changed, the one that the second operand selects. -/
  registers : out.organism.registers = o.registers ∨
    i.Computes ∧ i.b.mode = .register ∧ ∃ (r : Register) (v : Word),
      r.val = i.b.value.toInt.natAbs % 4 ∧ out.organism.registers = (o.setRegister r v).registers
  /-- One cell at most is changed, the one that the second operand names, and it is owned then. -/
  written : i.Stores → ∃ a v, i.b.place o = .cell a ∧
    out.habitat.memory = h.memory.set a ⟨v, some o.hue⟩
  unwritten : ¬ i.Stores → out.habitat.memory = h.memory
  exclusive : out.organism.registers = o.registers ∨ out.habitat.memory = h.memory
  settings : i.opcode? ≠ some .sys → out.habitat.settings = h.settings
  mutations : out.habitat.mutations = h.mutations ∨
    i.Stores ∧ out.habitat.mutations = h.mutations + 1
  stream : i.opcode? ≠ some .rand → ¬ i.Stores → out.habitat.stream = h.stream
  skip : out.flow = .skip → i.opcode? ∈ [some .seq, some .sne]
  jump : ∀ a, out.flow = .jump a →
    i.opcode? ∈ [some .jmp, some .jz, some .jnz] ∧ i.a.place o = .cell a ∧ a.toNat < Address.count
  birth : ∀ a, out.birth = some a →
    i.opcode? = some .spwn ∧ i.a.place o = .cell a ∧ a.toNat < Address.count
  unassigned : i.code = 12 ∨ i.code = 13 ∨ 15 < i.code → out = ⟨o, h, .next, none⟩

/-- Whatever its code and its operands are, an instruction that is carried out leaves its frame alone. -/
theorem frame_execute : i.Frame o h (i.execute o h) := by
  have hkeeps := i.keeps_execute o h
  refine ⟨hkeeps.ip, hkeeps.age, hkeeps.depth, hkeeps.hue, ?_, ?_, ?_, ?_, ?_, ?_, ?_, ?_, ?_, ?_, ?_, ?_⟩
  · exact fun hi => alive_execute hi o h
  · refine (registers_execute i o h).imp_right ?_
    rintro ⟨hcomputes, hmode, v, hv⟩
    exact ⟨hcomputes, hmode, _, v, rfl, hv⟩
  · exact fun hi => memory_execute_of_stores hi o h
  · intro hi
    rw [memory_execute, writing_eq_none hi, Memory.receive]
  · exact registers_or_memory_execute i o h
  · exact fun hi => settings_execute hi o h
  · exact mutations_execute_eq_or i o h
  · exact fun hrand hi => stream_execute hrand hi o h
  · exact fun hflow => asks_of_effect_eq ((Effect.flow_apply_eq_skip_iff _ _ _).mp hflow)
  · intro a hflow
    obtain ⟨hop, hplace⟩ := asks_of_effect_eq ((Effect.flow_apply_eq_jump_iff _ _ _ a).mp hflow)
    exact ⟨hop, hplace, a.isLt⟩
  · intro a hbirth
    obtain ⟨hop, hplace⟩ := (i.birth_execute_eq_some_iff o h a).mp hbirth
    exact ⟨hop, hplace, a.isLt⟩
  · exact fun hi => execute_of_unassigned (opcode?_eq_none hi) o h

end Instruction

end Vivarium
