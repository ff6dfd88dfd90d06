import Vivarium.Proofs.Acts
import Vivarium.Proofs.Effects

/-!
# What is written and what is counted

An instruction computes a word, the habitat may alter it on its way, and the counter of mutations knows
how often that has happened.

* `Instruction.Stores`, `Instruction.isSome_writing_iff` : which instructions write;
* `Habitat.altered_eq_or_differ`, `Habitat.mutations_write` : an altered word differs in one bit, and
  is counted;
* `Act.Carries`, `Act.carries_of_writing` : how a write comes of an act;
* `Act.Chain.mutations` : the counter at the end of a chain of acts;
* `World.mutations_run` : all this for any number of cycles.
-/

namespace Vivarium

/-- The instruction computes a word, and its destination is a cell. -/
def Instruction.Stores (i : Instruction) : Prop :=
  i.opcode? ∈ [some .mov, some .add, some .sub, some .rand, some .addf] ∧
    (i.b.mode = .relative ∨ i.b.mode = .indirect)

/-- All bits but one are the same. -/
def Word.DifferInOneBit (v w : Word) : Prop := ∃! i : Fin 32, v.getLsbD i ≠ w.getLsbD i

theorem Word.differInOneBit_flip (v : Word) {bit : Nat} (hbit : bit < 32) :
    DifferInOneBit (v ^^^ BitVec.twoPow 32 bit) v := by
  have hflip : ∀ i : Fin 32, (v ^^^ BitVec.twoPow 32 bit).getLsbD i ≠ v.getLsbD i ↔ bit = i := by
    intro i
    rw [BitVec.getLsbD_xor, BitVec.getLsbD_twoPow]
    by_cases h : bit = i
    · simp [h]
    · simp [h]
  refine ⟨⟨bit, hbit⟩, (hflip _).mpr rfl, fun i hi => ?_⟩
  exact Fin.ext ((hflip i).mp hi).symm

theorem Word.DifferInOneBit.ne {v w : Word} (h : DifferInOneBit v w) : v ≠ w := by
  rintro rfl
  obtain ⟨i, hi, -⟩ := h
  exact hi rfl

/-! ## Words on their way -/

/-- A draw has fifty-three bits. -/
theorem Stream.fraction_lt (s : Stream) : s.fraction.1 < 2 ^ 53 := by
  have hlow := s.peek.toNat_lt
  have hhigh := (s.advance 1).peek.toNat_lt
  simp only [fraction, next, Nat.shiftLeft_eq, Nat.shiftRight_eq_div_pow]
  omega

namespace Habitat

variable (h : Habitat) (v : Word)

/-- A word arrives as it is, or with one bit flipped. -/
theorem altered_eq_or_differ : h.altered v = v ∨ Word.DifferInOneBit (h.altered v) v := by
  unfold altered
  split_ifs
  · exact Or.inr (v.differInOneBit_flip (Stream.below_lt (by decide) _))
  · exact Or.inl rfl

theorem altered_of_rate_zero {h : Habitat} (hr : h.settings.rate.equal .zero = true) (v : Word) :
    h.altered v = v := by
  rw [altered, Binary64.exceedsDraw_of_equal_zero hr]
  rfl

theorem altered_ne_of_rate_one {h : Habitat} (hr : h.settings.rate = .one) (v : Word) :
    h.altered v ≠ v := by
  rw [altered, hr, Binary64.exceedsDraw_one (Stream.fraction_lt _)]
  exact (v.differInOneBit_flip (Stream.below_lt (by decide) _)).ne

/-- Exactly the altered words are counted. -/
theorem mutations_write (a : Address) (hue : Hue) :
    (h.write a v hue).mutations = h.mutations + if h.altered v = v then 0 else 1 := by
  by_cases hk : h.settings.rate.exceedsDraw h.stream.fraction.1 = true
  · have hne : h.altered v ≠ v := by
      rw [altered, if_pos hk]
      exact (v.differInOneBit_flip (Stream.below_lt (by decide) _)).ne
    rw [write_of_exceeds hk, if_neg hne]
  · have heq : h.altered v = v := by
      rw [altered, if_neg hk]
    rw [write_of_not_exceeds hk, if_pos heq, UInt64.add_zero]

end Habitat

/-! ## Instructions that write -/

namespace Instruction

theorem writing_eq_some_iff (i : Instruction) (o : Organism) (h : Habitat) (y : Write) :
    i.writing o h = some y ↔
      i.effect o h.memory (i.draw h.stream).1 = .store y.address y.meant ∧
        y.rate = h.settings.rate ∧
        y.stored = { h with stream := (i.draw h.stream).2 }.altered y.meant := by
  unfold writing
  cases i.effect o h.memory (i.draw h.stream).1 with
  | store a v =>
    obtain ⟨address, meant, rate, stored⟩ := y
    simp only [Option.some.injEq, Write.mk.injEq, Effect.store.injEq]
    grind
  | pass | assign | jump | skip | spawn | tune | die => simp

/-- Exactly the instructions that compute a word for a cell write one. -/
theorem isSome_writing_iff (i : Instruction) (o : Organism) (h : Habitat) :
    (i.writing o h).isSome = true ↔ i.Stores := by
  have hcell := i.b.place_eq_cell_iff o
  rw [Stores, ← hcell]
  constructor
  · intro hsome
    obtain ⟨y, hy⟩ := Option.isSome_iff_exists.mp hsome
    obtain ⟨hplace, op, hop, hcomputed⟩ :=
      (effect_eq_store_iff _ _ _ _ _ _).mp ((i.writing_eq_some_iff o h y).mp hy).1
    refine ⟨?_, y.address, hplace⟩
    rw [Option.mem_def.mp hop]
    exact (op.isSome_computed_iff _ _ _).mp (Option.isSome_of_mem hcomputed)
  · rintro ⟨hopcode, a, hplace⟩
    cases hop : i.opcode? with
    | none => simp [hop] at hopcode
    | some op =>
      rw [hop] at hopcode
      obtain ⟨v, hv⟩ := Option.isSome_iff_exists.mp
        ((op.isSome_computed_iff (h.memory.word a) (i.a.read o h.memory)
          (i.draw h.stream).1).mpr hopcode)
      have heffect := (i.effect_eq_store_iff o h.memory (i.draw h.stream).1 a v).mpr
        ⟨hplace, op, hop, hv⟩
      rw [writing, heffect]
      rfl

/-- The counter goes up by one iff the word that is written is altered. -/
theorem mutations_execute (i : Instruction) (o : Organism) (h : Habitat) :
    (i.execute o h).habitat.mutations =
      h.mutations + .ofNat ((i.writing o h).toList.countP fun y => y.stored ≠ y.meant) := by
  rw [execute_eq]
  unfold writing
  cases i.effect o h.memory (i.draw h.stream).1 with
  | store a v =>
    simp only [Effect.apply, Habitat.mutations_write, Option.toList_some, List.countP_singleton,
      decide_eq_true_eq, ite_not]
    split_ifs <;> rfl
  | pass | assign | jump | skip | spawn | tune | die => exact (UInt64.add_zero _).symm

end Instruction

theorem Organism.mutations_perform (o : Organism) (h : Habitat) :
    (o.perform h).habitat.mutations =
      h.mutations + .ofNat ((o.writing h).toList.countP fun y => y.stored ≠ y.meant) := by
  unfold perform writing
  cases h.memory.read o.ip with
  | ok w => exact Instruction.mutations_execute _ o h
  | error e => exact (UInt64.add_zero _).symm

/-! ## Acts that write -/

namespace Act

/-- The write `y` comes of the act `x`: it takes the word that the instruction computes to the cell that
its second operand names, at the rate that it finds, and leaves in it the word that arrives, in the
writer's hue. -/
structure Carries (x : Act) (y : Write) : Prop where
  rate : y.rate = x.habitat.settings.rate
  destination : x.instruction.b.place x.organism = .cell y.address
  meant : ∃ op ∈ x.instruction.opcode?,
    op.computed (x.habitat.memory.word y.address)
      (x.instruction.a.read x.organism x.habitat.memory)
      (x.instruction.draw x.habitat.stream).1 = some y.meant
  memory : x.outcome.habitat.memory =
    x.habitat.memory.set y.address ⟨y.stored, some x.organism.hue⟩

variable {x : Act}

/-- An organism inside the ring makes the write of the instruction in its cell. -/
theorem writing_eq (hx : x.organism.Sound) :
    x.writing = x.instruction.writing x.organism x.habitat := by
  rw [writing, Organism.writing, Organism.read_here x.habitat.memory hx.ip]
  rfl

theorem isSome_writing_iff (hx : x.organism.Sound) :
    x.writing.isSome = true ↔ x.instruction.Stores := by
  rw [writing_eq hx]
  exact Instruction.isSome_writing_iff _ _ _

theorem carries_of_writing (hx : x.organism.Sound) {y : Write} (hy : x.writing = some y) :
    x.Carries y := by
  have hmemory : x.outcome.habitat.memory = x.habitat.memory.receive x.organism.hue x.writing :=
    x.organism.memory_perform x.habitat
  rw [hy] at hmemory
  rw [writing_eq hx, Instruction.writing_eq_some_iff] at hy
  obtain ⟨heffect, hrate, -⟩ := hy
  obtain ⟨hplace, hmeant⟩ := (Instruction.effect_eq_store_iff _ _ _ _ _ _).mp heffect
  exact ⟨hrate, hplace, hmeant, hmemory⟩

/-- The word that arrives is the word that was meant, as the habitat alters it. -/
theorem exists_stored_eq {y : Write} (hy : x.writing = some y) :
    ∃ h : Habitat, h.settings.rate = y.rate ∧ y.stored = h.altered y.meant := by
  unfold writing Organism.writing at hy
  split at hy
  · obtain ⟨-, hrate, hstored⟩ := (Instruction.writing_eq_some_iff _ _ _ _).mp hy
    refine ⟨_, ?_, hstored⟩
    exact hrate.symm
  · cases hy

theorem Chain.mutations {xs : List Act} {h k : Habitat} (hxs : Chain h xs k) :
    k.mutations =
      h.mutations + .ofNat ((writes xs).countP fun y => y.stored ≠ y.meant) := by
  induction xs generalizing h with
  | nil =>
    obtain rfl : k = h := hxs
    exact (UInt64.add_zero _).symm
  | cons x xs ih =>
    obtain ⟨rfl, hrest⟩ := hxs
    have hfirst : x.outcome.habitat.mutations = x.habitat.mutations +
        .ofNat (x.writing.toList.countP fun y => y.stored ≠ y.meant) :=
      x.organism.mutations_perform x.habitat
    rw [ih hrest, hfirst, writes_cons, List.countP_append, UInt64.ofNat_add, UInt64.add_assoc]

end Act

/-! ## Runs -/

namespace World

/-- In the cycles of a run of a sound world exactly those acts write in which a word is computed for a
cell, and each write arrives as it was meant, or with one bit flipped. The flipped ones are counted, and
nothing else is. At a rate of zero no write is altered, and at a rate of one every write is. -/
theorem mutations_run {w : World} (hw : w.Sound) (n : Nat) :
    let altered := (w.writesIn n).countP fun y => y.stored ≠ y.meant
    Act.Chain w.habitat (w.actsIn n) (w.run n).habitat ∧
    (∀ x ∈ w.actsIn n,
      (x.writing.isSome = true ↔ x.instruction.Stores) ∧ ∀ y ∈ x.writing, x.Carries y) ∧
    (w.run n).habitat.mutations = w.habitat.mutations + .ofNat altered ∧
    (w.habitat.mutations.toNat + altered < 2 ^ 64 →
      (w.run n).habitat.mutations.toNat = w.habitat.mutations.toNat + altered) ∧
    ∀ y ∈ w.writesIn n,
      (y.stored = y.meant ∨ y.stored.DifferInOneBit y.meant) ∧
      (y.rate.equal .zero = true → y.stored = y.meant) ∧
      (y.rate = .one → y.stored ≠ y.meant) := by
  intro altered
  have hchain := chain_run n w
  have hmutations : (w.run n).habitat.mutations = w.habitat.mutations + .ofNat altered :=
    hchain.mutations
  refine ⟨hchain, ?_, hmutations, ?_, ?_⟩
  · intro x hx
    have hsound := (sound_of_mem_actsIn hw hx).1
    exact ⟨Act.isSome_writing_iff hsound, fun y hy => Act.carries_of_writing hsound hy⟩
  · intro hlt
    have haltered : altered < UInt64.size := Nat.lt_of_le_of_lt (Nat.le_add_left _ _) hlt
    rw [hmutations, UInt64.toNat_add, UInt64.toNat_ofNat_of_lt' haltered, Nat.mod_eq_of_lt hlt]
  · intro y hy
    obtain ⟨x, -, hx⟩ := List.mem_filterMap.mp hy
    obtain ⟨h, hrate, hstored⟩ := Act.exists_stored_eq hx
    rw [hstored, ← hrate]
    exact ⟨h.altered_eq_or_differ y.meant, fun hr => Habitat.altered_of_rate_zero hr y.meant,
      fun hr => Habitat.altered_ne_of_rate_one hr y.meant⟩

/-- A program across the end of the ring that writes once at a rate of one, then halves the rate and
writes four times more. Of its five writes the first and the last are altered. -/
theorem mutations_run_halved :
    let write (op : Opcode) (n : Word) := (Instruction.new op ⟨.immediate, 5⟩ ⟨.relative, n⟩).toWord
    let halve := (Instruction.new .sys ⟨.immediate, 1⟩ ⟨.immediate, 500⟩).toWord
    let program := [write .mov 100, halve, write .mov 100, write .mov 100, write .rand 100, write .add 99]
    let w := ((ofConfig ⟨.one, 0, 3, 2, some 7⟩ 0).plant 4094 program).1
    let altered := (w.writesIn 6).countP fun y => y.stored ≠ y.meant
    w.Sound ∧
    (w.writesIn 6).map (fun y => decide (y.stored ≠ y.meant)) = [true, false, false, false, true] ∧
    w.habitat.mutations.toNat + altered < 2 ^ 64 ∧
    (w.run 6).habitat.mutations.toNat = w.habitat.mutations.toNat + altered := by
  intro write halve program w altered
  have hsound : w.Sound := sound_plant (sound_ofConfig _ _) _ _
  have hflips : (w.writesIn 6).map (fun y => decide (y.stored ≠ y.meant)) =
      [true, false, false, false, true] := by decide +kernel
  have haltered : altered = 2 := by
    have hcount := congrArg (List.countP id) hflips
    rwa [List.countP_map] at hcount
  have hlt : w.habitat.mutations.toNat + altered < 2 ^ 64 := by
    rw [haltered]
    decide +kernel
  obtain ⟨-, -, -, hcount, -⟩ := mutations_run hsound 6
  exact ⟨hsound, hflips, hlt, hcount hlt⟩

end World

end Vivarium
