import Mathlib.Data.Int.ModEq
import Vivarium.Proofs.Frame

/-!
# What is computed and where it goes

An instruction that computes takes the content of its destination and the value of its first operand as
they stand before it, makes a word of them, and puts it where the second operand says. Which of the two
operands names what, and whether they name the same, makes no difference.

* `Opcode.Result` : which word `mov`, `add`, `sub` and `addf` make of two others, in arithmetic modulo
  powers of two; `Opcode.Result.unique` : there is only one;
* `Place.put` : what is left once a word is put at a place;
* `Instruction.execute_eq_put` : an instruction that computes puts its word at its destination;
* `Instruction.results_execute` : all this for the five opcodes that compute.
-/

namespace Vivarium

/-! ## Words from two others -/

namespace Word

/-- A word is determined by its signed reading modulo `2 ^ 32`. -/
theorem eq_of_toInt_modEq {v w : Word} (h : v.toInt ≡ w.toInt [ZMOD 2 ^ 32]) : v = w := by
  have hv := BitVec.toInt_eq_toNat_cond v
  have hw := BitVec.toInt_eq_toNat_cond w
  have := v.isLt
  have := w.isLt
  apply BitVec.eq_of_toNat_eq
  unfold Int.ModEq at h
  split_ifs at hv hw <;> omega

end Word

namespace Opcode

/-- The word `w` is what the opcode makes of the content `d` of its destination and the value `v` of its
first operand. -/
def Result (op : Opcode) (d v w : Word) : Prop :=
  match op with
  | mov => w.toInt ≡ v.toInt [ZMOD 2 ^ 32]
  | add => w.toInt ≡ d.toInt + v.toInt [ZMOD 2 ^ 32]
  | sub => w.toInt ≡ d.toInt - v.toInt [ZMOD 2 ^ 32]
  | addf =>
    (w.extractLsb' 14 12).toNat =
      ((d.extractLsb' 14 12).toNat + (v.extractLsb' 14 12).toNat) % 4096 ∧
    (w.extractLsb' 0 12).toNat =
      ((d.extractLsb' 0 12).toNat + (v.extractLsb' 0 12).toNat) % 4096 ∧
    w.extractLsb' 28 4 = d.extractLsb' 28 4 ∧ w.extractLsb' 26 2 = d.extractLsb' 26 2 ∧
    w.extractLsb' 12 2 = d.extractLsb' 12 2
  | _ => False

instance (op : Opcode) (d v w : Word) : Decidable (op.Result d v w) :=
  match op with
  | mov | add | sub => inferInstanceAs (Decidable (Int.ModEq _ _ _))
  | addf => inferInstanceAs (Decidable (_ ∧ _))
  | nop | jmp | jz | jnz | spwn | seq | sne | rand | sys | die => inferInstanceAs (Decidable False)

theorem Result.unique {op : Opcode} {d v w w' : Word} (h : op.Result d v w)
    (h' : op.Result d v w') : w = w' := by
  cases op with
  | mov | add | sub => exact Word.eq_of_toInt_modEq (h.trans h'.symm)
  | addf =>
    obtain ⟨hvalueA, hvalueB, hcode, hmodeA, hmodeB⟩ := h
    obtain ⟨hvalueA', hvalueB', hcode', hmodeA', hmodeB'⟩ := h'
    apply Word.eq_of_ofWord
    apply Fields.ext
    · exact hcode.trans hcode'.symm
    · exact hmodeA.trans hmodeA'.symm
    · exact BitVec.eq_of_toNat_eq (hvalueA.trans hvalueA'.symm)
    · exact hmodeB.trans hmodeB'.symm
    · exact BitVec.eq_of_toNat_eq (hvalueB.trans hvalueB'.symm)
  | nop | jmp | jz | jnz | spwn | seq | sne | rand | sys | die => exact h.elim

/-- What an opcode computes from two words, without a number drawn, is its result. -/
theorem result_of_computed {op : Opcode} (hop : op ≠ .rand) {d v drawn w : Word}
    (hw : op.computed d v drawn = some w) : op.Result d v w := by
  cases op with
  | mov =>
    obtain rfl := Option.some.inj hw
    exact Int.ModEq.refl _
  | add =>
    obtain rfl := Option.some.inj hw
    show (d + v).toInt % _ = _
    rw [BitVec.toInt_add]
    exact Int.bmod_emod
  | sub =>
    obtain rfl := Option.some.inj hw
    show (d - v).toInt % _ = _
    rw [BitVec.toInt_sub]
    exact Int.bmod_emod
  | addf =>
    obtain rfl := Option.some.inj hw
    have hfields := d.ofWord_addValues v
    have hvalueA := congrArg (BitVec.toNat ∘ Fields.valueA) hfields
    have hvalueB := congrArg (BitVec.toNat ∘ Fields.valueB) hfields
    exact ⟨hvalueA.trans (BitVec.toNat_add _ _), hvalueB.trans (BitVec.toNat_add _ _),
      congrArg Fields.code hfields, congrArg Fields.modeA hfields, congrArg Fields.modeB hfields⟩
  | rand => exact absurd rfl hop
  | nop | jmp | jz | jnz | spwn | seq | sne | sys | die => cases hw

end Opcode

/-! ## Words at their destination -/

/-- What is left of the organism `o` and the habitat `h` once the word `w` is put at a place: a register
takes it as it is, and a cell takes it through the habitat's own writing. -/
def Place.put (p : Place) (o : Organism) (h : Habitat) (w : Word) : Outcome :=
  match p with
  | nowhere => ⟨o, h, .next, none⟩
  | register r => ⟨o.setRegister r w, h, .next, none⟩
  | cell a => ⟨o, h.write a w o.hue, .next, none⟩

theorem Organism.get_setRegister (o : Organism) (r : Register) (w : Word) :
    (o.setRegister r w).registers.get r = w :=
  Vector.getElem_set_self _

namespace Instruction

variable {i : Instruction} {o : Organism} {h : Habitat} {op : Opcode}

/-- Nothing is put before both words are read. -/
theorem execute_eq_put (hop : i.opcode? = some op) {w : Word}
    (hw : op.computed ((i.b.place o).content o h.memory) (i.a.read o h.memory)
      (i.draw h.stream).1 = some w) :
    i.execute o h = (i.b.place o).put o { h with stream := (i.draw h.stream).2 } w := by
  rw [execute_eq, effect_of_computed hop hw]
  cases i.b.place o <;> rfl

/-- An instruction that makes a word of two others takes no draw of its own. -/
theorem exists_result (hop : i.opcode? = some op) (hmem : op ∈ [Opcode.mov, .add, .sub, .addf]) :
    ∃ w, op.Result ((i.b.place o).content o h.memory) (i.a.read o h.memory) w ∧
      i.execute o h = (i.b.place o).put o h w := by
  have hrand : op ≠ .rand := by
    rintro rfl
    simp at hmem
  have hdraw : i.draw h.stream = (0, h.stream) :=
    draw_of_ne_rand (by rw [hop]; exact fun heq => hrand (Option.some.inj heq)) h.stream
  have hsome : some op ∈ [some Opcode.mov, some .add, some .sub, some .rand, some .addf] := by
    simp only [List.mem_cons, List.not_mem_nil, or_false] at hmem
    rcases hmem with rfl | rfl | rfl | rfl <;> simp
  obtain ⟨w, hw⟩ := Option.isSome_iff_exists.mp ((op.isSome_computed_iff
    ((i.b.place o).content o h.memory) (i.a.read o h.memory) (i.draw h.stream).1).mpr hsome)
  refine ⟨w, Opcode.result_of_computed hrand hw, ?_⟩
  rw [execute_eq_put hop hw, hdraw]

/-- An instruction that draws an address does so before it puts it anywhere. -/
theorem execute_of_rand (hop : i.opcode? = some .rand) :
    i.execute o h = (i.b.place o).put o { h with stream := (h.stream.below Address.count).2 }
      (BitVec.ofNat 32 (h.stream.below Address.count).1) := by
  rw [execute_eq_put hop (w := (i.draw h.stream).1) rfl, draw_of_rand hop]

/-- With `v` for the value of the first operand and `d` for the content of the destination, both as they
stand before the instruction, `mov`, `add`, `sub` and `addf` put the one word at the destination that is
their result, whether it is a register or a cell, and do nothing if there is no destination. If both
operands name the same place, `v` and `d` are the same word. `rand` draws an address before any other
draw, also if there is no destination. -/
theorem results_execute (i : Instruction) (o : Organism) (h : Habitat) :
    let v := i.a.read o h.memory
    let d := (i.b.place o).content o h.memory
    (i.a.place o = i.b.place o → i.b.mode ≠ .immediate → v = d) ∧
    (∀ op ∈ i.opcode?, op ∈ [Opcode.mov, .add, .sub, .addf] →
      (∃ w, op.Result d v w ∧ (∀ w', op.Result d v w' → w' = w) ∧
        i.execute o h = (i.b.place o).put o h w) ∧
      (i.b.mode = .immediate → i.execute o h = ⟨o, h, .next, none⟩) ∧
      ∀ (j : Instruction) (p : Organism) (k : Habitat) (r : Register) (a : Address),
        j.opcode? = some op → j.a.read p k.memory = v →
        i.b.place o = .register r → j.b.place p = .cell a → k.memory.word a = d →
        j.execute p k = ⟨p, k.write a ((i.execute o h).organism.registers.get r) p.hue, .next, none⟩) ∧
    (i.opcode? = some .rand → ∃ n s, h.stream.below Address.count = (n, s) ∧ n < Address.count ∧
      i.execute o h = (i.b.place o).put o { h with stream := s } (BitVec.ofNat 32 n) ∧
      (i.b.mode = .immediate → i.execute o h = ⟨o, { h with stream := s }, .next, none⟩)) := by
  intro v d
  refine ⟨?_, ?_, ?_⟩
  · intro hplace himmediate
    have hsomewhere : i.a.place o ≠ .nowhere := by
      rw [hplace]
      unfold Operand.place
      cases hmode : i.b.mode <;> simp_all
    show i.a.read o h.memory = _
    rw [i.a.read_eq_content o h.memory hsomewhere, hplace]
  · intro op hop hmem
    obtain ⟨w, hw, hexecute⟩ := exists_result (o := o) (h := h) hop hmem
    refine ⟨⟨w, hw, fun w' hw' => hw'.unique hw, hexecute⟩, fun hmode => ?_, ?_⟩
    · rw [hexecute, i.b.place_of_immediate o hmode]
      rfl
    · intro j p k r a hopj hvalue hregister hcell hcontent
      obtain ⟨w', hw', hexecute'⟩ := exists_result (i := j) (o := p) (h := k) hopj hmem
      have hsame : w' = w := by
        rw [hcell, hvalue, Place.content, hcontent] at hw'
        exact hw'.unique hw
      rw [hexecute', hexecute, hcell, hregister, hsame, Place.put, Place.put, Organism.get_setRegister]
  · intro hop
    refine ⟨_, _, rfl, Stream.below_lt (by decide) _, execute_of_rand hop, fun hmode => ?_⟩
    rw [execute_of_rand hop, i.b.place_of_immediate o hmode]
    rfl

/-- An instruction in the last cell adds the numbers of its own word to themselves, and reaches that
word by a register and by its distance. -/
theorem results_execute_own_cell :
    let i := Instruction.new .addf ⟨.indirect, 2047⟩ ⟨.relative, 0⟩
    let o := (Organism.newborn 4095 0 ⟨7⟩).setRegister 3 (-1)
    let h : Habitat := ⟨Memory.empty.set 4095 ⟨i.toWord, none⟩, .ofSeed 3 0, ⟨.one, 0⟩, 0⟩
    i.a.place o = .cell o.here ∧ i.b.place o = .cell o.here ∧ i.b.mode ≠ .immediate ∧
    i.a.read o h.memory = i.toWord ∧
    i.execute o h =
      ⟨o, h.write 4095 (Instruction.new .addf ⟨.indirect, -2⟩ ⟨.relative, 0⟩).toWord o.hue, .next,
        none⟩ := by
  intro i o h
  have hplaceA : i.a.place o = .cell o.here := by decide +kernel
  have hplaceB : i.b.place o = .cell o.here := by decide +kernel
  have hmode : i.b.mode ≠ .immediate := by decide
  have hword : (i.b.place o).content o h.memory = i.toWord := by decide +kernel
  have hop : Opcode.addf ∈ i.opcode? := by decide
  obtain ⟨halias, hcomputes, -⟩ := results_execute i o h
  have hvalue : i.a.read o h.memory = i.toWord := by
    rw [halias (hplaceA.trans hplaceB.symm) hmode, hword]
  obtain ⟨⟨w, -, hunique, hexecute⟩, -⟩ := hcomputes .addf hop (by decide)
  have hresult : Opcode.addf.Result i.toWord i.toWord
      (Instruction.new .addf ⟨.indirect, -2⟩ ⟨.relative, 0⟩).toWord := by decide +kernel
  rw [hword, hvalue] at hunique
  refine ⟨hplaceA, hplaceB, hmode, hvalue, ?_⟩
  rw [hexecute, hplaceB, ← hunique _ hresult]
  rfl

end Instruction

end Vivarium
