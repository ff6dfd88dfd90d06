import Mathlib.Algebra.Group.Int.Even
import Vivarium.Proofs.Operands
import Vivarium.Proofs.Packing

/-!
# Instructions that are cut down to a word

An instruction may have numbers that no value field holds. What is left of it in a word does the same as
the instruction itself if each operand that it uses stands for the same after its number is cut down, and
that depends on the mode.

* `Register.ofWord_truncated_iff` : the numbers that select the same register as before;
* `Operand.alike_truncated_iff` : the operands that stand for the same as before;
* `Instruction.execute_ofWord_toWord` : an instruction does the same as the one that its word reads as.
-/

namespace Vivarium

/-! ## Numbers -/

/-- The ring is as large as the numbers in a value field are many. -/
theorem Address.ofWord_truncated (v : Word) : ofWord v.truncated = ofWord v := Word.toValue_ofValue _

/-- Of two integers that differ by a multiple of four, the magnitudes do so too if the integers are even or
of the same sign, and not otherwise. -/
theorem natAbs_mod_four_eq_iff {m n : ℤ} (h : m % 4 = n % 4) :
    m.natAbs % 4 = n.natAbs % 4 ↔ Even n ∨ m.sign = n.sign := by
  have hsign : ∀ k : ℤ, k < 0 ∧ k.sign = -1 ∨ k = 0 ∧ k.sign = 0 ∨ 0 < k ∧ k.sign = 1 := by
    intro k
    rcases Int.lt_trichotomy k 0 with hk | hk | hk
    · exact Or.inl ⟨hk, Int.sign_eq_neg_one_of_neg hk⟩
    · exact Or.inr (Or.inl ⟨hk, Int.sign_eq_zero_iff_zero.mpr hk⟩)
    · exact Or.inr (Or.inr ⟨hk, Int.sign_eq_one_of_pos hk⟩)
  have hm := hsign m
  have hn := hsign n
  rw [Int.even_iff]
  omega

theorem Register.ofWord_truncated_iff (v : Word) : ofWord v.truncated = ofWord v ↔
    Even v.toInt ∨ v.truncated.toInt.sign = v.toInt.sign := by
  have hmod : v.truncated.toInt % 4 = v.toInt % 4 := by
    rw [Word.toInt_truncated, Int.bmod]
    split_ifs <;> omega
  exact Fin.ext_iff.trans (natAbs_mod_four_eq_iff hmod)

/-! ## Operands -/

namespace Operand

theorem truncated_eq (x : Operand) : x.truncated = ⟨x.mode, x.value.truncated⟩ := by
  rw [truncated, ofFields, Mode.ofBits_toBits, Word.truncated]

/-- An operand stands for the same after its number is cut down, if the number is relative, or is
immediate and fits, or selects the same register as before. -/
theorem alike_truncated_iff (x : Operand) : x.truncated.Alike x ↔
    match x.mode with
    | .immediate => Field.Fits x.value.toInt
    | .relative => True
    | .register | .indirect =>
      Even x.value.toInt ∨ x.value.truncated.toInt.sign = x.value.toInt.sign := by
  rw [truncated_eq, alike_iff]
  cases x.mode with
  | immediate => exact x.value.truncated_eq_self_iff
  | relative => exact iff_true_intro (Address.ofWord_truncated _)
  | register | indirect => exact Register.ofWord_truncated_iff _

theorem alike_truncated (x : Operand) (hx : x.mode = .relative ∨ Field.Fits x.value.toInt) :
    x.truncated.Alike x := by
  rcases hx with hmode | hfits
  · rw [alike_truncated_iff, hmode]
    trivial
  · rw [truncated_of_fits hfits]
    exact Alike.refl x

end Operand

/-! ## Instructions -/

namespace Instruction

variable {i : Instruction}

theorem execute_ofWord_toWord_of_alike (hcode : i.code < 16)
    (hused : ∀ x ∈ i.used, x.truncated.Alike x) (o : Organism) (h : Habitat) :
    (ofWord i.toWord).execute o h = i.execute o h := by
  have hop : (⟨i.code, i.a.truncated, i.b.truncated⟩ : Instruction).opcode? = i.opcode? := rfl
  rw [ofWord_toWord_of_code hcode]
  refine execute_of_alike hop ?_ o h
  rw [used_map, List.forall₂_map_left_iff]
  exact List.forall₂_same.mpr hused

/-- An instruction with a code of four bits does the same as the one that its word reads as, if each
operand that it uses is relative or has a number that fits its field. The word keeps the modes and the
numbers modulo 4096, and with them the registers that are selected, unless a number is odd and changes its
sign. -/
theorem execute_ofWord_toWord (i : Instruction) (hcode : i.code < 16) :
    ((∀ x ∈ i.used, x.mode = .relative ∨ Field.Fits x.value.toInt) →
      ∀ o h, (ofWord i.toWord).execute o h = i.execute o h) ∧
    ∀ part ∈ [Instruction.a, Instruction.b],
      let x := part i
      let y := part (ofWord i.toWord)
      y.mode = x.mode ∧ y.value.toInt = x.value.toInt.bmod 4096 ∧
      (Register.ofWord y.value = Register.ofWord x.value ↔
        Even x.value.toInt ∨ y.value.toInt.sign = x.value.toInt.sign) := by
  refine ⟨fun hused => ?_, fun part hpart => ?_⟩
  · exact execute_ofWord_toWord_of_alike hcode fun x hx => x.alike_truncated (hused x hx)
  · have hy : part (ofWord i.toWord) = ⟨(part i).mode, (part i).value.truncated⟩ := by
      rw [ofWord_toWord_of_code hcode, ← Operand.truncated_eq]
      simp only [List.mem_cons, List.not_mem_nil, or_false] at hpart
      rcases hpart with rfl | rfl <;> rfl
    simp only [hy]
    exact ⟨trivial, Word.toInt_truncated _, Register.ofWord_truncated_iff _⟩

/-- A jump from the last cell over more than the whole ring. Its second operand, which it has no use for,
becomes negative in the word and selects another register there. -/
theorem execute_ofWord_toWord_far_jump :
    let i := Instruction.new .jmp ⟨.relative, 6000⟩ ⟨.register, 4095⟩
    let j := ofWord i.toWord
    let o := Organism.newborn 4095 0 ⟨7⟩
    let h : Habitat := ⟨.empty, .ofSeed 3 0, ⟨.one, 0⟩, 0⟩
    i.code < 16 ∧ (∀ x ∈ i.used, x.mode = .relative ∨ Field.Fits x.value.toInt) ∧
    j.execute o h = i.execute o h ∧ i.execute o h = ⟨o, h, .jump 1903, none⟩ ∧
    j.a = ⟨.relative, 1904⟩ ∧ j.b = ⟨.register, -1⟩ ∧ ¬ Field.Fits i.b.value.toInt ∧
    Register.ofWord j.b.value ≠ Register.ofWord i.b.value := by
  intro i j o h
  have hcode : i.code < 16 := by decide
  have hused : ∀ x ∈ i.used, x.mode = .relative ∨ Field.Fits x.value.toInt := by decide +kernel
  obtain ⟨hexecute, hparts⟩ := execute_ofWord_toWord i hcode
  obtain ⟨-, -, hregister⟩ := hparts Instruction.b (by simp)
  refine ⟨hcode, hused, hexecute hused o h, ?_, by decide +kernel, by decide +kernel, by decide, ?_⟩
  · have heffect : i.effect o h.memory 0 = .jump 1903 := by decide +kernel
    rw [execute_of_ne_rand (by decide), heffect]
    rfl
  · rw [ne_eq, hregister]
    decide +kernel

end Instruction

end Vivarium
