import Mathlib.Data.Int.ModEq
import Mathlib.Data.Set.Function
import Vivarium.Instruction.Basic

/-!
# Packing

Five numbers of any size make a word, each cut down to the width of its field, and are read back from it
without a trace of the others.

* `Field.extract`, `Field.place`, `Word.pack`, `Word.extendSign` : the fields of a word by shifts and
  masks; `Word.pack_eq`, `Instruction.unpack_eq`, `Instruction.pack_eq` : they are those of `Fields`;
* `Operand.Cut` : an operand that two numbers are cut down to;
* `Instruction.cut_ofWord` : what is read of five numbers in a word;
* `Instruction.Encodable` : the instructions that a word holds without loss;
* `Instruction.packed_apart` : words are read field by field, and correspond to these instructions.
-/

namespace Vivarium

/-! ## Shifts and masks -/

namespace Field

/-- As many low bits as the field is wide. -/
def maskWord (f : Field) : Word := BitVec.ofNat 32 f.mask

/-- The field of a word, shifted down to bit zero. -/
def extract (f : Field) (w : Word) : Word := w >>> f.low &&& f.maskWord

/-- The part of a number that fits the field, shifted up to where the field stands. -/
def place (f : Field) (v : Word) : Word := (v &&& f.maskWord) <<< f.low

variable (f : Field) (w : Word)

theorem getLsbD_maskWord (i : Nat) :
    f.maskWord.getLsbD i = (decide (i < 32) && decide (i < f.width)) := by
  rw [maskWord, BitVec.getLsbD_ofNat, mask, Nat.one_shiftLeft, Nat.testBit_two_pow_sub_one]

theorem and_maskWord : w &&& f.maskWord = (w.setWidth f.width).setWidth 32 := by
  apply BitVec.eq_of_getLsbD_eq
  intro i hi
  rw [BitVec.getLsbD_and, getLsbD_maskWord, BitVec.getLsbD_setWidth, BitVec.getLsbD_setWidth,
    decide_eq_true hi, Bool.true_and, Bool.true_and, Bool.and_comm]

theorem extract_eq : f.extract w = (w.field f).setWidth 32 := by
  have hfield : (w >>> f.low).setWidth f.width = w.field f := by
    apply BitVec.eq_of_getLsbD_eq
    intro i hi
    simp only [Word.field, BitVec.getLsbD_setWidth, BitVec.getLsbD_ushiftRight,
      BitVec.getLsbD_extractLsb']
  rw [extract, and_maskWord, hfield]

theorem getLsbD_extract (i : Nat) : (f.extract w).getLsbD i =
    (decide (i < 32) && decide (i < f.width) && w.getLsbD (f.low + i)) := by
  rw [extract_eq, BitVec.getLsbD_setWidth, Word.field, BitVec.getLsbD_extractLsb', Bool.and_assoc]

theorem setWidth_extract (hf : f.width ≤ 32) : (f.extract w).setWidth f.width = w.field f := by
  rw [extract_eq, BitVec.setWidth_setWidth_of_le _ hf, BitVec.setWidth_eq]

theorem getLsbD_place (i : Nat) : (f.place w).getLsbD i =
    (decide (i < 32) && decide (f.low ≤ i) && decide (i < f.low + f.width) && w.getLsbD (i - f.low)) := by
  rw [place, BitVec.getLsbD_shiftLeft, BitVec.getLsbD_and, getLsbD_maskWord]
  by_cases hlow : i < f.low
  · simp [hlow]
  · have hhigh : i - f.low < f.width ↔ i < f.low + f.width := by omega
    simp only [hlow, hhigh, Nat.not_lt.mp hlow]
    grind

end Field

namespace Word

/-- Five numbers in one word. -/
def pack (code modeA valueA modeB valueB : Word) : Word :=
  Field.code.place code ||| Field.modeA.place modeA ||| Field.valueA.place valueA |||
    Field.modeB.place modeB ||| Field.valueB.place valueB

/-- The low twelve bits of a word, less 4096 if the highest of them is set. -/
def extendSign (v : Word) : Word :=
  let v := v &&& Field.valueA.maskWord
  if v &&& BitVec.twoPow 32 11 = 0 then v else v - BitVec.twoPow 32 12

theorem pack_eq (code modeA valueA modeB valueB : Word) :
    pack code modeA valueA modeB valueB =
      (Fields.truncate code modeA valueA modeB valueB).toWord := by
  apply BitVec.eq_of_getLsbD_eq
  intro i hi
  simp only [pack, BitVec.getLsbD_or, Field.getLsbD_place, Fields.getLsbD_toWord, Fields.truncate,
    toValue, BitVec.getLsbD_setWidth]
  -- Of the five bits in the disjunction four are outside their field.
  grind

theorem extendSign_eq (v : Word) : extendSign v = ofValue v.toValue := by
  have hmask : v &&& Field.valueA.maskWord = v.toValue.setWidth 32 := Field.and_maskWord _ v
  simp only [extendSign, hmask]
  generalize v.toValue = x
  have hx := x.isLt
  have hwide : (x.setWidth 32).toNat = x.toNat := by
    rw [BitVec.toNat_setWidth]
    omega
  have hsign : x.setWidth 32 &&& BitVec.twoPow 32 11 = 0 ↔ x.toNat < 2048 := by
    have hbit : (x.setWidth 32).getLsbD 11 = decide (x.toNat / 2048 % 2 = 1) := by
      rw [BitVec.getLsbD, hwide, Nat.testBit_eq_decide_div_mod_eq]
    rw [BitVec.and_twoPow, hbit]
    split_ifs with hodd
    · rw [decide_eq_true_eq] at hodd
      exact iff_of_false (by decide) (by omega)
    · rw [decide_eq_true_eq] at hodd
      exact iff_of_true rfl (by omega)
  have htwo : (BitVec.twoPow 32 12).toNat = 4096 := by decide
  apply BitVec.eq_of_toInt_eq
  rw [toInt_ofValue, BitVec.toInt_eq_toNat_cond, BitVec.toInt_eq_toNat_cond]
  by_cases hlow : x.toNat < 2048
  · rw [if_pos (hsign.mpr hlow), hwide]
    split_ifs <;> omega
  · rw [if_neg (mt hsign.mp hlow), BitVec.toNat_sub, hwide, htwo]
    split_ifs <;> omega

end Word

namespace Instruction

/-- A word read by shifts and masks. -/
def unpack (w : Word) : Instruction where
  code := ⟨(Field.code.extract w).setWidth 8⟩
  a := ⟨.ofBits ((Field.modeA.extract w).setWidth 2), Word.extendSign (Field.valueA.extract w)⟩
  b := ⟨.ofBits ((Field.modeB.extract w).setWidth 2), Word.extendSign (Field.valueB.extract w)⟩

/-- The numbers of an instruction in one word. -/
def pack (i : Instruction) : Word :=
  Word.pack (i.code.toBitVec.setWidth 32) (i.a.mode.toBits.setWidth 32) i.a.value
    (i.b.mode.toBits.setWidth 32) i.b.value

theorem unpack_eq (w : Word) : unpack w = ofWord w := by
  have hvalue : ∀ v : BitVec 12, Word.extendSign (v.setWidth 32) = Word.ofValue v := by
    intro v
    rw [Word.extendSign_eq, Word.toValue, BitVec.setWidth_setWidth_of_le _ (by decide),
      BitVec.setWidth_eq]
  simp only [unpack, Field.extract_eq, hvalue]
  simp only [ofWord, Fields.ofWord, Operand.ofFields, BitVec.setWidth_setWidth_of_le _ (by decide : 8 ≤ 32),
    BitVec.setWidth_setWidth_of_le _ (by decide : 2 ≤ 32), BitVec.setWidth_eq]

theorem pack_eq (i : Instruction) : i.pack = i.toWord := by
  rw [pack, Word.pack_eq, toWord]
  simp only [Fields.truncate, toFields, BitVec.setWidth_setWidth_of_le _ (by decide : 4 ≤ 32),
    BitVec.setWidth_setWidth_of_le _ (by decide : 2 ≤ 32), BitVec.setWidth_eq]

end Instruction

/-! ## Numbers that are cut down -/

namespace Word

theorem fits_ofValue (v : BitVec 12) : Field.Fits (ofValue v).toInt := by
  have hlow := BitVec.le_toInt v
  have hhigh := BitVec.toInt_lt (x := v)
  rw [toInt_ofValue, Field.fits_iff]
  omega

/-- A number that is cut down to a value field and read back. -/
def truncated (v : Word) : Word := ofValue v.toValue

theorem toInt_truncated (v : Word) : v.truncated.toInt = v.toInt.bmod 4096 := by
  rw [truncated, toInt_ofValue, toValue, BitVec.toInt_setWidth, BitVec.toInt_eq_toNat_bmod]
  exact (Int.bmod_bmod_of_dvd (by decide)).symm

theorem truncated_eq_self_iff (v : Word) : v.truncated = v ↔ Field.Fits v.toInt :=
  ⟨fun h => h ▸ fits_ofValue _, ofValue_toValue⟩

end Word

namespace Operand

/-- The operand is what two numbers are cut down to: the mode has the two low bits of the first, and the
value is the only number that fits its field and is the second number modulo 4096. -/
structure Cut (mode value : Word) (x : Operand) : Prop where
  mode : x.mode.toBits.toNat = mode.toNat % 4
  value : ∀ n : ℤ, -2048 ≤ n ∧ n ≤ 2047 ∧ n ≡ value.toInt [ZMOD 4096] ↔ n = x.value.toInt

variable {mode value mode' value' : Word} {x y : Operand}

theorem cut_ofFields (mode value : Word) :
    (ofFields (mode.setWidth 2) value.toValue).Cut mode value := by
  refine ⟨?_, fun n => ?_⟩
  · rw [ofFields, Mode.toBits_ofBits, BitVec.toNat_setWidth]
  · rw [ofFields, ← Word.truncated, Word.toInt_truncated, Int.ModEq, Int.bmod]
    split_ifs <;> omega

theorem Cut.value_eq (h : x.Cut mode value) (hfits : Field.Fits value.toInt) : x.value = value := by
  obtain ⟨hlow, hhigh⟩ := (Field.fits_iff _).mp hfits
  exact (BitVec.eq_of_toInt_eq ((h.value _).mp ⟨hlow, hhigh, Int.ModEq.refl _⟩)).symm

theorem Cut.mode_eq_iff (hx : x.Cut mode value) (hy : y.Cut mode' value') :
    x.mode = y.mode ↔ mode.toNat % 4 = mode'.toNat % 4 := by
  have hinj : x.mode.toBits = y.mode.toBits ↔ x.mode = y.mode :=
    (Function.LeftInverse.injective Mode.ofBits_toBits).eq_iff
  rw [← hx.mode, ← hy.mode, BitVec.toNat_inj, hinj]

theorem Cut.value_eq_iff (hx : x.Cut mode value) (hy : y.Cut mode' value') :
    x.value = y.value ↔ value.toInt ≡ value'.toInt [ZMOD 4096] := by
  obtain ⟨hlow, hhigh, hmod⟩ := (hx.value _).mpr rfl
  obtain ⟨-, -, hmod'⟩ := (hy.value _).mpr rfl
  constructor
  · intro heq
    rw [heq] at hmod
    exact hmod.symm.trans hmod'
  · intro hcong
    exact BitVec.eq_of_toInt_eq ((hy.value _).mp ⟨hlow, hhigh, hmod.trans hcong⟩)

end Operand

/-! ## Instructions and words -/

namespace Instruction

/-- The instruction is what five numbers are cut down to. -/
structure Cut (code modeA valueA modeB valueB : Word) (i : Instruction) : Prop where
  code : i.code.toNat = code.toNat % 16
  a : i.a.Cut modeA valueA
  b : i.b.Cut modeB valueB

theorem cut_ofWord (code modeA valueA modeB valueB : Word) :
    Cut code modeA valueA modeB valueB
      (ofWord (Fields.truncate code modeA valueA modeB valueB).toWord) := by
  simp only [ofWord, Fields.ofWord_toWord, Fields.truncate]
  refine ⟨?_, Operand.cut_ofFields _ _, Operand.cut_ofFields _ _⟩
  show ((code.setWidth 4).setWidth 8).toNat = _
  rw [BitVec.toNat_setWidth, BitVec.toNat_setWidth]
  omega

/-- The code that is read stands in the four highest bits. -/
theorem toNat_code_ofWord (w : Word) : (ofWord w).code.toNat = w.toNat / 2 ^ 28 := by
  have hw := w.isLt
  show ((w.extractLsb' 28 4).setWidth 8).toNat = _
  rw [BitVec.toNat_setWidth, BitVec.extractLsb'_toNat, Nat.shiftRight_eq_div_pow]
  omega

/-- A word holds the instruction without loss. -/
structure Encodable (i : Instruction) : Prop where
  code : i.code < 16
  a : Field.Fits i.a.value.toInt
  b : Field.Fits i.b.value.toInt

theorem encodable_ofWord (w : Word) : (ofWord w).Encodable := by
  refine ⟨?_, Word.fits_ofValue _, Word.fits_ofValue _⟩
  have hw := w.isLt
  rw [UInt8.lt_iff_toNat_lt, toNat_code_ofWord]
  show w.toNat / 2 ^ 28 < 16
  omega

theorem invOn_toWord_ofWord : Set.InvOn toWord ofWord Set.univ {i | i.Encodable} :=
  ⟨fun w _ => toWord_ofWord w, fun _ hi => ofWord_toWord hi.code hi.a hi.b⟩

/-- Five numbers are packed into a word and read back from it, each cut down to its field, so that a part
of what is read changes only with its own number. Every word is written back as it was read, also if its
code is unassigned, and words correspond one to one to the instructions with a code of four bits and
numbers of twelve. By shifts and masks all this comes to the same. -/
theorem packed_apart :
    (∀ code modeA valueA modeB valueB : Word,
      let i := ofWord (Fields.truncate code modeA valueA modeB valueB).toWord
      i.Cut code modeA valueA modeB valueB ∧
      (Field.Fits valueA.toInt → i.a.value = valueA) ∧
      (Field.Fits valueB.toInt → i.b.value = valueB) ∧
      ∀ code' modeA' valueA' modeB' valueB' : Word,
        let j := ofWord (Fields.truncate code' modeA' valueA' modeB' valueB').toWord
        (i.code = j.code ↔ code.toNat % 16 = code'.toNat % 16) ∧
        (i.a.mode = j.a.mode ↔ modeA.toNat % 4 = modeA'.toNat % 4) ∧
        (i.a.value = j.a.value ↔ valueA.toInt ≡ valueA'.toInt [ZMOD 4096]) ∧
        (i.b.mode = j.b.mode ↔ modeB.toNat % 4 = modeB'.toNat % 4) ∧
        (i.b.value = j.b.value ↔ valueB.toInt ≡ valueB'.toInt [ZMOD 4096])) ∧
    (∀ w : Word, (ofWord w).toWord = w ∧ (ofWord w).code.toNat = w.toNat / 2 ^ 28 ∧
      ((ofWord w).opcode? = none ↔ (ofWord w).code = 12 ∨ (ofWord w).code = 13)) ∧
    Set.InvOn toWord ofWord Set.univ {i | i.Encodable} ∧
    Set.BijOn ofWord Set.univ {i | i.Encodable} ∧
    (∀ code modeA valueA modeB valueB : Word, Word.pack code modeA valueA modeB valueB =
      (Fields.truncate code modeA valueA modeB valueB).toWord) ∧
    (∀ w, unpack w = ofWord w) ∧ ∀ i : Instruction, i.pack = i.toWord := by
  refine ⟨?_, ?_, invOn_toWord_ofWord, ?_, Word.pack_eq, unpack_eq, pack_eq⟩
  · intro code modeA valueA modeB valueB i
    have hi : i.Cut code modeA valueA modeB valueB := cut_ofWord _ _ _ _ _
    refine ⟨hi, hi.a.value_eq, hi.b.value_eq, ?_⟩
    intro code' modeA' valueA' modeB' valueB' j
    have hj : j.Cut code' modeA' valueA' modeB' valueB' := cut_ofWord _ _ _ _ _
    refine ⟨?_, hi.a.mode_eq_iff hj.a, hi.a.value_eq_iff hj.a, hi.b.mode_eq_iff hj.b,
      hi.b.value_eq_iff hj.b⟩
    rw [← hi.code, ← hj.code, UInt8.toNat_inj]
  · intro w
    have hcode : ¬ 15 < (ofWord w).code := by
      have hlt := (encodable_ofWord w).code
      rw [UInt8.lt_iff_toNat_lt] at hlt ⊢
      exact Nat.not_lt.mpr (Nat.le_of_lt_succ hlt)
    refine ⟨toWord_ofWord w, toNat_code_ofWord w, ?_⟩
    rw [opcode?, Opcode.ofCode?_eq_none_iff]
    simp only [hcode, or_false]
  · exact invOn_toWord_ofWord.bijOn (fun w _ => encodable_ofWord w) fun _ _ => Set.mem_univ _

end Instruction

end Vivarium
