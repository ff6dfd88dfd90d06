import Mathlib.Algebra.Group.Action.Defs
import Mathlib.Algebra.Group.Prod
import Mathlib.Data.BitVec
import Vivarium.Proofs.Packing

/-!
# Sums of value fields

Adding the value fields of one word to those of another moves the numbers of the second word and nothing
else. So the pairs of numbers modulo 4096, which form a group, act on words.

* `Word.values`, `Word.move` : the pair of numbers in a word, and the word with its numbers moved by a pair;
* `Word.values_vadd`, `Word.addValues_eq` : how a movement changes the pair, and that a sum is the movement
  by the pair of the second word;
* `Word.addMasked` : a sum by shifts and masks, with `Word.addMasked_eq`;
* `Word.addValues_acts` : the laws of sums.
-/

namespace Vivarium

/-- A number for each of the two value fields. -/
abbrev Values := BitVec 12 × BitVec 12

namespace Word

def values (w : Word) : Values := ((Fields.ofWord w).valueA, (Fields.ofWord w).valueB)

/-- The word with `g` added to its pair of numbers. -/
def move (g : Values) (w : Word) : Word :=
  let f := Fields.ofWord w
  { f with valueA := f.valueA + g.1, valueB := f.valueB + g.2 }.toWord

theorem ofWord_move (g : Values) (w : Word) : Fields.ofWord (move g w) =
    { Fields.ofWord w with
      valueA := (Fields.ofWord w).valueA + g.1
      valueB := (Fields.ofWord w).valueB + g.2 } :=
  Fields.ofWord_toWord _

instance : AddAction Values Word where
  vadd := move
  zero_vadd w := by
    apply eq_of_ofWord
    refine (ofWord_move 0 w).trans ?_
    ext1
    · rfl
    · rfl
    · exact add_zero _
    · rfl
    · exact add_zero _
  add_vadd g h w := by
    apply eq_of_ofWord
    refine (ofWord_move (g + h) w).trans ((ofWord_move g (move h w)).trans ?_).symm
    rw [ofWord_move]
    ext1
    · rfl
    · rfl
    · exact (add_assoc _ _ _).trans (congrArg _ (add_comm _ _))
    · rfl
    · exact (add_assoc _ _ _).trans (congrArg _ (add_comm _ _))

theorem values_vadd (g : Values) (w : Word) : (g +ᵥ w).values = w.values + g := by
  have hfields := ofWord_move g w
  exact Prod.ext (congrArg Fields.valueA hfields) (congrArg Fields.valueB hfields)

theorem addValues_eq (d s : Word) : d.addValues s = s.values +ᵥ d := rfl

/-- Different pairs move a word to different words. -/
theorem vadd_left_inj {g h : Values} (w : Word) : g +ᵥ w = h +ᵥ w ↔ g = h := by
  constructor
  · intro heq
    have hvalues := congrArg values heq
    rw [values_vadd, values_vadd] at hvalues
    exact add_left_cancel hvalues
  · rintro rfl
    rfl

/-! ## Sums -/

variable (d s t : Word)

theorem values_addValues : (d.addValues s).values = d.values + s.values := by
  rw [addValues_eq, values_vadd]

theorem addValues_assoc : (d.addValues s).addValues t = d.addValues (s.addValues t) := by
  rw [addValues_eq, addValues_eq d s, addValues_eq d (s.addValues t), values_addValues, vadd_vadd,
    add_comm]

theorem addValues_right_comm :
    (d.addValues s).addValues t = (d.addValues t).addValues s := by
  rw [addValues_eq, addValues_eq d s, addValues_eq (d.addValues t), addValues_eq d t, vadd_vadd,
    vadd_vadd, add_comm]

theorem addValues_eq_addValues_iff : d.addValues s = d.addValues t ↔ s.values = t.values := by
  rw [addValues_eq, addValues_eq, vadd_left_inj]

theorem addValues_eq_self_iff : d.addValues s = d ↔ s.values = 0 := by
  rw [addValues_eq, ← vadd_left_inj d, zero_vadd]

/-- A word with the opposite numbers takes a sum back. -/
theorem addValues_addValues_of_neg (ht : t.values = -s.values) : (d.addValues s).addValues t = d := by
  rw [addValues_eq, addValues_eq d s, ht, neg_vadd_vadd]

end Word

/-! ## By shifts and masks -/

namespace Field

variable (f : Field) (d s : Word)

/-- Two fields that are added at the low end of a word make the sum of the fields, and a carry above it. -/
theorem setWidth_extract_add (hf : f.width ≤ 32) :
    (f.extract d + f.extract s).setWidth f.width = d.field f + s.field f := by
  rw [BitVec.setWidth_add _ _ hf, setWidth_extract f d hf, setWidth_extract f s hf]

theorem toNat_extract_lt : (f.extract d).toNat < 2 ^ f.width := by
  rw [extract_eq, BitVec.toNat_setWidth]
  exact Nat.lt_of_le_of_lt (Nat.mod_le _ _) (d.field f).isLt

theorem getLsbD_maskInPlace (i : Nat) : (BitVec.ofNat 32 f.maskInPlace).getLsbD i =
    (decide (i < 32) && decide (f.low ≤ i) && decide (i < f.low + f.width)) := by
  have hhigh : f.low ≤ i → (i - f.low < f.width ↔ i < f.low + f.width) := by omega
  rw [BitVec.getLsbD_ofNat, maskInPlace, mask, Nat.one_shiftLeft, Nat.testBit_shiftLeft,
    Nat.testBit_two_pow_sub_one]
  grind

end Field

namespace Word

/-- The word with the value fields masked out and two numbers put in their place. -/
def replaceValues (w x y : Word) : Word :=
  w &&& ~~~(BitVec.ofNat 32 Field.valueA.maskInPlace ||| BitVec.ofNat 32 Field.valueB.maskInPlace) |||
    Field.valueA.place x ||| Field.valueB.place y

/-- The sum by shifts and masks: the numbers of both words are added at the low end of a word and put into
the first word. -/
def addMasked (d s : Word) : Word :=
  d.replaceValues (Field.valueA.extract d + Field.valueA.extract s)
    (Field.valueB.extract d + Field.valueB.extract s)

theorem replaceValues_eq (w x y : Word) : w.replaceValues x y =
    pack (Field.code.extract w) (Field.modeA.extract w) x (Field.modeB.extract w) y := by
  apply BitVec.eq_of_getLsbD_eq
  intro i hi
  simp only [replaceValues, pack, BitVec.getLsbD_or, BitVec.getLsbD_and, BitVec.getLsbD_not,
    Field.getLsbD_maskInPlace, Field.getLsbD_place, Field.getLsbD_extract]
  grind

theorem addMasked_eq (d s : Word) : d.addMasked s = d.addValues s := by
  rw [addMasked, replaceValues_eq, pack_eq, addValues, Fields.truncate]
  congr 1
  ext1
  · exact Field.code.setWidth_extract d (by decide)
  · exact Field.modeA.setWidth_extract d (by decide)
  · exact Field.valueA.setWidth_extract_add d s (by decide)
  · exact Field.modeB.setWidth_extract d (by decide)
  · exact Field.valueB.setWidth_extract_add d s (by decide)

end Word

/-! ## What instructions see of sums -/

namespace Instruction

variable (i : Instruction) (x y : Word)

/-- The instruction with other numbers in its operands. -/
def withValues : Instruction := ⟨i.code, ⟨i.a.mode, x⟩, ⟨i.b.mode, y⟩⟩

theorem control_withValues : (i.withValues x y).code = i.code ∧
    (i.withValues x y).a.mode = i.a.mode ∧ (i.withValues x y).b.mode = i.b.mode :=
  ⟨rfl, rfl, rfl⟩

@[simp] theorem value_a_withValues : (i.withValues x y).a.value = x := rfl

@[simp] theorem value_b_withValues : (i.withValues x y).b.value = y := rfl

end Instruction

namespace Word

theorem ofValue_injective : Function.Injective ofValue :=
  Function.LeftInverse.injective toValue_ofValue

theorem values_eq_iff (v w : Word) : v.values = w.values ↔
    (Instruction.ofWord v).a.value = (Instruction.ofWord w).a.value ∧
    (Instruction.ofWord v).b.value = (Instruction.ofWord w).b.value :=
  Prod.ext_iff.trans (and_congr ofValue_injective.eq_iff.symm ofValue_injective.eq_iff.symm)

theorem values_eq_zero_iff (w : Word) : w.values = 0 ↔
    (Instruction.ofWord w).a.value = 0 ∧ (Instruction.ofWord w).b.value = 0 := by
  have hzero : ∀ v : BitVec 12, v = 0 ↔ ofValue v = 0 := by
    intro v
    rw [← ofValue_injective.eq_iff, show ofValue 0 = 0 by decide]
  exact Prod.ext_iff.trans (and_congr (hzero _) (hzero _))

/-- The instruction that a sum reads as. -/
theorem instruction_addValues (d s : Word) : Instruction.ofWord (d.addValues s) =
    (Instruction.ofWord d).withValues (ofValue (d.values.1 + s.values.1))
      (ofValue (d.values.2 + s.values.2)) := by
  rw [Instruction.ofWord, ofWord_addValues]
  rfl

theorem toInt_ofValue_add_modEq (x y : BitVec 12) :
    (ofValue (x + y)).toInt ≡ (ofValue x).toInt + (ofValue y).toInt [ZMOD 4096] := by
  rw [toInt_ofValue, toInt_ofValue, toInt_ofValue, BitVec.toInt_add]
  exact Int.bmod_emod

/-- The word of opposite numbers, with any code and any modes. -/
theorem values_truncate_neg (code modeA modeB s : Word) :
    (Fields.truncate code modeA (-(Instruction.ofWord s).a.value) modeB
      (-(Instruction.ofWord s).b.value)).toWord.values = -s.values := by
  have hneg : ∀ v : BitVec 12, toValue (-ofValue v) = -v := by
    intro v
    rw [toValue, BitVec.setWidth_neg_of_le (by decide)]
    exact congrArg _ (toValue_ofValue v)
  rw [values, Fields.ofWord_toWord]
  exact Prod.ext (hneg _) (hneg _)

/-- Sums of value fields keep the opcode and the modes of their first word, add the decoded numbers modulo
4096, and see nothing of their second word but its numbers. They can be grouped and ordered at will, are
without effect exactly if these numbers are zero, and are taken back by a word with the opposite numbers.
By shifts and masks they come to the same, and no sum on the way there leaves its 32 bits. -/
theorem addValues_acts (d s t : Word) :
    let i := Instruction.ofWord d
    let j := Instruction.ofWord s
    let k := Instruction.ofWord t
    let r := Instruction.ofWord (d.addValues s)
    (r.code = i.code ∧ r.a.mode = i.a.mode ∧ r.b.mode = i.b.mode) ∧
    (r.a.value.toInt ≡ i.a.value.toInt + j.a.value.toInt [ZMOD 4096] ∧
      r.b.value.toInt ≡ i.b.value.toInt + j.b.value.toInt [ZMOD 4096]) ∧
    (d.addValues s = d.addValues t ↔ j.a.value = k.a.value ∧ j.b.value = k.b.value) ∧
    (d.addValues s).addValues t = d.addValues (s.addValues t) ∧
    (d.addValues s).addValues t = (d.addValues t).addValues s ∧
    (d.addValues s = d ↔ j.a.value = 0 ∧ j.b.value = 0) ∧
    (∀ code modeA modeB : Word, (d.addValues s).addValues
      (Fields.truncate code modeA (-j.a.value) modeB (-j.b.value)).toWord = d) ∧
    d.addMasked s = d.addValues s ∧
    ∀ f ∈ [Field.valueA, Field.valueB], (f.extract d).toNat + (f.extract s).toNat < 2 ^ 32 := by
  intro i j k r
  have hr : r = i.withValues (ofValue (d.values.1 + s.values.1)) (ofValue (d.values.2 + s.values.2)) :=
    instruction_addValues d s
  refine ⟨?_, ?_, ?_, addValues_assoc d s t, addValues_right_comm d s t, ?_, ?_, addMasked_eq d s, ?_⟩
  · rw [hr]
    exact i.control_withValues _ _
  · rw [hr, Instruction.value_a_withValues, Instruction.value_b_withValues]
    exact ⟨toInt_ofValue_add_modEq _ _, toInt_ofValue_add_modEq _ _⟩
  · rw [addValues_eq_addValues_iff, values_eq_iff]
  · rw [addValues_eq_self_iff, values_eq_zero_iff]
  · intro code modeA modeB
    exact addValues_addValues_of_neg d s _ (values_truncate_neg code modeA modeB s)
  · intro f hf
    have hwidth : f.width ≤ 12 := by
      simp only [List.mem_cons, List.not_mem_nil, or_false] at hf
      rcases hf with rfl | rfl <;> decide
    have hpow : 2 ^ f.width ≤ 2 ^ 12 := Nat.pow_le_pow_right (by decide) hwidth
    have hd := f.toNat_extract_lt d
    have hs := f.toNat_extract_lt s
    omega

end Word

end Vivarium
