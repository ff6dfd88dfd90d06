import Vivarium.Word

/-!
# The five fields of a word

From the most significant bit on, a word is an opcode (4 bits), a mode and a value for operand `a`
(2 and 12 bits), and a mode and a value for operand `b` (2 and 12 bits).

* `Fields.ofWord_toWord`, `Fields.toWord_ofWord` : words and quintuples of fields correspond;
* `Word.ofValue`, `Word.toValue` : a value field is a twelve-bit two's complement number;
* `Word.addValues` : adds the value fields of two words, each modulo 4096 and apart from the rest.
-/

namespace Vivarium

/-- A run of bits inside a word. -/
structure Field where
  low : Nat
  width : Nat

namespace Field

/-- A field as it reads once shifted down to bit zero. -/
def mask (f : Field) : Nat := 1 <<< f.width - 1

/-- A field's bits where they stand in the word. -/
def maskInPlace (f : Field) : Nat := f.mask <<< f.low

abbrev code : Field := ⟨28, 4⟩
abbrev modeA : Field := ⟨26, 2⟩
abbrev valueA : Field := ⟨14, 12⟩
abbrev modeB : Field := ⟨12, 2⟩
abbrev valueB : Field := ⟨0, 12⟩

/-- The smallest number that a value field holds. -/
def least : Int := (BitVec.intMin 12).toInt

/-- The largest number that a value field holds. -/
def greatest : Int := (BitVec.intMax 12).toInt

/-- The integers that a value field holds without loss. -/
def Fits (n : Int) : Prop := least ≤ n ∧ n ≤ greatest

instance (n : Int) : Decidable (Fits n) := inferInstanceAs (Decidable (_ ∧ _))

theorem fits_iff (n : Int) : Fits n ↔ -2048 ≤ n ∧ n ≤ 2047 := by
  have hleast : least = -2048 := by decide
  have hgreatest : greatest = 2047 := by decide
  rw [Fits, hleast, hgreatest]

end Field

/-- A word taken apart. -/
@[ext]
structure Fields where
  code : BitVec 4
  modeA : BitVec 2
  valueA : BitVec 12
  modeB : BitVec 2
  valueB : BitVec 12
deriving DecidableEq, Repr

namespace Word

/-- The bits of one field. -/
def field (w : Word) (f : Field) : BitVec f.width := w.extractLsb' f.low f.width

/-- The number in a value field, as a word of the same sign. -/
def ofValue (v : BitVec 12) : Word := v.signExtend 32

/-- What is left of a word in a value field: its residue modulo 4096. -/
def toValue (w : Word) : BitVec 12 := w.setWidth 12

theorem toValue_ofValue (v : BitVec 12) : toValue (ofValue v) = v := by
  ext i hi
  simp only [toValue, ofValue, BitVec.getElem_setWidth, BitVec.getLsbD_signExtend]
  simp [hi, show i < 32 by omega]

theorem toInt_ofValue (v : BitVec 12) : (ofValue v).toInt = v.toInt :=
  BitVec.toInt_signExtend_of_le (by decide)

/-- A number that fits a value field comes back from it. -/
theorem ofValue_toValue {w : Word} (h : Field.Fits w.toInt) : ofValue (toValue w) = w := by
  obtain ⟨hlow, hhigh⟩ := (Field.fits_iff _).mp h
  rw [BitVec.toInt_eq_toNat_cond] at hlow hhigh
  apply BitVec.eq_of_toInt_eq
  rw [toInt_ofValue, toValue, BitVec.toInt_eq_toNat_cond, BitVec.toInt_eq_toNat_cond,
    BitVec.toNat_setWidth]
  split at hlow <;> split <;> omega

end Word

namespace Fields

def ofWord (w : Word) : Fields where
  code := Word.field w .code
  modeA := Word.field w .modeA
  valueA := Word.field w .valueA
  modeB := Word.field w .modeB
  valueB := Word.field w .valueB

def toWord (f : Fields) : Word := f.code ++ f.modeA ++ f.valueA ++ f.modeB ++ f.valueB

/-- Five words cut down to the widths of the fields. -/
def truncate (code modeA valueA modeB valueB : Word) : Fields :=
  ⟨code.setWidth 4, modeA.setWidth 2, Word.toValue valueA, modeB.setWidth 2, Word.toValue valueB⟩

/-- Which bit of which field each bit of a word is. -/
theorem getLsbD_toWord (f : Fields) (i : Nat) : f.toWord.getLsbD i =
    if i < 12 then f.valueB.getLsbD i
    else if i < 14 then f.modeB.getLsbD (i - 12)
    else if i < 26 then f.valueA.getLsbD (i - 14)
    else if i < 28 then f.modeA.getLsbD (i - 26)
    else f.code.getLsbD (i - 28) := by
  simp only [toWord, BitVec.getLsbD_append, Nat.sub_sub]
  repeat' split
  all_goals first | rfl | omega

theorem ofWord_toWord (f : Fields) : ofWord f.toWord = f := by
  obtain ⟨c, m, a, n, b⟩ := f
  simp only [ofWord, Word.field, Fields.mk.injEq]
  refine ⟨?_, ?_, ?_, ?_, ?_⟩
  all_goals
    apply BitVec.eq_of_getLsbD_eq
    intro i hi
    simp only [BitVec.getLsbD_extractLsb', getLsbD_toWord, hi, decide_true, Bool.true_and,
      Nat.zero_add, Nat.add_sub_cancel_left, if_true]
    repeat' split
  all_goals first | rfl | omega

theorem toWord_ofWord (w : Word) : (ofWord w).toWord = w := by
  apply BitVec.eq_of_getLsbD_eq
  intro i hi
  simp only [getLsbD_toWord, ofWord, Word.field, BitVec.getLsbD_extractLsb', Nat.zero_add]
  repeat' split
  · rw [decide_eq_true (by omega), Bool.true_and]
  all_goals rw [decide_eq_true (by omega), Bool.true_and, Nat.add_sub_cancel' (by omega)]

end Fields

namespace Word

/-- Adds the value fields of `s` to those of `d`. No carry leaves a field, and the opcode and the
modes are those of `d`. -/
def addValues (d s : Word) : Word :=
  let f := Fields.ofWord d
  let g := Fields.ofWord s
  { f with valueA := f.valueA + g.valueA, valueB := f.valueB + g.valueB }.toWord

/-- The fields of a sum: the numbers are added, each modulo 4096, and the others are those of the first
word. -/
theorem ofWord_addValues (d v : Word) : Fields.ofWord (d.addValues v) =
    { Fields.ofWord d with
      valueA := (Fields.ofWord d).valueA + (Fields.ofWord v).valueA
      valueB := (Fields.ofWord d).valueB + (Fields.ofWord v).valueB } :=
  Fields.ofWord_toWord _

/-- A word is determined by its fields. -/
theorem eq_of_ofWord {v w : Word} (h : Fields.ofWord v = Fields.ofWord w) : v = w := by
  rw [← Fields.toWord_ofWord v, ← Fields.toWord_ofWord w, h]

end Word

end Vivarium
