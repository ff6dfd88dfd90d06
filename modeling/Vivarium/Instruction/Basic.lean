import Vivarium.Instruction.Mode
import Vivarium.Instruction.Opcode
import Vivarium.Word.Fields

/-!
# Instructions

An instruction is a word read as opcode and two operands. Reading is total, since a code that no
opcode has is kept as it is; writing keeps of every part what fits its field.

* `Instruction.toWord_ofWord` : a word that is read is written back unchanged;
* `Instruction.ofWord_toWord` : an instruction that fits a word is read back from it;
* `Instruction.text` : the assembly text, which shows only the operands that matter.
-/

namespace Vivarium

/-- A mode and a number. In a word the number has twelve bits; here it may be any word. -/
structure Operand where
  mode : Mode
  value : Word
deriving DecidableEq, Repr

namespace Operand

def ofFields (mode : BitVec 2) (value : BitVec 12) : Operand :=
  ⟨.ofBits mode, Word.ofValue value⟩

/-- The mode's sigil before the signed number. -/
def text (x : Operand) : String := x.mode.sigil.toString ++ toString x.value.toInt

/-- What is read of an operand that was put into the fields of a word. -/
def truncated (x : Operand) : Operand := ofFields x.mode.toBits x.value.toValue

theorem truncated_of_fits {x : Operand} (h : Field.Fits x.value.toInt) : x.truncated = x := by
  rw [truncated, ofFields, Mode.ofBits_toBits, Word.ofValue_toValue h]

end Operand

/-- The number of an organism's registers. -/
abbrev registerCount : Nat := 4

/-- One of the registers. -/
abbrev Register := Fin registerCount

/-- The register that a number selects: its magnitude modulo four. -/
def Register.ofWord (v : Word) : Register :=
  ⟨v.toInt.natAbs % registerCount, Nat.mod_lt _ (by decide)⟩

/-- A code, which need not be assigned, with operands `a` and `b`. -/
structure Instruction where
  code : UInt8
  a : Operand
  b : Operand
deriving DecidableEq, Repr

namespace Instruction

def new (op : Opcode) (a b : Operand) : Instruction := ⟨op.code, a, b⟩

def opcode? (i : Instruction) : Option Opcode := Opcode.ofCode? i.code

def ofWord (w : Word) : Instruction :=
  let f := Fields.ofWord w
  ⟨⟨f.code.setWidth 8⟩, .ofFields f.modeA f.valueA, .ofFields f.modeB f.valueB⟩

def toFields (i : Instruction) : Fields where
  code := i.code.toBitVec.setWidth 4
  modeA := i.a.mode.toBits
  valueA := i.a.value.toValue
  modeB := i.b.mode.toBits
  valueB := i.b.value.toValue

def toWord (i : Instruction) : Word := i.toFields.toWord

/-- Assembly text. An unassigned code `n` is written `opn`. -/
def text (i : Instruction) : String :=
  match i.opcode? with
  | some .nop => "nop"
  | some .die => "die"
  | some .rand => "rand " ++ i.b.text
  | some .jmp => "jmp " ++ i.a.text
  | some .spwn => "spwn " ++ i.a.text
  | some op => op.mnemonic ++ " " ++ i.a.text ++ ", " ++ i.b.text
  | none => "op" ++ toString i.code.toNat ++ " " ++ i.a.text ++ ", " ++ i.b.text

theorem toFields_ofWord (w : Word) : (ofWord w).toFields = Fields.ofWord w := by
  apply Fields.ext
  · simp [ofWord, toFields]
  · exact Mode.toBits_ofBits _
  · exact Word.toValue_ofValue _
  · exact Mode.toBits_ofBits _
  · exact Word.toValue_ofValue _

theorem toWord_ofWord (w : Word) : (ofWord w).toWord = w := by
  rw [toWord, toFields_ofWord, Fields.toWord_ofWord]

/-- Of an instruction with a code of four bits, its word keeps the code, and of the operands what their
fields hold. -/
theorem ofWord_toWord_of_code {i : Instruction} (hc : i.code < 16) :
    ofWord i.toWord = ⟨i.code, i.a.truncated, i.b.truncated⟩ := by
  obtain ⟨c, a, b⟩ := i
  have hcode : (c.toBitVec.setWidth 4).setWidth 8 = c.toBitVec := by
    have hlt : c.toBitVec.toNat < 16 := UInt8.lt_iff_toNat_lt.mp hc
    apply BitVec.eq_of_toNat_eq
    rw [BitVec.toNat_setWidth, BitVec.toNat_setWidth]
    omega
  simp only [ofWord, toWord, Fields.ofWord_toWord, toFields, hcode, Operand.truncated]

/-- An instruction is read back from its word if its code has four bits and its numbers twelve. -/
theorem ofWord_toWord {i : Instruction} (hc : i.code < 16) (ha : Field.Fits i.a.value.toInt)
    (hb : Field.Fits i.b.value.toInt) : ofWord i.toWord = i := by
  rw [ofWord_toWord_of_code hc, Operand.truncated_of_fits ha, Operand.truncated_of_fits hb]

@[simp] theorem opcode?_new (op : Opcode) (a b : Operand) : (new op a b).opcode? = some op :=
  Opcode.ofCode?_code op

theorem ofWord_toWord_new (op : Opcode) {a b : Operand} (ha : Field.Fits a.value.toInt)
    (hb : Field.Fits b.value.toInt) : ofWord (new op a b).toWord = new op a b :=
  ofWord_toWord op.code_lt ha hb

end Instruction

end Vivarium
