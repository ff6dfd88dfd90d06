import Vivarium.Text.Hex

/-!
# Opcodes

Fourteen of the sixteen four-bit codes are assigned. The other two, and every code that does not
fit four bits, are still legal in an instruction and do nothing there.

* `Opcode.code`, `Opcode.ofCode?` : the number of an opcode and back;
* `Opcode.ofCode` : the same with the refusal as a value.
-/

namespace Vivarium

/-- What an instruction does. -/
inductive Opcode
  /-- Nothing. -/
  | nop
  /-- Copies `a` into `b`. -/
  | mov
  /-- Adds `a` to `b`. -/
  | add
  /-- Subtracts `a` from `b`. -/
  | sub
  /-- Jumps to the cell `a`. -/
  | jmp
  /-- Jumps to the cell `a` if `b` is zero. -/
  | jz
  /-- Jumps to the cell `a` unless `b` is zero. -/
  | jnz
  /-- Asks for a child at the cell `a`. -/
  | spwn
  /-- Skips the next word if `a` and `b` are equal. -/
  | seq
  /-- Skips the next word unless `a` and `b` are equal. -/
  | sne
  /-- Puts a random address into `b`. -/
  | rand
  /-- Changes a setting of the world: command `a`, argument `b`. -/
  | sys
  /-- Adds the value fields of `a` to those of `b`. -/
  | addf
  /-- Ends the organism. -/
  | die
deriving DecidableEq, Repr

namespace Opcode

/-- All opcodes, by rising code. -/
def all : List Opcode :=
  [nop, mov, add, sub, jmp, jz, jnz, spwn, seq, sne, rand, sys, addf, die]

def code : Opcode → UInt8
  | nop => 0
  | mov => 1
  | add => 2
  | sub => 3
  | jmp => 4
  | jz => 5
  | jnz => 6
  | spwn => 7
  | seq => 8
  | sne => 9
  | rand => 10
  | sys => 11
  | addf => 14
  | die => 15

/-- The opcode of that code, if the code is assigned. -/
def ofCode? : UInt8 → Option Opcode
  | 0 => some nop
  | 1 => some mov
  | 2 => some add
  | 3 => some sub
  | 4 => some jmp
  | 5 => some jz
  | 6 => some jnz
  | 7 => some spwn
  | 8 => some seq
  | 9 => some sne
  | 10 => some rand
  | 11 => some sys
  | 14 => some addf
  | 15 => some die
  | _ => none

def mnemonic : Opcode → String
  | nop => "nop"
  | mov => "mov"
  | add => "add"
  | sub => "sub"
  | jmp => "jmp"
  | jz => "jz"
  | jnz => "jnz"
  | spwn => "spwn"
  | seq => "seq"
  | sne => "sne"
  | rand => "rand"
  | sys => "sys"
  | addf => "addf"
  | die => "die"

/-- A byte that is no opcode's code. -/
structure Unassigned where
  code : UInt8
deriving DecidableEq, Repr

def Unassigned.message (e : Unassigned) : String :=
  "Invalid opcode: 0x" ++ Hex.shortest e.code.toNat

def ofCode (c : UInt8) : Except Unassigned Opcode :=
  match ofCode? c with
  | some op => .ok op
  | none => .error ⟨c⟩

theorem mem_all (op : Opcode) : op ∈ all := by
  cases op <;> decide

theorem ofCode?_code (op : Opcode) : ofCode? op.code = some op := by
  cases op <;> rfl

theorem code_lt (op : Opcode) : op.code < 16 := by
  cases op <;> decide

theorem code_eq_of_ofCode? {c : UInt8} {op : Opcode} (h : ofCode? c = some op) : op.code = c := by
  unfold ofCode? at h
  split at h <;> simp at h <;> subst h <;> rfl

theorem ofCode?_eq_none_iff (c : UInt8) : ofCode? c = none ↔ c = 12 ∨ c = 13 ∨ 15 < c := by
  have key : ∀ b : BitVec 8, ofCode? ⟨b⟩ = none ↔ b = 12 ∨ b = 13 ∨ 15 < b := by decide +kernel
  obtain ⟨b⟩ := c
  rw [key, UInt8.lt_iff_toBitVec_lt, ← UInt8.toBitVec_inj, ← UInt8.toBitVec_inj]
  rfl

end Opcode

end Vivarium
