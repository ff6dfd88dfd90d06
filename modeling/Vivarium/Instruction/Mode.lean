import Vivarium.Word

/-!
# Addressing modes

An operand is read in one of four modes, and every pattern of two bits is one of them.

* `Mode.ofBits`, `Mode.toBits` : the two-bit pattern, in both directions;
* `Mode.ofCode` : the strict reading of a byte, which refuses numbers above three.
-/

namespace Vivarium

/-- How an operand's number is to be taken. -/
inductive Mode
  /-- The number itself. -/
  | immediate
  /-- The cell that many places after the instruction. -/
  | relative
  /-- The register that the number selects. -/
  | register
  /-- The cell whose number stands in that register. -/
  | indirect
deriving DecidableEq, Repr

namespace Mode

def all : List Mode := [immediate, relative, register, indirect]

def toBits : Mode → BitVec 2
  | immediate => 0
  | relative => 1
  | register => 2
  | indirect => 3

def ofBits (b : BitVec 2) : Mode :=
  if b = 0 then immediate else if b = 1 then relative else if b = 2 then register else indirect

/-- The width of a mode's pattern. -/
def width : Nat := 2

/-- The character that marks an operand of this mode. -/
def sigil : Mode → Char
  | immediate => '#'
  | relative => '$'
  | register => '%'
  | indirect => '@'

def name : Mode → String
  | immediate => "immediate"
  | relative => "relative"
  | register => "register"
  | indirect => "reg-indirect"

/-- A byte that is no mode's number. -/
structure Unknown where
  code : UInt8
deriving DecidableEq, Repr

def Unknown.message (e : Unknown) : String := s!"Invalid addressing mode: {e.code}"

/-- The mode of that number. -/
def ofCode (c : UInt8) : Except Unknown Mode :=
  if c < 4 then .ok (ofBits (c.toBitVec.setWidth 2)) else .error ⟨c⟩

theorem mem_all (m : Mode) : m ∈ all := by
  cases m <;> decide

theorem ofBits_toBits (m : Mode) : ofBits m.toBits = m := by
  cases m <;> rfl

theorem toBits_ofBits : ∀ b : BitVec 2, (ofBits b).toBits = b := by
  decide

end Mode

end Vivarium
