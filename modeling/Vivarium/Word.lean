/-!
# Words and addresses

The soup is a ring of 4096 cells, each holding one word.

* `Word` : thirty-two bits, read as signed (`BitVec.toInt`) where a sign matters;
* `Address` : twelve bits, so that address arithmetic is arithmetic modulo 4096;
* `Address.ofInt`, `Address.ofUInt64`, `Address.ofWord` : any integer names a cell, by its residue;
* `Address.check` : the strict reading, which refuses a number outside the ring.
-/

namespace Vivarium

/-- What one cell holds. -/
abbrev Word := BitVec 32

/-- The place of a cell on the ring. -/
abbrev Address := BitVec 12

namespace Address

/-- The number of cells on the ring. -/
abbrev count : Nat := 4096

/-- The cell that a signed number names. -/
def ofInt (n : Int) : Address := BitVec.ofInt 12 n

/-- The cell that a machine address names: the ring divides `2 ^ 64`, so a number and its signed
reading name the same cell. -/
def ofUInt64 (n : UInt64) : Address := n.toBitVec.setWidth 12

/-- The cell that a word names, with or without its sign. -/
def ofWord (w : Word) : Address := w.setWidth 12

/-- The machine address of a cell. -/
def toUInt64 (a : Address) : UInt64 := ⟨a.setWidth 64⟩

/-- A number that was required to lie inside the ring and does not. -/
structure OutOfRange where
  given : UInt64
deriving DecidableEq, Repr

def OutOfRange.message (e : OutOfRange) : String :=
  s!"Address out of range: {e.given} (valid range: 0-4095)"

/-- Accepts a number only if it is already the number of a cell. -/
def check (n : UInt64) : Except OutOfRange Address :=
  if n.toNat < count then .ok (ofUInt64 n) else .error ⟨n⟩

theorem toNat_ofUInt64 (n : UInt64) : (ofUInt64 n).toNat = n.toNat % count := by
  rw [ofUInt64, BitVec.toNat_setWidth]
  rfl

@[simp] theorem ofUInt64_toUInt64 (a : Address) : ofUInt64 a.toUInt64 = a := by
  apply BitVec.eq_of_toNat_eq
  have := a.isLt
  simp [ofUInt64, toUInt64]

@[simp] theorem toNat_toUInt64 (a : Address) : a.toUInt64.toNat = a.toNat := by
  have := a.isLt
  simp [toUInt64, UInt64.toNat, BitVec.toNat_setWidth]
  omega

theorem toNat_toUInt64_lt (a : Address) : a.toUInt64.toNat < count := by
  rw [toNat_toUInt64]
  exact a.isLt

end Address

end Vivarium
