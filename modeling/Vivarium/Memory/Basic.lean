import Vivarium.Hue
import Vivarium.Text.Hex
import Vivarium.Word

/-!
# The soup

Each cell of the ring holds a word and, if an organism wrote it last, that organism's hue.

* `Memory.cell`, `Memory.set` : one cell, with `Memory.cell_set` as their law;
* `Memory.load`, `Memory.window` : runs of cells round the ring;
* `Memory.read`, `Memory.store` : the same by machine address, refused outside the ring;
* `Memory.ofTables` : a soup from a table of words and a table of owners.
-/

namespace Vivarium

/-- A word and the hue of its writer. A word that was loaded has no writer. -/
structure Cell where
  word : Word
  owner : Option Hue
deriving DecidableEq, Repr

/-- The ring of cells. -/
structure Memory where
  cells : Vector Cell Address.count
deriving DecidableEq

/-- A machine address outside the ring. -/
structure OutOfBounds where
  address : UInt64
deriving DecidableEq, Repr

def OutOfBounds.message (e : OutOfBounds) : String :=
  "Memory out of bounds: address 0x" ++ Hex.shortest e.address.toNat

namespace Memory

/-- All words zero and nothing owned. -/
def empty : Memory := ⟨Vector.replicate Address.count ⟨0, none⟩⟩

def cell (m : Memory) (a : Address) : Cell :=
  have := a.isLt
  m.cells[a.toNat]

def word (m : Memory) (a : Address) : Word := (m.cell a).word

def owner (m : Memory) (a : Address) : Option Hue := (m.cell a).owner

def set (m : Memory) (a : Address) (c : Cell) : Memory :=
  ⟨m.cells.set a.toNat c a.isLt⟩

/-- Puts words into consecutive cells from `a` on, round the ring, and takes their owners away. -/
def load (m : Memory) (a : Address) : List Word → Memory
  | [] => m
  | w :: ws => (m.set a ⟨w, none⟩).load (a + 1) ws

/-- The words of `n` consecutive cells from `a` on, round the ring. -/
def window (m : Memory) (a : Address) (n : Nat) : List Word :=
  (List.range n).map fun i => m.word (a + BitVec.ofNat 12 i)

def words (m : Memory) : List Word := m.cells.toList.map Cell.word

def owners (m : Memory) : List (Option Hue) := m.cells.toList.map Cell.owner

/-- The number of cells that an organism wrote last. -/
def ownedCount (m : Memory) : Nat := m.cells.toList.countP fun c => c.owner.isSome

/-! ## Machine addresses -/

def read (m : Memory) (n : UInt64) : Except OutOfBounds Word :=
  if n.toNat < Address.count then .ok (m.word (.ofUInt64 n)) else .error ⟨n⟩

def store (m : Memory) (n : UInt64) (c : Cell) : Except OutOfBounds Memory :=
  if n.toNat < Address.count then .ok (m.set (.ofUInt64 n) c) else .error ⟨n⟩

/-- The owner of a cell; nothing outside the ring is owned. -/
def ownerAt (m : Memory) (n : UInt64) : Option Hue :=
  if n.toNat < Address.count then m.owner (.ofUInt64 n) else none

/-! ## Laws -/

theorem cell_set (m : Memory) (a b : Address) (c : Cell) :
    (m.set a c).cell b = if a = b then c else m.cell b := by
  simp only [cell, set, Vector.getElem_set, BitVec.toNat_inj]

@[simp] theorem cell_set_self (m : Memory) (a : Address) (c : Cell) : (m.set a c).cell a = c := by
  simp [cell_set]

theorem cell_set_ne (m : Memory) {a b : Address} (c : Cell) (h : a ≠ b) :
    (m.set a c).cell b = m.cell b := by
  simp [cell_set, h]

theorem word_set (m : Memory) (a b : Address) (c : Cell) :
    (m.set a c).word b = if a = b then c.word else m.word b := by
  rw [word, cell_set]
  split <;> rfl

theorem ext_cell {m n : Memory} (h : ∀ a, m.cell a = n.cell a) : m = n := by
  obtain ⟨cs⟩ := m
  obtain ⟨ds⟩ := n
  congr 1
  ext1 i hi
  have e : (BitVec.ofNat 12 i).toNat = i := by
    rw [BitVec.toNat_ofNat]
    exact Nat.mod_eq_of_lt hi
  simpa only [cell, e] using h (BitVec.ofNat 12 i)

@[simp] theorem length_window (m : Memory) (a : Address) (n : Nat) : (m.window a n).length = n := by
  simp [window]

end Memory

end Vivarium
