import Mathlib.Tactic
import Vivarium.Memory.Basic

/-!
# Runs of cells round the ring

Every integer names a cell, so a place on the ring is best reasoned about as `Address.ofInt n`, where
`n` is a linear expression.

* `Address.ofInt_eq_iff` : two numbers name the same cell iff they are congruent modulo the ring;
* `Address.ofInt_add_ofWord`, `Address.ofUInt64_eq` : the other ways to name a cell as `Address.ofInt`;
* `Memory.cell_load_of_ne`, `Memory.word_load` : the cells that a load leaves and the words it puts;
* `Memory.window_eq_replicate` : a run of cells that all hold the same word.
-/

namespace Vivarium

namespace Address

theorem toNat_ofInt (n : Int) : ((ofInt n).toNat : Int) = n % 4096 := by
  rw [ofInt, BitVec.toNat_ofInt]
  exact Int.toNat_of_nonneg (Int.emod_nonneg n (by decide))

theorem ofInt_eq_iff (m n : Int) : ofInt m = ofInt n ↔ m % 4096 = n % 4096 := by
  rw [← BitVec.toNat_inj, ← Int.ofNat_inj, toNat_ofInt, toNat_ofInt]

theorem ofInt_add_one (n : Int) : ofInt n + 1 = ofInt (n + 1) := by
  rw [ofInt, ofInt, BitVec.ofInt_add]
  rfl

/-- Going as far as a word says, with or without its sign. -/
theorem ofInt_add_ofWord (n : Int) (w : Word) : ofInt n + ofWord w = ofInt (n + w.toInt) := by
  have hword : ofWord w = ofInt w.toInt := by
    apply BitVec.eq_of_toNat_eq
    rw [← Int.ofNat_inj, toNat_ofInt, ofWord, BitVec.toNat_setWidth, BitVec.toInt_eq_toNat_cond]
    split_ifs <;> omega
  rw [hword, ofInt, ofInt, ofInt, BitVec.ofInt_add]

theorem ofUInt64_eq (n : UInt64) : ofUInt64 n = ofInt n.toNat := by
  apply BitVec.eq_of_toNat_eq
  rw [← Int.ofNat_inj, toNat_ofInt, toNat_ofUInt64]
  rfl

theorem ofInt_add_ofNat (n : Int) (i : Nat) : ofInt n + BitVec.ofNat 12 i = ofInt (n + i) := by
  rw [ofInt, ofInt, BitVec.ofInt_add, BitVec.ofInt_natCast]

end Address

namespace Memory

open Address

/-- A load leaves the cells that it does not reach. -/
theorem cell_load_of_ne (m : Memory) (n : Int) (ws : List Word) {b : Address}
    (h : ∀ i : Nat, i < ws.length → ofInt (n + i) ≠ b) : (m.load (ofInt n) ws).cell b = m.cell b := by
  induction ws generalizing m n with
  | nil => rfl
  | cons w ws ih =>
    have hfirst : ofInt n ≠ b := by
      have h0 := h 0 (by simp)
      rwa [Nat.cast_zero, Int.add_zero] at h0
    have hrest : ∀ i : Nat, i < ws.length → ofInt (n + 1 + i) ≠ b := by
      intro i hi
      have hsucc := h (i + 1) (by simpa using hi)
      rwa [Nat.cast_succ, Int.add_comm (i : Int) 1, ← Int.add_assoc] at hsucc
    rw [load, ofInt_add_one, ih _ _ hrest, cell_set_ne _ _ hfirst]

/-- A load that does not run into itself puts each word into its cell. -/
theorem word_load (m : Memory) (n : Int) {ws : List Word} (hlen : ws.length ≤ count) {i : Nat}
    {v : Word} (hv : ws[i]? = some v) : (m.load (ofInt n) ws).word (ofInt (n + i)) = v := by
  induction ws generalizing m n i with
  | nil => cases hv
  | cons w ws ih =>
    rw [List.length_cons] at hlen
    rw [load, ofInt_add_one]
    cases i with
    | zero =>
      have hrest : ∀ j : Nat, j < ws.length → ofInt (n + 1 + j) ≠ ofInt n := by
        intro j hj
        have hcount : count = 4096 := rfl
        rw [ne_eq, ofInt_eq_iff]
        omega
      rw [Nat.cast_zero, Int.add_zero, word, cell_load_of_ne _ _ _ hrest, cell_set_self]
      exact Option.some.inj hv
    | succ i =>
      rw [Nat.cast_succ, Int.add_comm (i : Int) 1, ← Int.add_assoc]
      exact ih _ _ (by omega) hv

theorem window_eq_replicate {m : Memory} {n : Int} {len : Nat} {w : Word}
    (h : ∀ i : Nat, i < len → m.word (ofInt (n + i)) = w) :
    m.window (ofInt n) len = List.replicate len w := by
  apply List.ext_getElem
  · rw [length_window, List.length_replicate]
  · intro i hi _
    rw [length_window] at hi
    simp only [window, List.getElem_map, List.getElem_range, List.getElem_replicate,
      ofInt_add_ofNat]
    exact h i hi

end Memory

end Vivarium
