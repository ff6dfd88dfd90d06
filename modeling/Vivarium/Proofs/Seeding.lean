import Vivarium.CommandLine.Conclusion
import Vivarium.Proofs.Ring

/-!
# What a new world starts from

* `Ancestor.Accepted` : the bounds on an ancestor, and `Ancestor.refusal?_eq_none_iff` : exactly those
  within them are not refused;
* `Ancestor.cell` : the cells of the ring, counted from the ancestor's start;
* `Ancestor.cell_ne_copy`, `Ancestor.cell_end_ne_copy` : no copy falls on the block that is copied or
  on the word behind it; one falls on the last word of the program only if the copy lies right there;
* `Ancestor.ofWord_copyWord`, `Ancestor.ofWord_birthWord`, `Ancestor.ofWord_deathWord` : the words of
  the program read as the instructions that were meant;
* `RunOptions.prepare_eq_ok_iff` : the world that a run without a snapshot starts from.
-/

namespace Vivarium

namespace Ancestor

/-- The bounds within which an ancestor is planted. -/
@[mk_iff]
structure Accepted (x : Ancestor) : Prop where
  apart : x.length.toNat < x.offset.toInt.natAbs
  birth : Field.Fits (x.offset.toInt - x.length.toNat)
  copy : Field.Fits x.offset.toInt
  start : x.start.toNat < Address.count
  short : x.length.toNat + 2 ≤ Address.count

theorem refusal?_eq_none_iff (x : Ancestor) : x.refusal? = none ↔ x.Accepted := by
  rw [accepted_iff]
  unfold refusal? Address.check
  by_cases hstart : x.start.toNat < Address.count
  · simp only [hstart, if_true, true_and]
    split_ifs with hlength hfit hshort
    · exact iff_of_false (by simp) fun h => by omega
    · exact iff_of_false (by simp) fun h => by omega
    · exact iff_of_true rfl ⟨by omega, hfit.1, hfit.2, by omega⟩
    · exact iff_of_false (by simp) fun h => hfit ⟨h.2.1, h.2.2.1⟩
  · simp only [hstart, if_false, false_and, and_false, iff_false]
    split_ifs <;> simp

/-- An ancestor is planted iff it is accepted and there is room for it. -/
theorem plantIn_eq_ok_iff (x : Ancestor) (w v : World) :
    x.plantIn w = .ok v ↔ x.Accepted ∧ w.hasRoom = true ∧
      (w.plant (.ofUInt64 x.start) (program x.length.toNat x.offset)).1 = v := by
  rw [← refusal?_eq_none_iff]
  unfold plantIn
  cases x.refusal? with
  | some r => simp
  | none =>
    have hroom : (w.load (.ofUInt64 x.start) (program x.length.toNat x.offset)).hasRoom = w.hasRoom :=
      rfl
    simp only [World.plant, World.addRoot, hroom, true_and]
    split_ifs with h <;> simp [h]

/-! ## Cells -/

/-- The cell that many places behind the start. -/
def cell (x : Ancestor) (n : Int) : Address := .ofInt (x.start.toNat + n)

variable {x : Ancestor}

theorem cell_eq_iff (m n : Int) : x.cell m = x.cell n ↔ (m - n) % 4096 = 0 := by
  rw [cell, cell, Address.ofInt_eq_iff]
  omega

theorem cell_add_one (n : Int) : x.cell n + 1 = x.cell (n + 1) := by
  rw [cell, Address.ofInt_add_one, Int.add_assoc, cell]

theorem cell_add_ofWord (n : Int) (w : Word) : x.cell n + Address.ofWord w = x.cell (n + w.toInt) := by
  rw [cell, Address.ofInt_add_ofWord, Int.add_assoc, cell]

/-- The copies lie apart from the block that is copied and from the word behind it, on either side of
it and across the end of the ring. -/
theorem cell_ne_copy (hx : x.Accepted) {i j : Nat} (hi : i < x.length.toNat)
    (hj : j ≤ x.length.toNat) : x.cell j ≠ x.cell (x.offset.toInt + i) := by
  obtain ⟨hlow, -⟩ := (Field.fits_iff _).mp hx.birth
  obtain ⟨-, hhigh⟩ := (Field.fits_iff _).mp hx.copy
  have hapart := hx.apart
  rw [ne_eq, cell_eq_iff]
  omega

/-- The last word of the program is reached only by the first copy, and only if that comes to lie
right behind the first word that is not copied. -/
theorem cell_end_ne_copy (hx : x.Accepted) {i : Nat} (hi : i < x.length.toNat)
    (hne : x.offset.toInt ≠ x.length.toNat + 1) :
    x.cell (x.length.toNat + 1) ≠ x.cell (x.offset.toInt + i) := by
  obtain ⟨hlow, -⟩ := (Field.fits_iff _).mp hx.birth
  obtain ⟨-, hhigh⟩ := (Field.fits_iff _).mp hx.copy
  have hapart := hx.apart
  rw [ne_eq, cell_eq_iff]
  omega

/-! ## Words -/

theorem ofWord_copyWord {offset : Word} (h : Field.Fits offset.toInt) :
    Instruction.ofWord (copyWord offset) = .new .mov ⟨.relative, 0⟩ ⟨.relative, offset⟩ :=
  Instruction.ofWord_toWord_new .mov (by decide) h

theorem ofWord_birthWord {distance : Word} (h : Field.Fits distance.toInt) :
    Instruction.ofWord (birthWord distance) = .new .spwn ⟨.relative, distance⟩ ⟨.immediate, 0⟩ :=
  Instruction.ofWord_toWord_new .spwn h (by decide)

theorem ofWord_deathWord :
    Instruction.ofWord deathWord = .new .die ⟨.immediate, 0⟩ ⟨.immediate, 0⟩ :=
  Instruction.ofWord_toWord_new .die (by decide) (by decide)

theorem copyWord_ne_deathWord {offset : Word} (h : Field.Fits offset.toInt) :
    copyWord offset ≠ deathWord := by
  intro heq
  have hread := congrArg (fun w => (Instruction.ofWord w).code) heq
  simp only [ofWord_copyWord h, ofWord_deathWord, Instruction.new] at hread
  exact absurd hread (by decide)

/-- How far the copy lies from the word that asks for a child. -/
def distance (x : Ancestor) : Word := x.offset - BitVec.ofNat 32 x.length.toNat

theorem toInt_distance (hx : x.Accepted) :
    x.distance.toInt = x.offset.toInt - x.length.toNat := by
  obtain ⟨hlow, hhigh⟩ := (Field.fits_iff _).mp hx.birth
  have hcount : Address.count = 4096 := rfl
  have hshort := hx.short
  have hlength : (BitVec.ofNat 32 x.length.toNat).toInt = x.length.toNat := by
    rw [BitVec.toInt_ofNat']
    exact Int.bmod_eq_of_le (by omega) (by omega)
  rw [distance, BitVec.toInt_sub, hlength]
  exact Int.bmod_eq_of_le (by omega) (by omega)

/-- The program is in the soup, and the first `n` words of its block have been copied. Its last word
is spoken of only where no copy falls on it. -/
structure Written (x : Ancestor) (n : Nat) (m : Memory) : Prop where
  block : ∀ i : Nat, i < x.length.toNat → m.word (x.cell i) = copyWord x.offset
  birth : m.word (x.cell x.length.toNat) = birthWord x.distance
  death : x.offset.toInt ≠ x.length.toNat + 1 ∨ n = 0 →
    m.word (x.cell (x.length.toNat + 1)) = deathWord
  copies : ∀ i : Nat, i < n → m.word (x.cell (x.offset.toInt + i)) = copyWord x.offset

@[simp] theorem length_program (length : Nat) (offset : Word) :
    (program length offset).length = length + 2 := by
  simp [program]

theorem take_program (length : Nat) (offset : Word) :
    (program length offset).take length = List.replicate length (copyWord offset) :=
  List.take_left' List.length_replicate

theorem written_load (hx : x.Accepted) (m : Memory) :
    x.Written 0 (m.load (.ofUInt64 x.start) (program x.length.toNat x.offset)) := by
  have hword : ∀ {i : Nat} {v : Word}, (program x.length.toNat x.offset)[i]? = some v →
      (m.load (.ofUInt64 x.start) (program x.length.toNat x.offset)).word (x.cell i) = v := by
    intro i v hv
    rw [Address.ofUInt64_eq]
    exact Memory.word_load m _ (by rw [length_program]; exact hx.short) hv
  refine ⟨?_, ?_, ?_, ?_⟩
  · intro i hi
    apply hword
    simp [program, List.getElem?_append_left, hi]
  · apply hword
    simp [program, distance]
  · intro _
    have hend := hword (i := x.length.toNat + 1) (v := deathWord) (by simp [program])
    rwa [Nat.cast_succ] at hend
  · intro i hi
    exact absurd hi (Nat.not_lt_zero i)

end Ancestor

namespace CommandLine.RunOptions

@[simp] theorem cap_config (o : RunOptions) : o.config.cap = 1000 := by
  unfold config
  cases o.seed <;> cases o.rate <;> cases o.maxAge <;> rfl

/-- Without a snapshot to resume, a run starts from an empty world with an accepted ancestor. -/
theorem prepare_eq_ok_iff {o : RunOptions} (h : o.resume = none)
    (content : Except FileFault (List UInt8)) (entropy : UInt64) (w : World) :
    (∃ report, o.prepare content entropy = .ok (w, report)) ↔ o.ancestor.Accepted ∧
      ((World.ofConfig o.config entropy).plant (.ofUInt64 o.ancestor.start)
        (Ancestor.program o.ancestor.length.toNat o.ancestor.offset)).1 = w := by
  have hroom : (World.ofConfig o.config entropy).hasRoom = true := by
    show decide (0 < o.config.cap.toNat) = true
    rw [cap_config]
    rfl
  have hplant := o.ancestor.plantIn_eq_ok_iff (World.ofConfig o.config entropy)
  simp only [hroom, true_and] at hplant
  rw [← hplant]
  unfold prepare
  rw [h]
  cases o.ancestor.plantIn (World.ofConfig o.config entropy) with
  | error r => simp
  | ok v => simp

end CommandLine.RunOptions

end Vivarium
