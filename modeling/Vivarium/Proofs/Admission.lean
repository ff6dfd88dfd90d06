import Vivarium.Proofs.Loading
import Vivarium.Proofs.Replication

/-!
# Which ancestors are let in

* `exactly`, `Ancestor.examination` : the checks on an ancestor in machine numbers, each of them compared
  with the integer that is meant; `Ancestor.examination_eq` : they always are these integers, since each
  check comes before the arithmetic that would go wrong without it;
* `Ancestor.accepted_iff_bounds` : the bounds of the four checks, which leave nothing to the fifth;
* `Ancestor.read_program` : the words of an accepted program read as what was meant;
* `RunOptions.prepare_exact` : who is let in, and the world that comes of it.
-/

namespace Vivarium

/-! ## Machine numbers -/

/-- An unsigned number as an integer. -/
def unsigned (n : UInt64) : Int := n.toNat

/-- What a step of machine arithmetic gives, if it reads as the number that is meant. -/
def exactly {α : Type} (read : α → Int) (result : α) (meant : Int) : Option α :=
  if read result = meant then some result else none

theorem exactly_of_eq {α : Type} {read : α → Int} {result : α} {meant : Int}
    (h : read result = meant) : exactly read result meant = some result := if_pos h

namespace Ancestor

/-- The checks in machine numbers. Lengths and addresses are unsigned numbers of 64 bits, an offset is a
signed one of 32, and distances are computed in signed numbers of 64 bits. Nothing comes of it if a
number is not what it stands for. -/
def examination (x : Ancestor) : Option (Option Refusal) := do
  let reach ← exactly unsigned ⟨x.offset.abs.setWidth 64⟩ x.offset.toInt.natAbs
  if reach ≤ x.length then return some (.overlap x.offset.toInt x.length) else
  let offset ← exactly BitVec.toInt (x.offset.signExtend 64) x.offset.toInt
  let length ← exactly BitVec.toInt x.length.toBitVec x.length.toNat
  let distance ← exactly BitVec.toInt (offset - length) (offset.toInt - length.toInt)
  if ¬ (Field.Fits distance.toInt ∧ Field.Fits x.offset.toInt) then
    return some (.unfit x.offset.toInt x.length) else
  match Address.check x.start with
  | .error e => return some (.start e)
  | .ok _ =>
    let size ← exactly unsigned (x.length + 2) (x.length.toNat + 2)
    return if .ofNat Address.count < size then some (.tooLong x.length) else none

/-- The largest length and the least offset: nothing is computed from them but the magnitude. -/
example : examination ⟨0, 0xFFFFFFFFFFFFFFFF, 0x80000000⟩ =
    some (some (.overlap (-0x80000000) 0xFFFFFFFFFFFFFFFF)) := by decide

variable {x : Ancestor}

/-- The magnitude of the least offset is not an offset, but it is an unsigned number. -/
theorem unsigned_abs (offset : Word) :
    unsigned ⟨offset.abs.setWidth 64⟩ = offset.toInt.natAbs := by
  have hsigned := BitVec.toInt_eq_msb_cond offset
  have habs := BitVec.toNat_abs (x := offset)
  have hlt := offset.isLt
  show ((offset.abs.setWidth 64).toNat : Int) = _
  rw [BitVec.toNat_setWidth_of_le (by decide)]
  split_ifs at hsigned habs <;> omega

/-- A length below the magnitude of an offset is the same number with a sign. -/
theorem toInt_length (h : x.length.toNat < x.offset.toInt.natAbs) :
    x.length.toBitVec.toInt = x.length.toNat := by
  have hlow := BitVec.le_toInt x.offset
  have hhigh := BitVec.toInt_lt (x := x.offset)
  have hsigned := BitVec.toInt_eq_toNat_cond x.length.toBitVec
  have hlength : x.length.toBitVec.toNat = x.length.toNat := rfl
  split_ifs at hsigned <;> omega

/-- And the two are near enough for their difference. -/
theorem toInt_difference (h : x.length.toNat < x.offset.toInt.natAbs) :
    (x.offset.signExtend 64 - x.length.toBitVec).toInt = x.offset.toInt - x.length.toNat := by
  have hlow := BitVec.le_toInt x.offset
  have hhigh := BitVec.toInt_lt (x := x.offset)
  rw [BitVec.toInt_sub, toInt_length h, BitVec.toInt_signExtend_of_le (by decide)]
  exact Int.bmod_eq_of_le (by omega) (by omega)

/-- So magnitudes are compared as they should be. -/
theorem reach_le_iff : (⟨x.offset.abs.setWidth 64⟩ : UInt64) ≤ x.length ↔
    x.offset.toInt.natAbs ≤ x.length.toNat := by
  have hreach := unsigned_abs x.offset
  unfold unsigned at hreach
  rw [UInt64.le_iff_toNat_le]
  omega

/-- A length that is not too near the end of the unsigned numbers can be added to, and the sum is compared
with the number of cells. -/
theorem unsigned_length (h : x.length.toNat + 2 < 2 ^ 64) :
    unsigned (x.length + 2) = x.length.toNat + 2 ∧
      (UInt64.ofNat Address.count < x.length + 2 ↔ Address.count < x.length.toNat + 2) := by
  have hsum : (x.length + 2).toNat = x.length.toNat + 2 := by
    rw [UInt64.toNat_add]
    exact Nat.mod_eq_of_lt h
  constructor
  · exact congrArg Nat.cast hsum
  · rw [UInt64.lt_iff_toNat_lt, hsum]
    rfl

/-- No step of the checks goes wrong, and they refuse what the checks on integers refuse. -/
theorem examination_eq (x : Ancestor) : x.examination = some x.refusal? := by
  unfold examination refusal?
  simp only [exactly_of_eq (unsigned_abs x.offset), Option.bind_eq_bind, Option.bind_some, reach_le_iff]
  by_cases hlength : x.offset.toInt.natAbs ≤ x.length.toNat
  · rw [if_pos hlength, if_pos hlength]
    rfl
  have hapart := Nat.not_le.mp hlength
  have hoffset : (x.offset.signExtend 64).toInt = x.offset.toInt :=
    BitVec.toInt_signExtend_of_le (by decide)
  have hmeant := toInt_difference hapart
  have hdifference : (x.offset.signExtend 64 - x.length.toBitVec).toInt =
      (x.offset.signExtend 64).toInt - x.length.toBitVec.toInt := by
    rw [hmeant, hoffset, toInt_length hapart]
  rw [if_neg hlength, if_neg hlength]
  simp only [exactly_of_eq hoffset, exactly_of_eq (toInt_length hapart), exactly_of_eq hdifference,
    Option.bind_some, hmeant]
  by_cases hfit : Field.Fits (x.offset.toInt - x.length.toNat) ∧ Field.Fits x.offset.toInt
  · rw [if_neg (not_not.mpr hfit), if_neg (not_not.mpr hfit)]
    have hshort : x.length.toNat + 2 < 2 ^ 64 := by
      have hlow := ((Field.fits_iff _).mp hfit.1).1
      have hhigh := ((Field.fits_iff _).mp hfit.2).2
      omega
    obtain ⟨hsum, hlarge⟩ := unsigned_length hshort
    cases Address.check x.start with
    | error e => rfl
    | ok a =>
      simp only [exactly_of_eq hsum, Option.bind_some, hlarge]
      rfl
  · rw [if_pos hfit, if_pos hfit]
    rfl

/-! ## Refusals -/

/-- Where the copy lies apart and both distances fit, nothing is left to the check of the length. -/
theorem length_add_two_le (hapart : x.length.toNat < x.offset.toInt.natAbs)
    (hbirth : Field.Fits (x.offset.toInt - x.length.toNat)) (hcopy : Field.Fits x.offset.toInt) :
    x.length.toNat + 2 ≤ Address.count := by
  have hlow := ((Field.fits_iff _).mp hbirth).1
  have hhigh := ((Field.fits_iff _).mp hcopy).2
  show _ ≤ 4096
  omega

theorem accepted_iff_bounds : x.Accepted ↔
    x.length.toNat < x.offset.toInt.natAbs ∧ Field.Fits x.offset.toInt ∧
      Field.Fits (x.offset.toInt - x.length.toNat) ∧ x.start.toNat < Address.count := by
  rw [accepted_iff]
  constructor
  · rintro ⟨hapart, hbirth, hcopy, hstart, -⟩
    exact ⟨hapart, hcopy, hbirth, hstart⟩
  · rintro ⟨hapart, hcopy, hbirth, hstart⟩
    exact ⟨hapart, hbirth, hcopy, hstart, length_add_two_le hapart hbirth hcopy⟩

/-- No ancestor is refused for its length alone. -/
theorem mem_of_refusal? {r : Refusal} (h : x.refusal? = some r) :
    r ∈ [.overlap x.offset.toInt x.length, .unfit x.offset.toInt x.length, .start ⟨x.start⟩] := by
  unfold refusal? Address.check at h
  dsimp only at h
  by_cases hlength : x.offset.toInt.natAbs ≤ x.length.toNat
  · rw [if_pos hlength] at h
    cases h
    simp
  rw [if_neg hlength] at h
  by_cases hfit : Field.Fits (x.offset.toInt - x.length.toNat) ∧ Field.Fits x.offset.toInt
  · rw [if_neg (not_not.mpr hfit)] at h
    by_cases hstart : x.start.toNat < Address.count
    · have hshort := Nat.not_lt.mpr (length_add_two_le (Nat.not_le.mp hlength) hfit.1 hfit.2)
      simp [hstart, hshort] at h
    · rw [if_neg hstart] at h
      cases h
      simp
  · rw [if_pos hfit] at h
    cases h
    simp

/-! ## The program -/

/-- The words of the program read as the instructions that were meant, with nothing cut off. -/
theorem read_program (hx : x.Accepted) :
    (program x.length.toNat x.offset).map Instruction.ofWord =
      List.replicate x.length.toNat (.new .mov ⟨.relative, 0⟩ ⟨.relative, x.offset⟩) ++
        [.new .spwn ⟨.relative, x.distance⟩ ⟨.immediate, 0⟩,
          .new .die ⟨.immediate, 0⟩ ⟨.immediate, 0⟩] := by
  have hbirth : Field.Fits x.distance.toInt := by
    rw [toInt_distance hx]
    exact hx.birth
  rw [program, List.map_append, List.map_replicate, ofWord_copyWord hx.copy, List.map_cons,
    List.map_singleton, ← distance, ofWord_birthWord hbirth, ofWord_deathWord]

/-- The block and its copy have no cell in common. -/
theorem emod_ne_copy (hx : x.Accepted) {i j : Nat} (hi : i < x.length.toNat) (hj : j < x.length.toNat) :
    (x.start.toNat + i : Int) % 4096 ≠ (x.start.toNat + x.offset.toInt + j) % 4096 := by
  have hne := cell_ne_copy hx hj hi.le
  rwa [cell, cell, ne_eq, Address.ofInt_eq_iff, ← Int.add_assoc] at hne

theorem ip_progenitor_zero (hx : x.Accepted) (hue : Hue) : (x.progenitor hue 0).ip = x.start := by
  have hstart := hx.start
  apply UInt64.toNat_inj.mp
  show (x.cell (0 : Nat)).toUInt64.toNat = _
  rw [cell, Nat.cast_zero, Int.add_zero, ← Address.ofUInt64_eq, Address.toNat_toUInt64,
    Address.toNat_ofUInt64, Nat.mod_eq_of_lt hstart]

end Ancestor

@[simp] theorem Memory.cell_empty (b : Address) : Memory.empty.cell b = ⟨0, none⟩ := by
  simp [cell, empty]

namespace CommandLine.RunOptions

open Ancestor

variable {o : RunOptions} {content : Except FileFault (List UInt8)} {entropy : UInt64}

/-- An ancestor for which there is no room is never met. -/
theorem exists_of_prepare_error {f : Failure} (h : o.resume = none)
    (hf : o.prepare content entropy = .error f) :
    ∃ r, o.ancestor.refusal? = some r ∧ f = ⟨r.message, []⟩ := by
  cases hr : o.ancestor.refusal? with
  | none =>
    obtain ⟨w, report, hok, -⟩ := exists_prepare h hr content entropy
    rw [hf] at hok
    cases hok
  | some r =>
    unfold prepare plantIn at hf
    rw [h, hr] at hf
    cases hf
    exact ⟨r, rfl, rfl⟩

/-- A run without a snapshot lets an ancestor in iff its offset is larger than its length, its offset and
its distance fit a value field, and it starts on the ring. No number of the checks is other than it is
meant to be, and there are no other reasons to refuse an ancestor. The program of one that is let in
reads as it was meant, its copy lies apart from its block, and the world has the program from the start
on, nothing else in the soup, and nobody but a root in front of it. -/
theorem prepare_exact (h : o.resume = none) (content : Except FileFault (List UInt8))
    (entropy : UInt64) :
    let x := o.ancestor
    let offset := x.offset.toInt
    let length := x.length.toNat
    x.examination = some x.refusal? ∧
    ((∃ w report, o.prepare content entropy = .ok (w, report)) ↔
      length < offset.natAbs ∧ (-2048 ≤ offset ∧ offset ≤ 2047) ∧
        (-2048 ≤ offset - length ∧ offset - length ≤ 2047) ∧ x.start.toNat < 4096) ∧
    (∀ f, o.prepare content entropy = .error f →
      ∃ r ∈ [Refusal.overlap offset x.length, .unfit offset x.length, .start ⟨x.start⟩],
        x.refusal? = some r ∧ f = ⟨r.message, []⟩) ∧
    ∀ w report, o.prepare content entropy = .ok (w, report) →
      (∃ distance : Word, distance.toInt = offset - length ∧
        (program length x.offset).map Instruction.ofWord =
          List.replicate length (.new .mov ⟨.relative, 0⟩ ⟨.relative, x.offset⟩) ++
            [.new .spwn ⟨.relative, distance⟩ ⟨.immediate, 0⟩,
              .new .die ⟨.immediate, 0⟩ ⟨.immediate, 0⟩]) ∧
      (∀ i < length, ∀ j < length,
        (x.start.toNat + i : Int) % 4096 ≠ (x.start.toNat + offset + j) % 4096) ∧
      w.memory.window (.ofUInt64 x.start) (length + 2) = program length x.offset ∧
      (∀ b, Memory.visits x.start (length + 2) b = ∅ → w.memory.cell b = ⟨0, none⟩) ∧
      ∃ root, w.population = #[root] ∧ root.ip = x.start ∧ root.alive = true ∧ root.age = 0 ∧
        root.depth = 0 := by
  intro x offset length
  refine ⟨examination_eq x, ?_, fun f hf => ?_, fun w report hok => ?_⟩
  · rw [← Field.fits_iff, ← Field.fits_iff, ← accepted_iff_bounds]
    constructor
    · rintro ⟨w, report, hok⟩
      exact (copying_of_prepare h hok).1
    · intro hx
      obtain ⟨report, hok⟩ := (prepare_eq_ok_iff h content entropy _).mpr ⟨hx, rfl⟩
      exact ⟨_, report, hok⟩
  · obtain ⟨r, hr, rfl⟩ := exists_of_prepare_error h hf
    exact ⟨r, mem_of_refusal? hr, hr, rfl⟩
  · obtain ⟨hx, -, hue, hcopying⟩ := copying_of_prepare h hok
    obtain ⟨-, rfl⟩ := (prepare_eq_ok_iff h content entropy w).mp ⟨report, hok⟩
    refine ⟨⟨x.distance, toInt_distance hx, read_program hx⟩,
      fun i hi j hj => emod_ne_copy hx hi hj, ?_, fun b hb => ?_,
      x.progenitor hue 0, hcopying.population, ip_progenitor_zero hx hue, rfl, rfl, rfl⟩
    · have hshort : (program x.length.toNat x.offset).length ≤ Address.count := by
        rw [length_program]
        exact hx.short
      have hread := Memory.window_load Memory.empty x.start.toNat hshort
      rw [World.memory_plant, ← length_program length x.offset, Address.ofUInt64_eq]
      exact hread
    · rw [← length_program length x.offset] at hb
      rw [World.memory_plant]
      exact (Memory.cell_load_of_visits_eq_empty Memory.empty hb).trans (Memory.cell_empty b)

/-- The copy lies before the program, as far as it may, and the program across the end of the ring. -/
theorem prepare_exact_farthest :
    let o : RunOptions := ⟨4, 1, some 3, none, none, ⟨4095, 1023, -1025⟩, none, none⟩
    o.resume = none ∧ ∃ w report, o.prepare (.ok []) 0 = .ok (w, report) ∧
      (program 1023 (-1025)).map Instruction.ofWord =
        List.replicate 1023 (.new .mov ⟨.relative, 0⟩ ⟨.relative, -1025⟩) ++
          [.new .spwn ⟨.relative, -2048⟩ ⟨.immediate, 0⟩, .new .die ⟨.immediate, 0⟩ ⟨.immediate, 0⟩] ∧
      w.memory.window 4095 1025 = program 1023 (-1025) ∧ w.memory.cell 1024 = ⟨0, none⟩ ∧
      ∃ root, w.population = #[root] ∧ root.ip = 4095 ∧ root.alive = true := by
  intro o
  obtain ⟨-, haccepted, -, hworld⟩ := prepare_exact (o := o) rfl (.ok []) 0
  have hlength : o.ancestor.length.toNat = 1023 := rfl
  have hoffset : o.ancestor.offset.toInt = -1025 := by decide
  have hstart : o.ancestor.start.toNat = 4095 := rfl
  rw [hlength, hoffset, hstart] at haccepted
  obtain ⟨w, report, hok⟩ := haccepted.mpr (by decide)
  obtain ⟨⟨distance, hdistance, hread⟩, -, hwindow, hempty, root, hroot, hip, halive, -, -⟩ :=
    hworld w report hok
  obtain rfl : distance = -2048 := by
    apply BitVec.eq_of_toInt_eq
    rw [hdistance, hlength, hoffset]
    decide
  -- The program ends in cell 1023.
  have hbehind : Memory.visits o.ancestor.start (o.ancestor.length.toNat + 2) 1024 = ∅ := by
    refine Set.eq_empty_iff_forall_notMem.mpr fun i hi => ?_
    have hlt : i < 1025 := hi.1
    have hmod : (4095 + i) % 4096 = 1024 := hi.2
    omega
  exact ⟨rfl, w, report, hok, hread, hwindow, hempty 1024 hbehind, root, hroot, hip, halive⟩

end CommandLine.RunOptions

end Vivarium
