import Mathlib.Tactic
import Vivarium.Settings

/-!
# Rates are probabilities

* `Binary64.Probability x` : the bits of `x` are those of a number from zero to one, or of the
  negative zero;
* `Binary64.probability_iff` : exactly these numbers pass the comparisons with zero and with one;
* `Binary64.probability_clampUnit` : whatever is clamped to the unit interval is one of them, NaN
  and the infinities included.
-/

namespace Vivarium

namespace Binary64

/-- The bits of a number of the unit interval, where the zero may have either sign. -/
def Probability (x : Binary64) : Prop :=
  x.bits.toNat ≤ 0x3FF0000000000000 ∨ x.bits.toNat = 0x8000000000000000

instance (x : Binary64) : Decidable x.Probability := inferInstanceAs (Decidable (_ ∨ _))

/-! ## Bits as sign, exponent and fraction -/

theorem exponent_eq (x : Binary64) : x.exponent = x.bits.toNat / 2 ^ 52 % 2 ^ 11 := by
  rw [exponent, BitVec.extractLsb'_toNat, Nat.shiftRight_eq_div_pow]

theorem fraction_eq (x : Binary64) : x.fraction = x.bits.toNat % 2 ^ 52 := by
  rw [fraction, BitVec.extractLsb'_toNat, Nat.shiftRight_eq_div_pow, Nat.pow_zero, Nat.div_one]

theorem negative_eq (x : Binary64) : x.negative = decide (2 ^ 63 ≤ x.bits.toNat) := by
  rw [negative, BitVec.msb_eq_decide]

/-- The sign stands in front of the exponent, and the exponent in front of the fraction. -/
theorem toNat_bits (x : Binary64) :
    x.bits.toNat = (if x.negative then 2 ^ 63 else 0) + x.exponent * 2 ^ 52 + x.fraction := by
  have hlt := x.bits.isLt
  rw [exponent_eq, fraction_eq, negative_eq]
  simp only [decide_eq_true_eq]
  split <;> omega

/-! ## Magnitudes -/

theorem units_zero : zero.units = 0 := by decide

theorem units_one : one.units = 2 ^ 1074 := by decide +kernel

theorem magnitude_eq_zero_iff (x : Binary64) :
    x.magnitude = 0 ↔ x.exponent = 0 ∧ x.fraction = 0 := by
  unfold magnitude
  split_ifs with he
  · exact ⟨fun hf => ⟨he, hf⟩, fun h => h.2⟩
  · rw [Nat.shiftLeft_eq, Nat.mul_eq_zero]
    have hpow := Nat.two_pow_pos (x.exponent - 1)
    omega

/-- A significand with its leading bit is at most a power of two only below that power or on it. -/
theorem significand_le_iff {f : Nat} (hf : f < 2 ^ 52) (e k : Nat) :
    (2 ^ 52 + f) * 2 ^ e ≤ 2 ^ 52 * 2 ^ k ↔ e < k ∨ (e = k ∧ f = 0) := by
  rcases Nat.lt_trichotomy e k with hlt | heq | hgt
  · refine iff_of_true ?_ (Or.inl hlt)
    have hpow : 2 ^ e * 2 ≤ 2 ^ k := by
      rw [← Nat.pow_succ]
      exact Nat.pow_le_pow_right Nat.two_pos hlt
    calc (2 ^ 52 + f) * 2 ^ e ≤ 2 ^ 52 * 2 * 2 ^ e := Nat.mul_le_mul_right _ (by omega)
      _ = 2 ^ 52 * (2 ^ e * 2) := by rw [Nat.mul_assoc, Nat.mul_comm 2]
      _ ≤ 2 ^ 52 * 2 ^ k := Nat.mul_le_mul_left _ hpow
  · subst heq
    rw [Nat.mul_le_mul_right_iff (Nat.two_pow_pos e)]
    omega
  · refine iff_of_false ?_ (by omega)
    have hpow : 2 ^ k < 2 ^ e := Nat.pow_lt_pow_right Nat.one_lt_two hgt
    have hmul : 2 ^ 52 * 2 ^ e ≤ (2 ^ 52 + f) * 2 ^ e := Nat.mul_le_mul_right _ (by omega)
    omega

/-- Up to the exponent of one, the order of magnitudes is that of the bits. -/
theorem magnitude_le_iff (x : Binary64) :
    x.magnitude ≤ 2 ^ 1074 ↔ x.exponent * 2 ^ 52 + x.fraction ≤ 1023 * 2 ^ 52 := by
  have hf : x.fraction < 2 ^ 52 := by
    rw [fraction_eq]
    exact Nat.mod_lt _ (by decide)
  have hsub : ∀ k, x.fraction ≤ 2 ^ 52 * 2 ^ k := fun k =>
    Nat.le_trans hf.le (Nat.le_mul_of_pos_right _ (Nat.two_pow_pos k))
  rw [show (2 : Nat) ^ 1074 = 2 ^ 52 * 2 ^ 1022 by rw [← Nat.pow_add]]
  unfold magnitude
  split_ifs with he
  · refine iff_of_true (hsub 1022) ?_
    omega
  · rw [Nat.shiftLeft_eq, Nat.one_shiftLeft, significand_le_iff hf]
    omega

theorem exponent_of_isNaN {x : Binary64} (h : x.isNaN = true) : x.exponent = 2047 := by
  simp only [isNaN, Bool.and_eq_true, beq_iff_eq] at h
  exact h.1

/-! ## Comparisons with zero and one -/

theorem probability_iff_units (x : Binary64) :
    x.Probability ↔ x.isNaN = false ∧ 0 ≤ x.units ∧ x.units ≤ 2 ^ 1074 := by
  have hbits := toNat_bits x
  have hle := magnitude_le_iff x
  have hzero := magnitude_eq_zero_iff x
  have hnan := @exponent_of_isNaN x
  unfold Probability units
  split_ifs with hneg <;> simp only [hneg, if_true, Bool.false_eq_true, if_false] at hbits
  · have hsign : (0 : Int) ≤ -(x.magnitude : Int) ∧ -(x.magnitude : Int) ≤ 2 ^ 1074 ↔
        x.magnitude = 0 := by
      have hpos : (0 : Int) < 2 ^ 1074 := by positivity
      omega
    rw [hsign, hzero]
    constructor
    · intro h
      have hfields : x.exponent = 0 ∧ x.fraction = 0 := by omega
      refine ⟨?_, hfields⟩
      simp [isNaN, hfields.1]
    · rintro ⟨-, he, hf⟩
      omega
  · have hcast : (x.magnitude : Int) ≤ 2 ^ 1074 ↔ x.magnitude ≤ 2 ^ 1074 := by
      rw [← Int.ofNat_le]
      norm_cast
    rw [hcast, hle]
    constructor
    · intro h
      have hsum : x.exponent * 2 ^ 52 + x.fraction ≤ 1023 * 2 ^ 52 := by
        have hlt := x.bits.isLt
        have he := exponent_eq x
        have hf := fraction_eq x
        omega
      refine ⟨?_, by omega, hsum⟩
      by_contra hn
      have := hnan (by simpa using hn)
      omega
    · rintro ⟨-, -, h⟩
      omega

theorem le_iff {x y : Binary64} :
    x.le y = true ↔ x.isNaN = false ∧ y.isNaN = false ∧ x.units ≤ y.units := by
  simp [le, and_assoc]

theorem lt_iff {x y : Binary64} :
    x.lt y = true ↔ x.isNaN = false ∧ y.isNaN = false ∧ x.units < y.units := by
  simp [lt, and_assoc]

/-- The probabilities are the numbers that compare as at least zero and at most one. -/
theorem probability_iff (x : Binary64) :
    x.Probability ↔ (zero.le x && x.le one) = true := by
  rw [Bool.and_eq_true, le_iff, le_iff, probability_iff_units, units_zero, units_one]
  have hz : zero.isNaN = false := by decide
  have ho : one.isNaN = false := by decide
  tauto

theorem probability_clampUnit (x : Binary64) : x.clampUnit.Probability := by
  unfold clampUnit
  split_ifs with hlow hhigh
  · decide
  · decide
  · rw [Bool.or_eq_true, not_or, lt_iff, units_zero, Bool.not_eq_true] at hlow
    rw [lt_iff, units_one] at hhigh
    obtain ⟨hnan, hneg⟩ := hlow
    have hz : zero.isNaN = false := by decide
    have ho : one.isNaN = false := by decide
    rw [probability_iff_units]
    refine ⟨hnan, ?_, ?_⟩
    · by_contra h
      exact hneg ⟨hnan, hz, by omega⟩
    · by_contra h
      exact hhigh ⟨ho, hnan, by omega⟩

/-- A zero of either sign exceeds no draw. -/
theorem exceedsDraw_of_equal_zero {x : Binary64} (h : x.equal zero = true) (k : Nat) :
    x.exceedsDraw k = false := by
  have hunits : x.units = 0 := by
    simp only [equal, units_zero, Bool.and_eq_true, decide_eq_true_eq] at h
    exact h.2
  have hk : ¬ ((k <<< 1021 : Nat) : Int) < 0 := Int.not_lt.mpr (Int.natCast_nonneg _)
  rw [exceedsDraw, hunits, decide_eq_false hk, Bool.and_false]

/-- One exceeds every draw of fifty-three bits. -/
theorem exceedsDraw_one {k : Nat} (hk : k < 2 ^ 53) : one.exceedsDraw k = true := by
  have hnan : one.isNaN = false := by decide
  have hlt : ∀ e, ((k <<< e : Nat) : Int) < 2 ^ (53 + e) := by
    intro e
    have hscaled := Nat.mul_lt_mul_of_pos_right hk (Nat.two_pow_pos e)
    rw [← Nat.shiftLeft_eq, ← Nat.pow_add] at hscaled
    exact_mod_cast hscaled
  have hunits : ((k <<< 1021 : Nat) : Int) < one.units := by
    rw [units_one]
    exact hlt 1021
  rw [exceedsDraw, hnan, decide_eq_true hunits]
  rfl

end Binary64

/-! ## Settings -/

namespace Settings

theorem probability_setRate (s : Settings) (rate : Binary64) :
    (s.setRate rate).rate.Probability :=
  Binary64.probability_clampUnit rate

/-- No command leaves a rate that is not a probability. -/
theorem probability_tune {s : Settings} (h : s.rate.Probability) (command argument : Word) :
    (s.tune command argument).rate.Probability := by
  unfold tune
  split_ifs
  · exact probability_setRate _ _
  · exact h
  · exact h

end Settings

end Vivarium
