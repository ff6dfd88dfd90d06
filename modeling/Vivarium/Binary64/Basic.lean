/-!
# Binary64 numbers as bit patterns

A number is its 64 bits, so that both zeros and every NaN stay apart. Its value is an integral
multiple of `2 ^ -1074`, and all arithmetic here is exact on that multiple.

* `Binary64.units` : the signed multiple; an infinity counts as the number that would follow the
  largest finite one, so it lies beyond all of them;
* `Binary64.lt`, `Binary64.le`, `Binary64.equal` : the numeric comparisons, false on NaN;
* `Binary64.ofRatio` : the nearest number to a quotient, halves to the even neighbour;
* `Binary64.clampUnit` : the nearest number of the unit interval.
-/

namespace Vivarium

/-- A double precision number, told apart by all its bits. -/
structure Binary64 where
  bits : BitVec 64
deriving DecidableEq, Repr

/-- The quotient to the nearest integer, a half to the even neighbour. -/
def roundDiv (num den : Nat) : Nat :=
  let q := num / den
  let r := num % den
  if 2 * r < den ∨ (2 * r = den ∧ q % 2 = 0) then q else q + 1

namespace Binary64

def zero : Binary64 := ⟨0⟩

def one : Binary64 := ⟨0x3FF0000000000000⟩

def infinity : Binary64 := ⟨0x7FF0000000000000⟩

def nan : Binary64 := ⟨0x7FF8000000000000⟩

/-- The sign bit. -/
def negative (x : Binary64) : Bool := x.bits.msb

def exponent (x : Binary64) : Nat := (x.bits.extractLsb' 52 11).toNat

def fraction (x : Binary64) : Nat := (x.bits.extractLsb' 0 52).toNat

def isNaN (x : Binary64) : Bool := x.exponent == 2047 && x.fraction != 0

def isInfinite (x : Binary64) : Bool := x.exponent == 2047 && x.fraction == 0

/-- How many times `2 ^ -1074` the number is, without its sign. -/
def magnitude (x : Binary64) : Nat :=
  if x.exponent = 0 then x.fraction else (1 <<< 52 + x.fraction) <<< (x.exponent - 1)

/-- How many times `2 ^ -1074` the number is. -/
def units (x : Binary64) : Int :=
  if x.negative then -(x.magnitude : Int) else x.magnitude

def lt (x y : Binary64) : Bool := !x.isNaN && !y.isNaN && decide (x.units < y.units)

def le (x y : Binary64) : Bool := !x.isNaN && !y.isNaN && decide (x.units ≤ y.units)

/-- Equality of values: the zeros are equal, and a NaN equals nothing. -/
def equal (x y : Binary64) : Bool := !x.isNaN && !y.isNaN && decide (x.units = y.units)

def negate (x : Binary64) : Binary64 := ⟨x.bits ^^^ 0x8000000000000000⟩

/-- The closest number between zero and one. A NaN becomes zero and a negative zero stays. -/
def clampUnit (x : Binary64) : Binary64 :=
  if x.isNaN || x.lt zero then zero else if one.lt x then one else x

/-- The nearest number to `num / den`, for a positive `den`. In a pattern the exponent stands above
the fraction, so a significand that rounds up to the next power of two carries into it. -/
def ofRatio (num den : Nat) : Binary64 :=
  let scaled := num <<< 1074
  let shift := (scaled / den).log2 - 52
  let significand := roundDiv scaled (den <<< shift)
  ⟨BitVec.ofNat 64 (min (shift <<< 52 + significand) infinity.bits.toNat)⟩

/-- The nearest number to a natural number. -/
def ofNat (n : Nat) : Binary64 := ofRatio n 1

/-- The nearest number to `x / n`, for `x` that is not negative and a positive `n`. -/
def divNat (x : Binary64) (n : Nat) : Binary64 := ofRatio x.magnitude (n <<< 1074)

/-- `k * 2 ^ -53` is less than the number. -/
def exceedsDraw (x : Binary64) (k : Nat) : Bool :=
  !x.isNaN && decide (((k <<< 1021 : Nat) : Int) < x.units)

end Binary64

end Vivarium
