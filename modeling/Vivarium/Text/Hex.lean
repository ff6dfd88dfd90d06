/-!
# Hexadecimal text

* `Hex.fixed` : as many of the lowest digits as are asked for;
* `Hex.shortest` : no more digits than needed.
-/

namespace Vivarium.Hex

/-- The lower-case digit of a number below sixteen. -/
def digit (n : Nat) : Char := Nat.digitChar n

/-- The lowest `width` digits, most significant first. -/
def digits : Nat → Nat → List Char
  | 0, _ => []
  | width + 1, n => digits width (n / 16) ++ [digit (n % 16)]

def fixed (width n : Nat) : String := String.ofList (digits width n)

def shortest (n : Nat) : String := String.ofList (Nat.toDigits 16 n)

theorem length_digits (width n : Nat) : (digits width n).length = width := by
  induction width generalizing n with
  | zero => rfl
  | succ width ih => simp [digits, ih]

end Vivarium.Hex
