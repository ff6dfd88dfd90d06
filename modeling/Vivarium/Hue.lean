import Vivarium.Stream.Basic

/-!
# Hues

Every lineage has a colour, given as a hue in degrees. A root draws its hue and a child drifts from
its parent's; nothing that an organism does depends on it. A hue read from a file may be out of
range, and `Hue.Valid` says that it is not.
-/

namespace Vivarium

/-- An angle on the colour wheel. -/
structure Hue where
  degrees : UInt16
deriving DecidableEq, Repr

namespace Hue

/-- The number of distinct hues. -/
def count : Nat := 360

/-- The largest change from parent to child, in degrees. -/
def maxDrift : Nat := 10

def Valid (h : Hue) : Prop := h.degrees.toNat < count

instance (h : Hue) : Decidable h.Valid := inferInstanceAs (Decidable (_ < _))

/-- The hue of any angle, by its residue. -/
def wrap (angle : Nat) : Hue := ⟨UInt16.ofNat (angle % count)⟩

/-- Any hue, with equal chances. -/
def random (s : Stream) : Hue × Stream :=
  let (n, s) := s.belowDense count
  (wrap n, s)

/-- The hue moved by at most `maxDrift` degrees either way, with equal chances. -/
def drift (h : Hue) (s : Stream) : Hue × Stream :=
  let (n, s) := s.below (2 * maxDrift + 1)
  (wrap (h.degrees.toNat + n + (count - maxDrift)), s)

def text (h : Hue) : String := "hsl(" ++ toString h.degrees.toNat ++ ", 100%, 50%)"

theorem valid_wrap (angle : Nat) : (wrap angle).Valid := by
  have := Nat.mod_lt angle (by decide : 0 < count)
  simp only [Valid, wrap, count, UInt16.toNat_ofNat'] at *
  omega

theorem valid_random (s : Stream) : (random s).1.Valid := valid_wrap _

theorem valid_drift (h : Hue) (s : Stream) : (h.drift s).1.Valid := valid_wrap _

end Hue

end Vivarium
