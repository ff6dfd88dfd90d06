/-!
# Decimal digits

Only the ten ASCII digits count as digits.
-/

namespace Vivarium.Digits

/-- The number that a run of digits names. -/
def value (ds : List Char) : Nat := ds.foldl (fun n c => 10 * n + (c.toNat - '0'.toNat)) 0

/-- The number that a run of at least one digit names. -/
def read? (ds : List Char) : Option Nat :=
  if ds.isEmpty || !ds.all Char.isDigit then none else some (value ds)

/-- A natural number, with or without a plus sign. -/
def natural? (s : String) : Option Nat :=
  match s.toList with
  | '+' :: ds => read? ds
  | ds => read? ds

/-- An integer, with or without a sign. -/
def integer? (s : String) : Option Int :=
  match s.toList with
  | '-' :: ds => (read? ds).map fun n => -(n : Int)
  | '+' :: ds => (read? ds).map Int.ofNat
  | ds => (read? ds).map Int.ofNat

end Vivarium.Digits
