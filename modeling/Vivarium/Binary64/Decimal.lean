import Vivarium.Binary64.Basic
import Vivarium.Text.Digits

/-!
# Decimal text of binary64 numbers

* `Binary64.plain` : the fewest digits that read back as the number, in positional notation;
* `Binary64.tenths` : one digit after the point, rounded from the exact value, halves to even;
* `Binary64.ofText?` : the number that a decimal numeral names, rounded to nearest.
-/

namespace Vivarium.Binary64

/-! ## Shortest digits -/

/-- A decimal numeral `digits * 10 ^ scale`. -/
structure Numeral where
  digits : Nat
  scale : Int

/-- The reals that round to a positive number, in quarters of `2 ^ -1074`. The gap below a power of
two is half the gap above it, and the ends belong to the interval iff the significand is even. -/
structure Interval where
  low : Nat
  value : Nat
  high : Nat
  closed : Bool

def interval (x : Binary64) : Interval :=
  let gap := 1 <<< (x.exponent - 1)
  let below := if x.fraction = 0 ∧ 1 < x.exponent then gap else 2 * gap
  let value := 4 * x.magnitude
  ⟨value - below, value, value + 2 * gap, x.fraction % 2 == 0⟩

/-- The point of the grid of multiples of `10 ^ scale` that lies in the interval and is nearest to
its value; the greater one of two equally near. -/
def Interval.onGrid (i : Interval) (scale : Int) : Option Nat :=
  let up := Nat.pow 10 (-scale).toNat
  let den := Nat.pow 10 scale.toNat <<< 1076
  let floor := i.value * up / den
  let reaches (n : Nat) : Bool :=
    if i.closed then i.low * up ≤ n * den && n * den ≤ i.high * up
    else i.low * up < n * den && n * den < i.high * up
  let down := reaches floor
  let above := reaches (floor + 1)
  if down && above then
    if 2 * (i.value * up - floor * den) < den then some floor else some (floor + 1)
  else if down then some floor
  else if above then some (floor + 1)
  else none

/-- The shortest numeral in the interval, with seventeen digits at most. -/
def Interval.shortest (i : Interval) : Numeral :=
  let exponent : Int := (Nat.toDigits 10 ((i.value * Nat.pow 10 400) >>> 1076)).length - 400
  let attempt (n : Nat) : Option Numeral :=
    let scale := exponent - (n + 1 : Nat)
    (i.onGrid scale).map fun digits => ⟨digits, scale⟩
  ((List.range 17).findSome? attempt).getD ⟨0, 0⟩

/-- Positional notation: no exponent, and a point only before a fraction. -/
def Numeral.positional (n : Numeral) : String :=
  let written := (toString n.digits).toList
  let kept := (written.reverse.dropWhile (· == '0')).reverse
  let point : Int := n.scale + written.length
  let chars :=
    if point ≤ 0 then '0' :: '.' :: List.replicate (-point).toNat '0' ++ kept
    else if kept.length ≤ point.toNat then kept ++ List.replicate (point.toNat - kept.length) '0'
    else kept.take point.toNat ++ '.' :: kept.drop point.toNat
  String.ofList chars

/-- The text with a minus sign in front of the negative numbers, of which one zero is one. -/
def signed (x : Binary64) (text : String) : String :=
  if x.negative then "-" ++ text else text

def plain (x : Binary64) : String :=
  if x.isNaN then "NaN"
  else if x.isInfinite then x.signed "inf"
  else if x.magnitude = 0 then x.signed "0"
  else x.signed x.interval.shortest.positional

/-! ## One decimal place -/

def tenths (x : Binary64) : String :=
  if x.isNaN then "NaN"
  else if x.isInfinite then x.signed "inf"
  else
    let n := roundDiv (10 * x.magnitude) (1 <<< 1074)
    x.signed (toString (n / 10) ++ "." ++ toString (n % 10))

/-! ## Reading -/

/-- The nearest number to `digits * 10 ^ scale`. Beyond four hundred places on either side of the
point the answer is infinity or zero. -/
def ofNumeral (n : Numeral) : Binary64 :=
  let point : Int := n.scale + (toString n.digits).length
  if n.digits = 0 ∨ point < -400 then zero
  else if 400 < point then infinity
  else ofRatio (n.digits * Nat.pow 10 n.scale.toNat) (Nat.pow 10 (-n.scale).toNat)

/-- An exponent part: nothing, or `e`, an optional sign and at least one digit. -/
def readExponent? : List Char → Option Int
  | [] => some 0
  | c :: rest =>
    if c = 'e' ∨ c = 'E' then
      let (negative, ds) : Bool × List Char :=
        match rest with
        | '-' :: ds => (true, ds)
        | '+' :: ds => (false, ds)
        | ds => (false, ds)
      (Digits.read? ds).map fun n => if negative then -(n : Int) else n
    else none

/-- Digits with an optional point, at least one digit on either side of it, and an exponent. -/
def readNumeral? (cs : List Char) : Option Numeral :=
  let whole := cs.takeWhile Char.isDigit
  let rest := cs.dropWhile Char.isDigit
  let (fraction, rest) : List Char × List Char :=
    match rest with
    | '.' :: rest => (rest.takeWhile Char.isDigit, rest.dropWhile Char.isDigit)
    | rest => ([], rest)
  if whole.isEmpty && fraction.isEmpty then none
  else (readExponent? rest).map fun e => ⟨Digits.value (whole ++ fraction), e - fraction.length⟩

/-- A numeral, an infinity or a NaN, without a sign. -/
def readUnsigned? (cs : List Char) : Option Binary64 :=
  let lower := cs.map Char.toLower
  if lower = "inf".toList ∨ lower = "infinity".toList then some infinity
  else if lower = "nan".toList then some nan
  else (readNumeral? cs).map ofNumeral

def ofText? (s : String) : Option Binary64 :=
  match s.toList with
  | '-' :: cs => (readUnsigned? cs).map negate
  | '+' :: cs => readUnsigned? cs
  | cs => readUnsigned? cs

end Vivarium.Binary64
