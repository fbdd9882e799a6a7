import TypedQuery.Number.Digits
import TypedQuery.Number.Double

/-!
# The shortest decimal that reads back

A finite number is written with the fewest digits that still round to it. The
decimals of `n` digits form a grid; the two grid points around the number are
tried for growing `n`, and of two that read back the nearer one is taken.
-/

namespace TypedQuery

/-- A decimal number `digits * 10 ^ exponent`. -/
structure Decimal10 where
  digits : Nat
  exponent : Int

/-- Which of two equally near grid points is written. -/
inductive Tie where
  | upward
  | toEven

namespace Double

/-- The positive reals that round to one number, in quarters of a unit: the number
itself and the midpoints to its neighbours, which belong to it if `closed`. -/
structure Neighbourhood where
  lower : Nat
  centre : Nat
  upper : Nat
  closed : Bool

/-- The reals that round to a positive finite number. -/
def neighbourhood (x : Double) : Neighbourhood :=
  let fraction := x.word % Nat.pow 2 52
  let exponent := x.word / Nat.pow 2 52
  let step := Nat.pow 2 (exponent - 1)
  let below := if fraction = 0 ∧ 1 < exponent then step else 2 * step
  { lower := 4 * x.magnitude - below
    centre := 4 * x.magnitude
    upper := 4 * x.magnitude + 2 * step
    closed := fraction % 2 = 0 }

namespace Neighbourhood

variable (n : Neighbourhood)

def contains (a b : Nat → Nat) (candidate : Nat) : Bool :=
  if n.closed then b n.lower ≤ a candidate && a candidate ≤ b n.upper
  else b n.lower < a candidate && a candidate < b n.upper

/-- The point of the grid `10 ^ exponent` that is written for the centre, if one of the
two around it reads back. -/
def onGrid (tie : Tie) (exponent : Int) : Option Nat :=
  let grid (c : Nat) : Nat := c * Nat.pow 10 exponent.toNat * Nat.pow 2 (scale + 2)
  let real (v : Nat) : Nat := v * Nat.pow 10 (-exponent).toNat
  let low := real n.centre / grid 1
  let high := low + 1
  let takeLow := n.contains grid real low
  let takeHigh := n.contains grid real high
  if takeLow && takeHigh then
    let down := real n.centre - grid low
    let up := grid high - real n.centre
    if down < up then some low
    else if up < down then some high
    else match tie with
      | .upward => some high
      | .toEven => some (if low % 2 = 0 then low else high)
  else if takeLow then some low
  else if takeHigh then some high
  else none

/-- Tries the grids from `10 ^ exponent` on, each ten times as fine as the one before. -/
def search (tie : Tie) : Nat → Int → Decimal10
  | 0, exponent => ⟨0, exponent⟩
  | tries + 1, exponent =>
    match n.onGrid tie exponent with
    | some d => ⟨d, exponent⟩
    | none => search tie tries (exponent - 1)

end Neighbourhood

/-- The shortest decimal that rounds to the size of a finite number other than zero. -/
def shortest (tie : Tie) (x : Double) : Decimal10 :=
  let binary : Int := (x.magnitude.log2 : Int) - scale
  let start := binary * 30103 / 100000 + 2
  x.neighbourhood.search tie 24 start

end Double

namespace Decimal10

/-- The whole part and the fraction of the decimal, in digits. -/
def split (d : Decimal10) : String × String :=
  let ds := Number.digits d.digits
  if 0 ≤ d.exponent then
    (String.ofList (ds ++ List.replicate d.exponent.toNat '0'), "")
  else
    let places := (-d.exponent).toNat
    let whole := ds.length - places
    if whole = 0 then
      ("0", String.ofList (List.replicate (places - ds.length) '0' ++ ds))
    else (String.ofList (ds.take whole), String.ofList (ds.drop whole))

/-- The number of digits in front of the point, counted below zero for a fraction that
starts with zeros. -/
def pointPlace (d : Decimal10) : Int := (Number.digits d.digits).length + d.exponent

end Decimal10

namespace Double

/-- Positional text with the given fraction for whole numbers: no exponent, and a
fraction only where one is needed. -/
def textWith (wholeFraction : String) (x : Double) : String :=
  let sign := if x.isNegative then "-" else ""
  if x.isNaN then "NaN"
  else if x.isInfinite then sign ++ "inf"
  else
    let (whole, fraction) := if x.isZero then ("0", "") else (x.shortest .upward).split
    sign ++ whole ++ (if fraction = "" then wholeFraction else "." ++ fraction)

/-- The text of a number: whole numbers have no point. -/
def text (x : Double) : String := x.textWith ""

end Double

end TypedQuery
