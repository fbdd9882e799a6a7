/-!
# Binary floating-point numbers

Numbers of 64 bits and their arithmetic, carried out exactly on integers and
rounded once. A finite number is an integer multiple of the least positive one,
so its value is that integer, `Double.scaled`. Rounding goes to the nearest
representable value and a tie to the even neighbour; what exceeds the largest
finite value becomes infinite.

Every not-a-number produced here has the same bits, so a result does not depend
on which operand was not a number.
-/

namespace TypedQuery

/-- The quotient of two numbers rounded to the nearest whole one, a tie to the even. -/
def roundHalfEven (num den : Nat) : Nat :=
  let q := num / den
  let r := num % den
  if 2 * r < den ∨ (2 * r = den ∧ q % 2 = 0) then q else q + 1

/-- A layout of sign, exponent and fraction in one word. -/
structure BinaryFormat where
  fractionBits : Nat
  exponentBits : Nat

namespace BinaryFormat

def double : BinaryFormat := ⟨52, 11⟩

def single : BinaryFormat := ⟨23, 8⟩

variable (f : BinaryFormat)

/-- The word of an infinity, without its sign. -/
def infinity : Nat := (Nat.pow 2 f.exponentBits - 1) * Nat.pow 2 f.fractionBits

/-- The word without sign that is nearest to `num / den` units, the unit being the
least positive number of the format. -/
def round (num den : Nat) : Nat :=
  let excess := (num / den).log2 - f.fractionBits
  min (excess * Nat.pow 2 f.fractionBits + roundHalfEven num (den * Nat.pow 2 excess)) f.infinity

/-- The value of a finite word without sign, in units. -/
def magnitude (word : Nat) : Nat :=
  let exponent := word / Nat.pow 2 f.fractionBits
  let fraction := word % Nat.pow 2 f.fractionBits
  if exponent = 0 then fraction
  else (Nat.pow 2 f.fractionBits + fraction) * Nat.pow 2 (exponent - 1)

end BinaryFormat

/-- A floating-point number of 64 bits, told apart by its bits. -/
structure Double where
  bits : UInt64
deriving DecidableEq, Inhabited

namespace Double

/-- There are `2 ^ scale` units in one. -/
def scale : Nat := 1074

def isNegative (x : Double) : Bool := Nat.pow 2 63 ≤ x.bits.toNat

/-- The bits below the sign. -/
def word (x : Double) : Nat := x.bits.toNat % Nat.pow 2 63

def isNaN (x : Double) : Bool := BinaryFormat.double.infinity < x.word

def isInfinite (x : Double) : Bool := x.word == BinaryFormat.double.infinity

def isFinite (x : Double) : Bool := x.word < BinaryFormat.double.infinity

def isZero (x : Double) : Bool := x.word == 0

/-- The number with the given sign and the given bits below it. -/
def ofWord (negative : Bool) (word : Nat) : Double :=
  ⟨UInt64.ofNat ((if negative then Nat.pow 2 63 else 0) + word)⟩

def nan : Double := ⟨0x7FF8000000000000⟩

/-- What an invalid operation gives: no number, with the sign bit set. -/
def invalid : Double := ⟨0xFFF8000000000000⟩

def infinity (negative : Bool) : Double := ofWord negative BinaryFormat.double.infinity

def zero (negative : Bool) : Double := ofWord negative 0

/-- The size of a finite number in units. -/
def magnitude (x : Double) : Nat := BinaryFormat.double.magnitude x.word

/-- The value of a finite number in units. -/
def scaled (x : Double) : Int := if x.isNegative then -(x.magnitude : Int) else x.magnitude

/-- The number nearest to `± num / den` units. -/
def ofUnits (negative : Bool) (num den : Nat) : Double :=
  ofWord negative (BinaryFormat.double.round num den)

/-- The number nearest to `± num / den`. -/
def ofRatio (negative : Bool) (num den : Nat) : Double :=
  ofUnits negative (num * Nat.pow 2 scale) den

def ofInt (n : Int) : Double := ofRatio (n < 0) n.natAbs 1

/-- The place of a number in the order of numbers; both zeros share one place. -/
def rank (x : Double) : Int := if x.isNegative then -(x.word : Int) else x.word

/-- How two numbers are ordered; what is not a number has no place in the order. -/
def compare? (x y : Double) : Option Ordering :=
  if x.isNaN || y.isNaN then none else some (compare x.rank y.rank)

/-- Are the numbers equal as numbers? Zeros of both signs are. -/
def sameNumber (x y : Double) : Bool := x.compare? y == some .eq

/-- The number when it is whole, as an exact integer. -/
def toInt? (x : Double) : Option Int :=
  if x.isFinite && x.magnitude % Nat.pow 2 scale == 0 then
    let n : Int := (x.magnitude / Nat.pow 2 scale : Nat)
    some (if x.isNegative then -n else n)
  else none

def neg (x : Double) : Double := if x.isNaN then x else ofWord (!x.isNegative) x.word

/-- The number of units given by an integer; `zeroSign` is the sign of a zero result. -/
def ofScaled (zeroSign : Bool) (n : Int) : Double :=
  if n = 0 then zero zeroSign else ofUnits (n < 0) n.natAbs 1

def add (x y : Double) : Double :=
  if x.isNaN then x
  else if y.isNaN then y
  else if x.isInfinite then
    if y.isInfinite && x.isNegative != y.isNegative then invalid else x
  else if y.isInfinite then y
  else ofScaled (x.isNegative && y.isNegative) (x.scaled + y.scaled)

def sub (x y : Double) : Double := add x y.neg

def mul (x y : Double) : Double :=
  let negative := x.isNegative != y.isNegative
  if x.isNaN then x
  else if y.isNaN then y
  else if x.isInfinite || y.isInfinite then
    if x.isZero || y.isZero then invalid else infinity negative
  else ofUnits negative (x.magnitude * y.magnitude) (Nat.pow 2 scale)

def div (x y : Double) : Double :=
  let negative := x.isNegative != y.isNegative
  if x.isNaN then x
  else if y.isNaN then y
  else if x.isInfinite then
    if y.isInfinite then invalid else infinity negative
  else if y.isInfinite then zero negative
  else if y.isZero then
    if x.isZero then invalid else infinity negative
  else ofUnits negative (x.magnitude * Nat.pow 2 scale) y.magnitude

/-- The remainder of a division truncated toward zero; it has the sign of the dividend. -/
def rem (x y : Double) : Double :=
  if x.isNaN then x
  else if y.isNaN then y
  else if x.isInfinite || y.isZero then invalid
  else if y.isInfinite then x
  else ofUnits x.isNegative (x.magnitude % y.magnitude) 1

end Double

/-- A floating-point number of 32 bits. -/
structure Single where
  bits : UInt32
deriving DecidableEq, Inhabited

namespace Single

/-- There are `2 ^ scale` units in one. -/
def scale : Nat := 149

def isNegative (x : Single) : Bool := Nat.pow 2 31 ≤ x.bits.toNat

def word (x : Single) : Nat := x.bits.toNat % Nat.pow 2 31

def ofWord (negative : Bool) (word : Nat) : Single :=
  ⟨UInt32.ofNat ((if negative then Nat.pow 2 31 else 0) + word)⟩

def infinity (negative : Bool) : Single := ofWord negative BinaryFormat.single.infinity

/-- The number nearest to `± num / den`. -/
def ofRatio (negative : Bool) (num den : Nat) : Single :=
  ofWord negative (BinaryFormat.single.round (num * Nat.pow 2 scale) den)

/-- The nearest number of 32 bits. -/
def ofDouble (x : Double) : Single :=
  if x.isNaN then ofWord x.isNegative (BinaryFormat.single.infinity + Nat.pow 2 22)
  else if x.isInfinite then infinity x.isNegative
  else ofWord x.isNegative
    (BinaryFormat.single.round x.magnitude (Nat.pow 2 (Double.scale - scale)))

/-- The same number with 64 bits. -/
def toDouble (x : Single) : Double :=
  if BinaryFormat.single.infinity < x.word then Double.ofWord x.isNegative Double.nan.word
  else if x.word = BinaryFormat.single.infinity then Double.infinity x.isNegative
  else Double.ofUnits x.isNegative
    (BinaryFormat.single.magnitude x.word * Nat.pow 2 (Double.scale - scale)) 1

end Single

end TypedQuery
