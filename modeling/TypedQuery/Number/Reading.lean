import TypedQuery.Number.Digits
import TypedQuery.Number.Double
import TypedQuery.Text.CaseFold

/-!
# Reading floating-point numbers

A sign, digits with at most one point among them and at least one digit, and an
optional exponent; or one of the words `inf`, `infinity` and `nan` in any case.
The nearest number is taken, so every decimal has exactly one reading.
-/

namespace TypedQuery.Number

/-- The parts of an unsigned decimal: its digits without the point, the number of them
behind the point, and the power of ten. -/
structure DecimalParts where
  digits : List Char
  places : Nat
  exponent : Int

/-- The exponent behind the mark `e`, or zero if nothing is left. -/
def readExponent? : List Char → Option Int
  | [] => some 0
  | c :: cs => if c = 'e' ∨ c = 'E' then readInt? cs else none

/-- The parts of a decimal with at least one digit. -/
def readDecimal? (cs : List Char) : Option DecimalParts :=
  let whole := cs.takeWhile Char.isDigit
  let rest := cs.dropWhile Char.isDigit
  let (fraction, rest) := match rest with
    | '.' :: more => (more.takeWhile Char.isDigit, more.dropWhile Char.isDigit)
    | _ => ([], rest)
  if whole = [] ∧ fraction = [] then none
  else (readExponent? rest).map fun exponent => ⟨whole ++ fraction, fraction.length, exponent⟩

/-- An unsigned number in text. -/
inductive NumberText where
  | infinite
  | notANumber
  | decimal (d : DecimalParts)

/-- What an unsigned text stands for. -/
def readUnsignedText? (cs : List Char) : Option NumberText :=
  let word := cs.map Char.toLower
  if word = "inf".toList ∨ word = "infinity".toList then some .infinite
  else if word = "nan".toList then some .notANumber
  else (readDecimal? cs).map .decimal

/-- Is the number negative, and what follows the sign? -/
def readText? : List Char → Option (Bool × NumberText)
  | '-' :: cs => (readUnsignedText? cs).map fun t => (true, t)
  | '+' :: cs => (readUnsignedText? cs).map fun t => (false, t)
  | cs => (readUnsignedText? cs).map fun t => (false, t)

namespace DecimalParts

/-- The number as a quotient, or none if it is too large for any format. A power of ten that
no digits of that number can bring back into a range is not computed; the number is zero. -/
def quotient? (d : DecimalParts) : Option (Nat × Nat) :=
  let n := ofDigits d.digits
  let power := d.exponent - d.places
  if n = 0 ∨ power + d.digits.length < -400 then some (0, 1)
  else if 400 < power then none
  else some (n * Nat.pow 10 power.toNat, Nat.pow 10 (-power).toNat)

end DecimalParts

namespace NumberText

def toDouble (negative : Bool) : NumberText → Double
  | infinite => Double.infinity negative
  | notANumber => Double.ofWord negative Double.nan.word
  | decimal d =>
    match d.quotient? with
    | some (num, den) => Double.ofRatio negative num den
    | none => Double.infinity negative

def toSingle (negative : Bool) : NumberText → Single
  | infinite => Single.infinity negative
  | notANumber => Single.ofDouble (Double.ofWord negative Double.nan.word)
  | decimal d =>
    match d.quotient? with
    | some (num, den) => Single.ofRatio negative num den
    | none => Single.infinity negative

end NumberText

/-- A floating-point number in text. -/
def readDouble? (cs : List Char) : Option Double :=
  (readText? cs).map fun (negative, t) => t.toDouble negative

/-- A floating-point number of 32 bits in text; it is rounded once. -/
def readSingle? (cs : List Char) : Option Single :=
  (readText? cs).map fun (negative, t) => t.toSingle negative

end TypedQuery.Number
