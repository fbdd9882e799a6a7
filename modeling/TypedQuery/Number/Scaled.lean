import TypedQuery.Number.Digits

/-!
# Decimals with a scale

A coefficient of 96 bits with up to 28 digits behind the point. The scale is part
of the number: `1.50` keeps its zero. Reading stops at the first fraction digit
that does not fit, which decides the rounding; a half goes up.
-/

namespace TypedQuery

/-- Coefficients are below this bound, which is the number of words of 96 bits. -/
def ScaledDecimal.bound : Nat := Nat.pow 2 96

/-- The number `± coefficient / 10 ^ scale`. -/
structure ScaledDecimal where
  negative : Bool
  coefficient : Nat
  scale : Nat
  coefficient_lt : coefficient < ScaledDecimal.bound
  scale_le : scale ≤ 28
deriving DecidableEq

namespace ScaledDecimal

/-- The decimal with these parts if they are in range. -/
def ofParts? (negative : Bool) (coefficient scale : Nat) : Option ScaledDecimal :=
  if h : coefficient < bound ∧ scale ≤ 28 then
    some ⟨negative, coefficient, scale, h.1, h.2⟩
  else none

/-- The coefficient and scale after rounding by a digit that no longer fits. A carry out of
the coefficient costs one fraction digit. -/
def roundBy? (coefficient scale : Nat) (c : Char) : Option (Nat × Nat) :=
  if c < '5' then some (coefficient, scale)
  else if coefficient + 1 < bound then some (coefficient + 1, scale)
  else if scale = 0 then none
  else some ((coefficient + 5) / 10, scale - 1)

/-- A coefficient below this bound leaves room in 64 bits for another digit. -/
def wordBound : Nat := 1844674407370954906

/-- Rounds by the digits that no longer fit, with underscores between them. An underscore in
front of all of them stands for a zero if the coefficient without its last digit is below
`wordBound`. -/
def roundOff? (coefficient scale : Nat) (cs : List Char) : Option (Nat × Nat) :=
  if !cs.all fun c => c.isDigit || c = '_' then none
  else if coefficient / 10 < wordBound && cs.head? = some '_' then some (coefficient, scale)
  else match cs.find? Char.isDigit with
    | some c => roundBy? coefficient scale c
    | none => some (coefficient, scale)

/-- Reads digits behind those that gave `coefficient` and `scale`. An underscore may stand
anywhere behind the first digit. -/
def readFrom? (point started : Bool) (coefficient scale : Nat) : List Char → Option (Nat × Nat)
  | [] => if started then some (coefficient, scale) else none
  | c :: cs =>
    if point && 28 ≤ scale then roundOff? coefficient scale (c :: cs)
    else if c.isDigit then
      let next := coefficient * 10 + (c.toNat - '0'.toNat)
      if next < bound then readFrom? point true next (if point then scale + 1 else scale) cs
      else if point then roundOff? coefficient scale (c :: cs)
      else none
    else if c = '.' && !point then readFrom? true started coefficient scale cs
    else if c = '_' && started then readFrom? point started coefficient scale cs
    else none

/-- A decimal without an exponent. Zero is read without a sign. -/
def readPlain? (cs : List Char) : Option ScaledDecimal :=
  let (negative, cs) := match cs with
    | '-' :: rest => (true, rest)
    | '+' :: rest => (false, rest)
    | _ => (false, cs)
  (readFrom? false false 0 0 cs).bind fun (coefficient, scale) => ofParts? (negative && coefficient != 0) coefficient scale

/-- The decimal times `10 ^ n`: the point moves within the digits behind it, and beyond them
the result is whole. -/
def raise? (d : ScaledDecimal) (n : Nat) : Option ScaledDecimal :=
  if n ≤ d.scale then ofParts? d.negative d.coefficient (d.scale - n)
  else if 28 < n then none
  else ofParts? d.negative (d.coefficient * Nat.pow 10 (n - d.scale)) 0

/-- The decimal divided by `10 ^ n`. Digits behind the last possible place are rounded off, a
half going away from zero; the sign stays, even if no digit does. -/
def lower? (d : ScaledDecimal) (n : Nat) : Option ScaledDecimal :=
  if 28 < n then none
  else if d.scale + n ≤ 28 then ofParts? d.negative d.coefficient (d.scale + n)
  else
    let beyond := d.scale + n - 28
    ofParts? d.negative ((d.coefficient / Nat.pow 10 (beyond - 1) + 5) / 10) 28

/-- A decimal in front of an exponent. -/
def readScientific? (cs : List Char) : Option ScaledDecimal := do
  let mark (c : Char) : Bool := c = 'e' || c = 'E'
  let base ← readPlain? (cs.takeWhile (!mark ·))
  match cs.dropWhile (!mark ·) with
  | [] => none
  | _ :: '-' :: exponent => (Number.readUnsigned? exponent).bind base.lower?
  | _ :: exponent => (Number.readUnsigned? exponent).bind base.raise?

/-- A decimal in text, with or without an exponent. -/
def read? (cs : List Char) : Option ScaledDecimal := readPlain? cs <|> readScientific? cs

/-- All digits of the scale are written. -/
def text (d : ScaledDecimal) : String :=
  let ds := (Number.padded (d.scale + 1) d.coefficient).toList
  let whole := String.ofList (ds.take (ds.length - d.scale))
  let fraction := String.ofList (ds.drop (ds.length - d.scale))
  (if d.negative then "-" else "") ++ whole ++
    (if d.scale = 0 then "" else "." ++ fraction)

end ScaledDecimal

end TypedQuery
