import TypedQuery.Number.Reading
import TypedQuery.Number.Hex
import TypedQuery.Time.Date
import TypedQuery.Toml.Basic

/-!
# Numbers, truth values and times of TOML

Digits may be grouped by single underscores that stand between digits. Integers have no
leading zeros, or a mark of their base and no sign; they are in the range of 128 bits, signed
or unsigned. A floating-point number is finite unless it says otherwise.
-/

namespace TypedQuery.Toml

/-- Digits without the underscores between them. -/
def ungroup? (isDigit : Char → Bool) : List Char → Option (List Char)
  | [] => none
  | [c] => if isDigit c then some [c] else none
  | c :: '_' :: cs => if isDigit c then (ungroup? isDigit cs).map (c :: ·) else none
  | c :: d :: cs => if isDigit c then (ungroup? isDigit (d :: cs)).map (c :: ·) else none

/-- Decimal digits without a needless leading zero. -/
def readPlainDigits? (cs : List Char) : Option (List Char) := do
  let ds ← ungroup? Char.isDigit cs
  match ds with
  | '0' :: _ :: _ => none
  | ds => some ds

/-- A number in a base of at most sixteen. -/
def readInBase? (base : Nat) (cs : List Char) : Option Int := do
  let isDigit (c : Char) : Bool := (Number.hexValue? c).any (· < base)
  let ds ← ungroup? isDigit cs
  some (ds.foldl (fun n c => n * base + (Number.hexValue? c).getD 0) 0 : Nat)

def readInteger? (cs : List Char) : Option Int := do
  let n ← match cs with
    | '0' :: 'x' :: cs => readInBase? 16 cs
    | '0' :: 'o' :: cs => readInBase? 8 cs
    | '0' :: 'b' :: cs => readInBase? 2 cs
    | '-' :: cs => (readPlainDigits? cs).map fun ds => -(Number.ofDigits ds : Int)
    | '+' :: cs => (readPlainDigits? cs).map fun ds => (Number.ofDigits ds : Int)
    | cs => (readPlainDigits? cs).map fun ds => (Number.ofDigits ds : Int)
  if Number.FitsSigned 128 n ∨ Number.FitsUnsigned 128 n then some n else none

/-- The mark and the digits of an exponent, if there is one. -/
def readExponent? : List Char → Option (List Char)
  | [] => some []
  | c :: cs =>
    if c ≠ 'e' ∧ c ≠ 'E' then none
    else
      let (sign, cs) := match cs with
        | '-' :: cs => (['-'], cs)
        | '+' :: cs => ([], cs)
        | cs => ([], cs)
      (ungroup? Char.isDigit cs).map fun ds => 'e' :: sign ++ ds

/-- The digits of an unsigned number with a fraction or an exponent. -/
def readFloatDigits? (cs : List Char) : Option (List Char) := do
  let isGrouped (c : Char) : Bool := c.isDigit || c = '_'
  let whole ← readPlainDigits? (cs.takeWhile isGrouped)
  match cs.dropWhile isGrouped with
  | '.' :: rest =>
    let fraction ← ungroup? Char.isDigit (rest.takeWhile isGrouped)
    let exponent ← readExponent? (rest.dropWhile isGrouped)
    some (whole ++ '.' :: fraction ++ exponent)
  | [] => none
  | rest =>
    let exponent ← readExponent? rest
    some (whole ++ exponent)

def readFloat? (cs : List Char) : Option Double := do
  let (negative, magnitude) := match cs with
    | '-' :: cs => (true, cs)
    | '+' :: cs => (false, cs)
    | cs => (false, cs)
  if magnitude = "inf".toList then some (.infinity negative)
  else if magnitude = "nan".toList then some (.ofWord negative Double.nan.word)
  else
    let ds ← readFloatDigits? magnitude
    let x ← Number.readDouble? ((if negative then ['-'] else []) ++ ds)
    if x.isInfinite then none else some x

/-! ## Dates and times -/

open Calendar

/-- A date with four digits of the year and two of the month and of the day. -/
def skipDate? (cs : List Char) : Option (List Char) := do
  let (year, cs) ← takeNumber? 4 4 cs
  let (month, cs) ← takeNumber? 2 2 (← skip? '-' cs)
  let (day, cs) ← takeNumber? 2 2 (← skip? '-' cs)
  if IsDay year month day then some cs else none

/-- The fraction of a second, if there is one. -/
def skipFraction? : List Char → Option (List Char)
  | '.' :: cs => (takeNumber? 1 cs.length cs).map Prod.snd
  | cs => some cs

/-- A clock reading; the seconds may be left out. -/
def skipClock? (cs : List Char) : Option (List Char) := do
  let (hour, cs) ← takeNumber? 2 2 cs
  let (minute, cs) ← takeNumber? 2 2 (← skip? ':' cs)
  if 23 < hour ∨ 59 < minute then none
  match cs with
  | ':' :: cs =>
    let (second, cs) ← takeNumber? 2 2 cs
    if 60 < second then none
    skipFraction? cs
  | cs => some cs

/-- Is the text nothing or an offset from universal time? -/
def isOffset (cs : List Char) : Bool :=
  match cs with
  | [] | ['Z'] | ['z'] => true
  | sign :: cs =>
    (sign = '+' || sign = '-') && ((do
      let (hour, cs) ← takeNumber? 2 2 cs
      let (minute, cs) ← takeNumber? 2 2 (← skip? ':' cs)
      some (hour ≤ 23 && minute ≤ 59 && cs.isEmpty)).getD false)

/-- Is the text a date, a time, or both with a mark or a blank between them? -/
def isMoment (cs : List Char) : Bool :=
  match skipDate? cs with
  | some [] => true
  | some (c :: rest) =>
    (c = 'T' || c = 't' || c = ' ') && (skipClock? rest).any isOffset
  | none => skipClock? cs == some []

/-! ## Scalars -/

def isScalarPart (c : Char) : Bool := c.isAlphanum || c ∈ ['+', '-', '_', '.', ':']

/-- What a scalar is written with: one word, or a date and a time with a blank between them. -/
def scalarText (cs : List Char) : List Char :=
  let word := cs.takeWhile isScalarPart
  match skipDate? word, cs.drop word.length with
  | some [], ' ' :: c :: rest =>
    if c.isDigit then word ++ ' ' :: (c :: rest).takeWhile isScalarPart else word
  | _, _ => word

def readScalar? (cs : List Char) : Option Toml :=
  if cs = "true".toList then some (.bool true)
  else if cs = "false".toList then some (.bool false)
  else (readInteger? cs).map .integer <|> (readFloat? cs).map .float <|>
    if isMoment cs then some .moment else none

/-- A value that is neither a string nor a container. -/
def takeScalar? (cs : List Char) : Option (Toml × List Char) :=
  let text := scalarText cs
  (readScalar? text).map fun v => (v, cs.drop text.length)

end TypedQuery.Toml
