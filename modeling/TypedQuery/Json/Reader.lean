import TypedQuery.Json.Basic
import TypedQuery.Number.Digits
import TypedQuery.Number.Hex

/-!
# Reading JSON documents

The strict grammar: no comments, no trailing commas, no leading zeros, and nothing but
white space around the document. Arrays and objects nest at most 127 deep.

A number without point or exponent is whole when it is in the range of a 64-bit integer.
Any other number keeps as many leading digits as fit in 64 bits and is scaled by a power
of ten, with one rounding; one that becomes infinite is refused.
-/

namespace TypedQuery.Json

def isSpace (c : Char) : Bool := c = ' ' || c = '\n' || c = '\t' || c = '\r'

def skipSpace (cs : List Char) : List Char := cs.dropWhile isSpace

/-- The text behind an expected word. -/
def skipWord? : List Char → List Char → Option (List Char)
  | [], cs => some cs
  | w :: ws, c :: cs => if w = c then skipWord? ws cs else none
  | _ :: _, [] => none

/-! ## Numbers -/

/-- Appends digits to a number while it fits in 64 bits; gives it with the number of
digits taken. -/
def takeDigits : Nat → List Char → Nat × Nat
  | n, [] => (n, 0)
  | n, d :: ds =>
    let next := n * 10 + (d.toNat - '0'.toNat)
    if next < UInt64.size then
      let (m, taken) := takeDigits next ds
      (m, taken + 1)
    else (n, 0)

def powerOfTen (n : Nat) : Double := Double.ofRatio false (Nat.pow 10 n) 1

/-- Divides by a power of ten, in steps that are themselves in range. -/
def scaleDown : Nat → Double → Nat → Double
  | 0, x, _ => x
  | steps + 1, x, n =>
    if n ≤ 308 then x.div (powerOfTen n)
    else scaleDown steps (x.div (powerOfTen 308)) (n - 308)

/-- A number of 64 bits times a power of ten, unless that is infinite. -/
def scaleBy? (n : Nat) (power : Int) : Option Double :=
  let x := Double.ofInt n
  if power < 0 then some (scaleDown 4 x power.natAbs)
  else if 308 < power then (if n = 0 then some x else none)
  else
    let y := x.mul (powerOfTen power.natAbs)
    if y.isInfinite then none else some y

/-- The digits of an integer part: a single zero, or digits that do not start with one. -/
def takeWhole? (cs : List Char) : Option (List Char × List Char) :=
  match cs.takeWhile Char.isDigit with
  | [] => none
  | ['0'] => some (['0'], cs.drop 1)
  | '0' :: _ => none
  | ds => some (ds, cs.drop ds.length)

/-- The digits behind a point, if there is one. -/
def takeFraction? : List Char → Option (Option (List Char) × List Char)
  | '.' :: cs =>
    let ds := cs.takeWhile Char.isDigit
    if ds = [] then none else some (some ds, cs.drop ds.length)
  | cs => some (none, cs)

/-- The power of ten behind an exponent mark, if there is one. -/
def takeExponent? : List Char → Option (Option Int × List Char)
  | [] => some (none, [])
  | c :: cs =>
    if c = 'e' ∨ c = 'E' then
      let (sign, cs) : Int × List Char := match cs with
        | '-' :: rest => (-1, rest)
        | '+' :: rest => (1, rest)
        | _ => (1, cs)
      let ds := cs.takeWhile Char.isDigit
      if ds = [] then none
      else some (some (sign * (Number.ofDigits ds : Int)), cs.drop ds.length)
    else some (none, c :: cs)

/-- A number without its sign. -/
def takeMagnitude? (negative : Bool) (cs : List Char) : Option (JsonNumber × List Char) := do
  let (whole, cs) ← takeWhole? cs
  let (fraction, cs) ← takeFraction? cs
  let (exponent, cs) ← takeExponent? cs
  let n := Number.ofDigits whole
  if fraction.isNone && exponent.isNone && !negative && n < UInt64.size then
    some (.whole n, cs)
  else if fraction.isNone && exponent.isNone && negative && 0 < n && n ≤ 0x8000000000000000 then
    some (.whole (-(n : Int)), cs)
  else do
    let (kept, taken) := takeDigits 0 whole
    let (kept, places) := takeDigits kept (fraction.getD [])
    let x ← scaleBy? kept (exponent.getD 0 + (whole.length - taken : Nat) - places)
    some (.real (if negative then x.neg else x), cs)

def takeNumber? : List Char → Option (JsonNumber × List Char)
  | '-' :: cs => takeMagnitude? true cs
  | cs => takeMagnitude? false cs

/-! ## Strings -/

/-- A unit of 16 bits in four hexadecimal digits. -/
def takeUnit? (cs : List Char) : Option (Nat × List Char) :=
  if cs.length < 4 then none else (Number.readHex? (cs.take 4)).map ((·, cs.drop 4))

/-- A character given by its units: the first half of a pair must be followed by the
second, and the second half never stands alone. -/
def takeUnits? (cs : List Char) : Option (Char × List Char) := do
  let (high, cs) ← takeUnit? cs
  if high < 0xD800 ∨ 0xDFFF < high then some (Char.ofNat high, cs)
  else if 0xDC00 ≤ high then none
  else
    let cs ← skipWord? ['\\', 'u'] cs
    let (low, cs) ← takeUnit? cs
    if low < 0xDC00 ∨ 0xDFFF < low then none
    else some (Char.ofNat (0x10000 + (high - 0xD800) * 0x400 + (low - 0xDC00)), cs)

/-- The character behind a backslash. -/
def takeEscape? : List Char → Option (Char × List Char)
  | '"' :: cs => some ('"', cs)
  | '\\' :: cs => some ('\\', cs)
  | '/' :: cs => some ('/', cs)
  | 'b' :: cs => some ('\x08', cs)
  | 'f' :: cs => some ('\x0c', cs)
  | 'n' :: cs => some ('\n', cs)
  | 'r' :: cs => some ('\r', cs)
  | 't' :: cs => some ('\t', cs)
  | 'u' :: cs => takeUnits? cs
  | _ => none

/-- The rest of a string behind its opening quote; `fuel` is at least its length. -/
def takeString? : Nat → List Char → List Char → Option (String × List Char)
  | 0, _, _ => none
  | _ + 1, _, [] => none
  | fuel + 1, read, c :: cs =>
    if c = '"' then some (String.ofList read.reverse, cs)
    else if c = '\\' then do
      let (d, cs) ← takeEscape? cs
      takeString? fuel (d :: read) cs
    else if c.toNat < 0x20 then none
    else takeString? fuel (c :: read) cs

/-- A key in quotes. -/
def takeKey? : List Char → Option (String × List Char)
  | '"' :: cs => takeString? (cs.length + 1) [] cs
  | _ => none

/-! ## Documents -/

mutual

/-- A value that starts at the first character. `depth` is the number of containers that
may still be opened, and `fuel` bounds the steps. -/
def takeValue? (fuel depth : Nat) (cs : List Char) : Option (Json × List Char) :=
  match fuel with
  | 0 => none
  | fuel + 1 =>
    match cs with
    | 'n' :: rest => (skipWord? "ull".toList rest).map ((.null, ·))
    | 't' :: rest => (skipWord? "rue".toList rest).map ((.bool true, ·))
    | 'f' :: rest => (skipWord? "alse".toList rest).map ((.bool false, ·))
    | '"' :: rest => (takeString? (rest.length + 1) [] rest).map fun (s, rest) => (.text s, rest)
    | '[' :: rest =>
      if depth = 0 then none
      else match skipSpace rest with
        | ']' :: rest => some (.array [], rest)
        | rest => (takeItems? fuel (depth - 1) rest).map fun (items, rest) => (.array items, rest)
    | '\x7b' :: rest =>
      if depth = 0 then none
      else match skipSpace rest with
        | '\x7d' :: rest => some (.object [], rest)
        | rest => (takeFields? fuel (depth - 1) rest).map fun (fs, rest) => (.ofFields fs, rest)
    | _ => (takeNumber? cs).map fun (n, rest) => (.number n, rest)
termination_by structural fuel

/-- One or more items and the bracket that closes them. -/
def takeItems? (fuel depth : Nat) (cs : List Char) : Option (List Json × List Char) :=
  match fuel with
  | 0 => none
  | fuel + 1 => do
    let (item, cs) ← takeValue? fuel depth cs
    match skipSpace cs with
    | ']' :: rest => some ([item], rest)
    | ',' :: rest =>
      let (items, rest) ← takeItems? fuel depth (skipSpace rest)
      some (item :: items, rest)
    | _ => none
termination_by structural fuel

/-- One or more fields and the brace that closes them. -/
def takeFields? (fuel depth : Nat) (cs : List Char) : Option (List (String × Json) × List Char) :=
  match fuel with
  | 0 => none
  | fuel + 1 => do
    let (key, cs) ← takeKey? cs
    match skipSpace cs with
    | ':' :: rest =>
      let (value, cs) ← takeValue? fuel depth (skipSpace rest)
      match skipSpace cs with
      | '\x7d' :: rest => some ([(key, value)], rest)
      | ',' :: rest =>
        let (fields, rest) ← takeFields? fuel depth (skipSpace rest)
        some ((key, value) :: fields, rest)
      | _ => none
    | _ => none
termination_by structural fuel

end

/-- A whole document. Every step consumes a character, so twice the length is enough. -/
def read? (s : String) : Option Json := do
  let cs := skipSpace s.toList
  let (value, rest) ← takeValue? (2 * cs.length + 2) 127 cs
  if skipSpace rest = [] then some value else none

end TypedQuery.Json
