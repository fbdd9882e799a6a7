import TypedQuery.Number.Digits
import TypedQuery.Text.Blank

/-!
# Dates

Days of the proleptic Gregorian calendar, with years before 1 and after 9999.
-/

namespace TypedQuery

namespace Calendar

def isLeap (year : Int) : Bool := year % 4 == 0 && (year % 100 != 0 || year % 400 == 0)

def daysInMonth (year : Int) (month : Nat) : Nat :=
  if month = 2 then (if isLeap year then 29 else 28)
  else if month = 4 ∨ month = 6 ∨ month = 9 ∨ month = 11 then 30
  else 31

/-- The days that exist in the supported range of years. -/
def IsDay (year : Int) (month day : Nat) : Prop :=
  -262143 ≤ year ∧ year ≤ 262142 ∧ 1 ≤ month ∧ month ≤ 12 ∧ 1 ≤ day ∧ day ≤ daysInMonth year month

instance (year : Int) (month day : Nat) : Decidable (IsDay year month day) :=
  inferInstanceAs (Decidable (_ ∧ _))

/-- A number of at least `least` digits at the front of a text, of which at most `most`
digits are taken. -/
def takeNumber? (least most : Nat) (cs : List Char) : Option (Nat × List Char) :=
  let ds := (cs.take most).takeWhile Char.isDigit
  if ds.length < least then none else some (Number.ofDigits ds, cs.drop ds.length)

/-- The text behind one expected character. -/
def skip? (c : Char) : List Char → Option (List Char)
  | [] => none
  | d :: cs => if d = c then some cs else none

/-- The text behind one expected character, which may have white space in front. -/
def skipLoose? (c : Char) (cs : List Char) : Option (List Char) := skip? c (cs.dropWhile Text.isBlank)

end Calendar

structure Date where
  year : Int
  month : Nat
  day : Nat
  isDay : Calendar.IsDay year month day
deriving DecidableEq

namespace Date

open Calendar

def ofParts? (year : Int) (month day : Nat) : Option Date :=
  if h : IsDay year month day then some ⟨year, month, day, h⟩ else none

/-- Dates are ordered as days. -/
def compare (a b : Date) : Ordering :=
  (Ord.compare a.year b.year).then ((Ord.compare a.month b.month).then (Ord.compare a.day b.day))

/-- Years of four digits are written plain, all others with a sign. -/
def yearText (year : Int) : String :=
  if 0 ≤ year ∧ year ≤ 9999 then Number.padded 4 year.natAbs
  else (if year < 0 then "-" else "+") ++ Number.padded 4 year.natAbs

def text (d : Date) : String :=
  yearText d.year ++ "-" ++ Number.padded 2 d.month ++ "-" ++ Number.padded 2 d.day

/-- A year in text: up to four digits, or any number of them behind a sign. -/
def takeYear? : List Char → Option (Int × List Char)
  | '-' :: cs => (takeNumber? 1 cs.length cs).map fun (n, rest) => (-(n : Int), rest)
  | '+' :: cs => (takeNumber? 1 cs.length cs).map fun (n, rest) => ((n : Int), rest)
  | cs => (takeNumber? 1 4 cs).map fun (n, rest) => ((n : Int), rest)

/-- A date at the front of a text. White space may stand before each number, and a month or a
day may have one digit; `mark?` reads what is between them. -/
def takeWith? (mark? : List Char → Option (List Char)) (cs : List Char) :
    Option (Date × List Char) := do
  let (year, cs) ← takeYear? (cs.dropWhile Text.isBlank)
  let (month, cs) ← takeNumber? 1 2 ((← mark? cs).dropWhile Text.isBlank)
  let (day, cs) ← takeNumber? 1 2 ((← mark? cs).dropWhile Text.isBlank)
  some (← ofParts? year month day, cs)

/-- A date in text, with no white space in front of its marks and behind it. -/
def read? (cs : List Char) : Option Date := do
  match ← takeWith? (skip? '-') cs with
  | (date, []) => some date
  | _ => none

/-- A date at the front of a text, with any white space between its parts. -/
def takeLoose? (cs : List Char) : Option (Date × List Char) := takeWith? (skipLoose? '-') cs

/-- A date in text, with any white space between its parts and behind it. -/
def readLoose? (cs : List Char) : Option Date := do
  let (date, cs) ← takeLoose? cs
  if cs.all Text.isBlank then some date else none

/-- The number of days since the first of March of the year zero. -/
def dayNumber (d : Date) : Int :=
  let shifted : Int := if d.month ≤ 2 then d.year - 1 else d.year
  let era := Int.fdiv shifted 400
  let yearOfEra := shifted - era * 400
  let monthFromMarch : Int := ((d.month : Int) + 9) % 12
  let dayOfYear := (153 * monthFromMarch + 2) / 5 + d.day - 1
  era * 146097 + yearOfEra * 365 + yearOfEra / 4 - yearOfEra / 100 + dayOfYear

/-- The date of a day number, if it is in range. -/
def ofDayNumber? (n : Int) : Option Date :=
  let era := Int.fdiv n 146097
  let dayOfEra := n - era * 146097
  let yearOfEra := (dayOfEra - dayOfEra / 1460 + dayOfEra / 36524 - dayOfEra / 146096) / 365
  let dayOfYear := dayOfEra - (365 * yearOfEra + yearOfEra / 4 - yearOfEra / 100)
  let monthFromMarch := (5 * dayOfYear + 2) / 153
  let day := dayOfYear - (153 * monthFromMarch + 2) / 5 + 1
  let month := if monthFromMarch < 10 then monthFromMarch + 3 else monthFromMarch - 9
  let year := yearOfEra + era * 400 + (if month ≤ 2 then 1 else 0)
  ofParts? year month.toNat day.toNat

end Date

end TypedQuery
