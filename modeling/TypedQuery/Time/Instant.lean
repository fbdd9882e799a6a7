import TypedQuery.Time.Date

/-!
# Instants

Points in time to the nanosecond, in universal time. A leap second is the second
before it with more than a billion nanoseconds.
-/

namespace TypedQuery

structure Instant where
  date : Date
  second : Nat
  nano : Nat
  second_lt : second < 86400
  nano_lt : nano < 2000000000
deriving DecidableEq

namespace Instant

open Calendar

def ofParts? (date : Date) (second nano : Nat) : Option Instant :=
  if h : second < 86400 ∧ nano < 2000000000 then some ⟨date, second, nano, h.1, h.2⟩ else none

/-- The first instant of a day. -/
def midnight (date : Date) : Instant := ⟨date, 0, 0, by decide, by decide⟩

def compare (a b : Instant) : Ordering :=
  (a.date.compare b.date).then ((Ord.compare a.second b.second).then (Ord.compare a.nano b.nano))

/-- The instant whose clock reading was taken `offset` seconds ahead of universal time. -/
def earlier? (i : Instant) (offset : Int) : Option Instant := do
  let total := (i.second : Int) - offset
  let date ← Date.ofDayNumber? (i.date.dayNumber + Int.fdiv total 86400)
  ofParts? date (Int.fmod total 86400).toNat i.nano

/-- The fraction of a second: none, or the fewest of 3, 6 and 9 digits that are exact. -/
def fractionText (nano : Nat) : String :=
  if nano = 0 then ""
  else if nano % 1000000 = 0 then "." ++ Number.padded 3 (nano / 1000000)
  else if nano % 1000 = 0 then "." ++ Number.padded 6 (nano / 1000)
  else "." ++ Number.padded 9 nano

/-- The instant with the given mark for universal time. -/
def textWith (zone : String) (i : Instant) : String :=
  let (second, nano) :=
    if i.nano < 1000000000 then (i.second % 60, i.nano)
    else (i.second % 60 + 1, i.nano - 1000000000)
  i.date.text ++ "T" ++ Number.padded 2 (i.second / 3600) ++ ":" ++
    Number.padded 2 (i.second / 60 % 60) ++ ":" ++ Number.padded 2 second ++
    fractionText nano ++ zone

/-- The instant with its distance from universal time, which is zero. -/
def text (i : Instant) : String := i.textWith "+00:00"

/-- The instant with the mark `Z`. -/
def zuluText (i : Instant) : String := i.textWith "Z"

/-- Nanoseconds behind the point of a second; digits beyond the ninth are cut off. -/
def takeFraction? : List Char → Option (Nat × List Char)
  | '.' :: cs => do
    let (n, rest) ← takeNumber? 1 9 cs
    let places := (cs.take 9).takeWhile Char.isDigit |>.length
    some (n * Nat.pow 10 (9 - places), rest.dropWhile Char.isDigit)
  | cs => some (0, cs)

/-- The seconds of an offset from universal time at the front of a text. `mark?` reads what is
between its hours and its minutes. -/
def takeOffset? (mark? : List Char → Option (List Char)) (cs : List Char) :
    Option (Int × List Char) :=
  match cs with
  | [] => none
  | sign :: rest =>
    if sign = 'Z' ∨ sign = 'z' then some (0, rest)
    else do
      if sign ≠ '+' ∧ sign ≠ '-' ∧ sign ≠ '−' then none
      let (hours, rest) ← takeNumber? 2 2 rest
      let (minutes, rest) ← takeNumber? 2 2 (← mark? rest)
      if 23 < hours ∨ 59 < minutes then none
      let seconds : Int := (hours * 3600 + minutes * 60 : Nat)
      some (if sign = '+' then seconds else -seconds, rest)

/-- A clock reading on a day. A sixtieth second is the leap second behind the one before it. -/
def ofClock? (date : Date) (hour minute second nano : Nat) : Option Instant := do
  if 23 < hour ∨ 59 < minute ∨ 60 < second then none
  let (second, nano) := if second = 60 then (59, nano + 1000000000) else (second, nano)
  ofParts? date (hour * 3600 + minute * 60 + second) nano

/-- A clock reading with an offset, which ends the text. -/
def readClock? (date : Date) (cs : List Char) : Option Instant := do
  let (hour, cs) ← takeNumber? 2 2 cs
  let (minute, cs) ← takeNumber? 2 2 (← skip? ':' cs)
  let (second, cs) ← takeNumber? 2 2 (← skip? ':' cs)
  let (nano, cs) ← takeFraction? cs
  match ← takeOffset? (skip? ':') cs with
  | (offset, []) => (← ofClock? date hour minute second nano).earlier? offset
  | _ => none

/-- An instant in text with a year of four digits, two digits in all other fields, and an
offset from universal time. -/
def read? (cs : List Char) : Option Instant := do
  let (year, cs) ← takeNumber? 4 4 cs
  let cs ← skip? '-' cs
  let (month, cs) ← takeNumber? 2 2 cs
  let cs ← skip? '-' cs
  let (day, cs) ← takeNumber? 2 2 cs
  let date ← Date.ofParts? year month day
  match cs with
  | c :: cs => if c = 'T' ∨ c = 't' ∨ c = ' ' then readClock? date cs else none
  | [] => none

/-- An instant as it is written, also with a year that needs a sign. -/
def readWritten? (cs : List Char) : Option Instant := do
  let date ← Date.read? (cs.takeWhile (· ≠ 'T'))
  readClock? date ((cs.dropWhile (· ≠ 'T')).drop 1)

/-! ## Loose forms -/

/-- A clock reading at the front of a text, with any white space between its parts. -/
def takeLooseClock? (date : Date) (cs : List Char) : Option (Instant × List Char) := do
  let (hour, cs) ← takeNumber? 1 2 (cs.dropWhile Text.isBlank)
  let (minute, cs) ← takeNumber? 1 2 ((← skipLoose? ':' cs).dropWhile Text.isBlank)
  let (second, cs) ← takeNumber? 1 2 ((← skipLoose? ':' cs).dropWhile Text.isBlank)
  let (nano, cs) ← takeFraction? cs
  some (← ofClock? date hour minute second nano, cs)

/-- An offset at the front of a text: the letters `UTC` in either case, or a sign and digits
with any colons and white space between hours and minutes. -/
def takeLooseOffset? (cs : List Char) : Option (Int × List Char) :=
  if (cs.take 3).map Char.toUpper = ['U', 'T', 'C'] then some (0, cs.drop 3)
  else takeOffset? (fun cs => some (cs.dropWhile fun c => c = ':' || Text.isBlank c)) cs

/-- An instant in text with any white space between its parts, numbers with or without leading
zeros, and an offset. One character parts the day from the clock reading. -/
def readLoose? (cs : List Char) : Option Instant := do
  match ← Date.takeLoose? cs with
  | (date, c :: cs) =>
    if c ≠ 'T' ∧ c ≠ 't' ∧ c ≠ ' ' then none
    let (reading, cs) ← takeLooseClock? date cs
    let (offset, cs) ← takeLooseOffset? (cs.dropWhile Text.isBlank)
    if cs.all Text.isBlank then reading.earlier? offset else none
  | _ => none

/-- A clock reading in text without an offset, taken as universal time. -/
def readLocal? (cs : List Char) : Option Instant := do
  let (date, cs) ← Date.takeLoose? cs
  let (reading, cs) ← takeLooseClock? date (← skipLoose? 'T' cs)
  if cs.all Text.isBlank then some reading else none

end Instant

end TypedQuery
