import TypedQuery.Number.Shortest
import TypedQuery.Text.Blank
import TypedQuery.Value.Text

/-!
# Coercion between kinds

A result column may arrive in another type than the one declared for it. Coercion turns a
value into one of the wanted kind where the value can stand for one. NULL stays NULL and a
value of the wanted kind stays as it is.
-/

namespace TypedQuery.Value

/-- A floating-point number that is whole and in range, as an integer. -/
def wholeWord? (x : Double) : Option Int64 := x.toInt? >>= Number.word?

/-- The integer of a decimal: from its digits, or else through the nearest number of 64
bits, if that is whole. -/
def wordOfDecimal? (digits : String) : Option Int64 :=
  Number.readWord? digits.toList <|> (Number.readDouble? digits.toList >>= wholeWord?)

/-- Coercion to integers. -/
def toInt? : Value → Option Int64
  | float x => wholeWord? x
  | decimal s => wordOfDecimal? s
  | text s => Number.readWord? (Text.trim s.toList)
  | _ => none

/-- Coercion to floating-point numbers. -/
def toDouble? : Value → Option Double
  | text s => Number.readDouble? (Text.trim s.toList)
  | v => v.double?

/-- Coercion of a value that is not NULL to a kind that it does not have. -/
def convertTo? : Kind → Value → Option Value
  | .int, v => v.toInt?.map .int
  | .float, v => v.toDouble?.map .float
  | .decimal, int n => some (decimal (Number.textOfInt n.toInt))
  | .decimal, float x => some (decimal x.text)
  | .text, uuid u => some (text u.text)
  | .text, decimal s => some (text s)
  | .uuid, text s => (Uuid.read? s.toList).map .uuid
  | .bool, int n => some (bool (n != 0))
  | .timestamp, text s => (Instant.read? s.toList).map .timestamp
  | .timestamp, date d => some (timestamp (.midnight d))
  | .date, timestamp t => some (date t.date)
  | .date, text s => (Date.read? s.toList).map .date
  | .json, v => some (json v.encode)
  | _, _ => none

/-- The value as one of the wanted kind, if it can stand for one. -/
def coerce? (k : Kind) (v : Value) : Option Value :=
  if v.isNull || v.kind? == some k then some v else v.convertTo? k

theorem coerce?_of_kind {v : Value} {k : Kind} (h : v.kind? = some k) : v.coerce? k = some v := by
  simp [coerce?, h]

theorem coerce?_of_ne {v : Value} {k : Kind} (hn : v ≠ null) (hk : v.kind? ≠ some k) :
    v.coerce? k = v.convertTo? k := by
  simp [coerce?, hn, hk]

end TypedQuery.Value
