import TypedQuery.Field.Type
import TypedQuery.Json.Reader

/-!
# Constants in text

The constant of a field type that a text stands for. Each type has one reading of its own; a
type never falls back on that of another, so a fraction is no integer and a word no number.
-/

namespace TypedQuery

/-- An integer of a type; the unsigned ones have no minus sign, not even before zero. -/
def IntegerType.read? (t : IntegerType) (cs : List Char) : Option { n : Int // t.Fits n } := do
  let n ← match t with
    | .u8 | .u16 | .u32 | .u64 => (Number.readUnsigned? cs).map Int.ofNat
    | _ => Number.readInt? cs
  if h : t.Fits n then some ⟨n, h⟩ else none

def readBool? : List Char → Option Bool
  | ['t', 'r', 'u', 'e'] => some true
  | ['f', 'a', 'l', 's', 'e'] => some false
  | _ => none

namespace ScalarType

/-- The constant in a text. A clock reading without an offset is taken as universal time. -/
def read? : (t : ScalarType) → List Char → Option t.Carrier
  | text, cs => some (String.ofList cs)
  | integer t, cs => t.read? cs
  | single, cs => Number.readSingle? cs
  | double, cs => Number.readDouble? cs
  | bool, cs => readBool? cs
  | uuid, cs => Uuid.read? cs
  | instant, cs => Instant.readLoose? cs
  | localInstant, cs => Instant.readLocal? cs
  | date, cs => Date.readLoose? cs
  | decimal, cs => ScaledDecimal.readPlain? cs
  | json, cs => Json.read? (String.ofList cs)

/-- The constant in a text as a value. -/
def readValue? (t : ScalarType) (s : String) : Option Value := (t.read? s.toList).map t.toValue

end ScalarType

end TypedQuery
