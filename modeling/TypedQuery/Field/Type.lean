import TypedQuery.Number.Digits
import TypedQuery.Number.Scaled
import TypedQuery.Value.Basic

/-!
# Field types

The types that a field of an entity can have, each also as an optional one, and what
an instance stores for each. Every field type has a kind, the one its column declares.
-/

namespace TypedQuery

/-- Whole numbers of a fixed width. -/
inductive IntegerType where
  | i8 | i16 | i32 | i64 | u8 | u16 | u32 | u64
deriving DecidableEq

namespace IntegerType

def name : IntegerType → String
  | i8 => "i8"
  | i16 => "i16"
  | i32 => "i32"
  | i64 => "i64"
  | u8 => "u8"
  | u16 => "u16"
  | u32 => "u32"
  | u64 => "u64"

/-- Is the number one of the type? -/
def Fits : IntegerType → Int → Prop
  | i8, n => Number.FitsSigned 8 n
  | i16, n => Number.FitsSigned 16 n
  | i32, n => Number.FitsSigned 32 n
  | i64, n => Number.FitsSigned 64 n
  | u8, n => Number.FitsUnsigned 8 n
  | u16, n => Number.FitsUnsigned 16 n
  | u32, n => Number.FitsUnsigned 32 n
  | u64, n => Number.FitsUnsigned 64 n

instance (t : IntegerType) (n : Int) : Decidable (t.Fits n) := by
  cases t <;> unfold Fits <;> infer_instance

/-- Only the widest unsigned type exceeds a signed column; it is kept as a decimal. -/
def kind : IntegerType → Kind
  | u64 => .decimal
  | _ => .int

end IntegerType

inductive ScalarType where
  | text
  | integer (t : IntegerType)
  | single
  | double
  | bool
  | uuid
  | instant
  | localInstant
  | date
  | decimal
  | json
deriving DecidableEq

namespace ScalarType

def name : ScalarType → String
  | text => "String"
  | integer t => t.name
  | single => "f32"
  | double => "f64"
  | bool => "bool"
  | uuid => "Uuid"
  | instant => "DateTime<Utc>"
  | localInstant => "NaiveDateTime"
  | date => "NaiveDate"
  | decimal => "Decimal"
  | json => "serde_json::Value"

def all : List ScalarType :=
  [text, integer .i8, integer .i16, integer .i32, integer .i64, integer .u8, integer .u16,
    integer .u32, integer .u64, single, double, bool, uuid, instant, localInstant, date, decimal,
    json]

def ofName? (s : String) : Option ScalarType := all.find? (·.name == s)

def kind : ScalarType → Kind
  | text => .text
  | integer t => t.kind
  | single | double => .float
  | bool => .bool
  | uuid => .uuid
  | instant | localInstant => .timestamp
  | date => .date
  | decimal => .decimal
  | json => .json

/-- What an instance stores for a field of the type. -/
def Carrier : ScalarType → Type
  | text => String
  | integer t => { n : Int // t.Fits n }
  | single => Single
  | double => Double
  | bool => Bool
  | uuid => Uuid
  | instant | localInstant => Instant
  | date => Date
  | decimal => ScaledDecimal
  | json => Json

/-- The value of what a field stores. -/
def toValue : (t : ScalarType) → t.Carrier → Value
  | text, s => .text s
  | integer .u64, n => .decimal (Number.textOfInt n.val)
  | integer _, n => .int (Int64.ofInt n.val)
  | single, x => .float x.toDouble
  | double, x => .float x
  | bool, b => .bool b
  | uuid, u => .uuid u
  | instant, t => .timestamp t
  | localInstant, t => .timestamp t
  | date, d => .date d
  | decimal, d => .decimal d.text
  | json, j => .json j

end ScalarType

/-- A scalar type, or an optional one whose missing value is NULL. -/
structure FieldType where
  scalar : ScalarType
  optional : Bool
deriving DecidableEq

namespace FieldType

def kind (t : FieldType) : Kind := t.scalar.kind

def Carrier (t : FieldType) : Type :=
  if t.optional then Option t.scalar.Carrier else t.scalar.Carrier

def toValue : (t : FieldType) → t.Carrier → Value
  | ⟨s, true⟩, x => match (x : Option s.Carrier) with
    | some y => s.toValue y
    | none => .null
  | ⟨s, false⟩, x => s.toValue x

def name (t : FieldType) : String :=
  if t.optional then "Option<" ++ t.scalar.name ++ ">" else t.scalar.name

/-- The field type of a name. -/
def ofName? (s : String) : Option FieldType :=
  (ScalarType.all.flatMap fun t => [⟨t, false⟩, ⟨t, true⟩]).find? (·.name == s)

end FieldType

end TypedQuery
