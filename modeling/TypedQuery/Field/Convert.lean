import TypedQuery.Field.Type
import TypedQuery.Json.Reader
import TypedQuery.Value.Coerce

/-!
# Reading fields from values

A field is read from a value by coercing it to the kind of the field and checking the
range of the field's type. NULL is read by optional fields and as a document only. What has no
type of its own takes any value as it is.
-/

namespace TypedQuery

/-- Why a value cannot be read as a type. -/
inductive ConversionError where
  | unexpectedNull (expected : String)
  | mismatch (expected found : String)
  | outOfRange (expected value : String)
deriving DecidableEq

namespace ConversionError

def message : ConversionError → String
  | unexpectedNull expected => s!"unexpected NULL for non-optional {expected}"
  | mismatch expected found => s!"cannot convert {found} into {expected}"
  | outOfRange expected value => s!"value {value} is out of range for {expected}"

end ConversionError

namespace Value

/-- The value coerced to a kind, for a type of that kind. -/
def coerceFor (v : Value) (k : Kind) (expected : String) : Except ConversionError Value :=
  if v.isNull then .error (.unexpectedNull expected)
  else match v.coerce? k with
    | some w => .ok w
    | none => .error (.mismatch expected v.typeName)

/-- A value of a kind, taken apart. -/
def readAs {α : Type} (k : Kind) (expected : String) (part : Value → Option α) (v : Value) :
    Except ConversionError α := do
  let w ← v.coerceFor k expected
  match part w with
  | some x => .ok x
  | none => .error (.mismatch expected w.typeName)

def readInt (expected : String) : Value → Except ConversionError Int64 :=
  readAs .int expected int?

/-- An unsigned 64-bit number, which is kept as decimal text. -/
def readUnsigned : Value → Except ConversionError { n : Int // IntegerType.u64.Fits n }
  | null => .error (.unexpectedNull "u64")
  | int n =>
    if h : IntegerType.u64.Fits n.toInt then .ok ⟨_, h⟩
    else .error (.outOfRange "u64" (Number.textOfInt n.toInt))
  | decimal s | text s =>
    match Number.readUnsigned? (Text.trim s.toList) with
    | some n =>
      if h : IntegerType.u64.Fits (n : Int) then .ok ⟨_, h⟩ else .error (.outOfRange "u64" s)
    | none => .error (.outOfRange "u64" s)
  | v => .error (.mismatch "u64" v.typeName)

/-- The narrower types read a 64-bit number first, and all but one of them name that type when
it cannot be read. -/
def readInteger (t : IntegerType) (v : Value) : Except ConversionError { n : Int // t.Fits n } :=
  if h : t = .u64 then h ▸ v.readUnsigned
  else do
    let wide ← v.readInt (if t = .i32 then t.name else IntegerType.i64.name)
    if h : t.Fits wide.toInt then .ok ⟨_, h⟩
    else .error (.outOfRange t.name (Number.textOfInt wide.toInt))

/-- Text around a decimal is trimmed, a decimal itself is not. -/
def readDecimal (v : Value) : Except ConversionError ScaledDecimal := do
  let w ← match v with
    | text s => .ok (decimal (String.ofList (Text.trim s.toList)))
    | _ => v.coerceFor .decimal "Decimal"
  match w with
  | decimal s =>
    match ScaledDecimal.read? s.toList with
    | some d => .ok d
    | none => .error (.outOfRange "Decimal" s)
  | w => .error (.mismatch "Decimal" w.typeName)

/-- Text is read as a document; any other value is encoded as one. -/
def readJson : Value → Except ConversionError Json
  | null => .ok .null
  | json j => .ok j
  | text s =>
    match Json.read? s with
    | some j => .ok j
    | none => .error (.mismatch "serde_json::Value" "text")
  | v => .ok v.encode

end Value

namespace ScalarType

/-- Reads a field that is not optional. -/
def ofValue : (t : ScalarType) → Value → Except ConversionError t.Carrier
  | text, v => v.readAs .text "String" Value.text?
  | integer t, v => v.readInteger t
  | single, v => (v.readAs .float "f64" Value.double?).map Single.ofDouble
  | double, v => v.readAs .float "f64" Value.double?
  | bool, v => v.readAs .bool "bool" Value.bool?
  | uuid, v => v.readAs .uuid "Uuid" fun | .uuid u => some u | _ => none
  | instant, v | localInstant, v =>
    v.readAs .timestamp "DateTime<Utc>" fun | .timestamp t => some t | _ => none
  | date, v => v.readAs .date "NaiveDate" fun | .date d => some d | _ => none
  | decimal, v => v.readDecimal
  | json, v => v.readJson

end ScalarType

namespace FieldType

/-- Reads a field; an optional one reads NULL as missing. -/
def ofValue : (t : FieldType) → Value → Except ConversionError t.Carrier
  | ⟨s, true⟩, v =>
    let read : Except ConversionError (Option s.Carrier) :=
      if v.isNull then .ok none else (s.ofValue v).map some
    read
  | ⟨s, false⟩, v => s.ofValue v

end FieldType

/-- What a value can be read as: what a field of a type stores, or the value itself. -/
inductive ReadType where
  | field (t : FieldType)
  | untyped (optional : Bool)

namespace ReadType

def Carrier : ReadType → Type
  | field t => t.Carrier
  | untyped true => Option Value
  | untyped false => Value

/-- Any value is read where there is no type; NULL is missing where it may be. -/
def ofValue : (t : ReadType) → Value → Except ConversionError t.Carrier
  | field t, v => t.ofValue v
  | untyped true, v => .ok (if v.isNull then none else some v)
  | untyped false, v => .ok v

def toValue : (t : ReadType) → t.Carrier → Value
  | field t, x => t.toValue x
  | untyped true, x => (show Option Value from x).getD .null
  | untyped false, x => x

def ofName? (s : String) : Option ReadType :=
  if s = "SqlValue" then some (untyped false)
  else if s = "Option<SqlValue>" then some (untyped true)
  else (FieldType.ofName? s).map field

/-- The value that is left of a value after reading it. -/
def reread (t : ReadType) (v : Value) : Except ConversionError Value := (t.ofValue v).map t.toValue

end ReadType

end TypedQuery
