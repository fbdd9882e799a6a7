import TypedQuery.Json.Basic
import TypedQuery.Number.Hex
import TypedQuery.Value.Basic

/-!
# Values as documents

The documents in which values are exchanged. Each names the type of its value. Numbers that a
document could not hold exactly are written as text: a floating-point number by its bits, and
what is not a number by one word, because its bits mean nothing.
-/

namespace TypedQuery.Wire

def double (x : Double) : Json :=
  .text (if x.isNaN then "nan" else String.ofList (Number.hexDigits 16 x.bits.toNat))

def readDouble? (s : String) : Option Double :=
  if s = "nan" then some .nan
  else if s.length = 16 then (Number.readHex? s.toList).map fun n => ⟨UInt64.ofNat n⟩
  else none

mutual

/-- The document of a value. -/
def value : Value → Json
  | .null => .null
  | .bool b => .tagged "Bool" (.bool b)
  | .int n => .tagged "Int" (.ofInt n.toInt)
  | .float x => .tagged "Float" (double x)
  | .decimal s => .tagged "Decimal" (.text s)
  | .text s => .tagged "Text" (.text s)
  | .uuid u => .tagged "Uuid" (.text u.text)
  | .timestamp t => .tagged "Timestamp" (.text t.zuluText)
  | .date d => .tagged "Date" (.text d.text)
  | .json j => .tagged "Json" j
  | .list items => .tagged "List" (.array (values items))
termination_by structural v => v

def values : List Value → List Json
  | [] => []
  | v :: vs => value v :: values vs
termination_by structural vs => vs

end

mutual

/-- The value of a document. -/
def readValue? : Json → Option Value
  | .null => some .null
  | .object [(tag, content)] =>
    match tag, content with
    | "Bool", .bool b => some (.bool b)
    | "Int", .number (.whole n) => (Number.word? n).map .int
    | "Float", .text s => (readDouble? s).map .float
    | "Decimal", .text s => some (.decimal s)
    | "Text", .text s => some (.text s)
    | "Uuid", .text s => (Uuid.read? s.toList).map .uuid
    | "Timestamp", .text s => (Instant.readWritten? s.toList).map .timestamp
    | "Date", .text s => (Date.read? s.toList).map .date
    | "Json", j => some (.json j)
    | "List", .array items => (readValues? items).map .list
    | _, _ => none
  | _ => none
termination_by structural j => j

def readValues? : List Json → Option (List Value)
  | [] => some []
  | j :: js =>
    match readValue? j, readValues? js with
    | some v, some vs => some (v :: vs)
    | _, _ => none
termination_by structural js => js

end

/-- The document of a value that may be missing. -/
def optional : Option Value → Json
  | some v => .tagged "value" (value v)
  | none => .tagged "none" (.bool true)

/-- A name with a value. -/
def namedValue (name : String) (v : Value) : Json := .array [.text name, value v]

def readNamedValue? : Json → Option (String × Value)
  | .array [.text name, j] => (readValue? j).map fun v => (name, v)
  | _ => none

/-- The kind of a name, or none for the empty document. -/
def readKind? : Json → Option (Option Kind)
  | .null => some none
  | .text s => (Kind.ofName? s).map some
  | _ => none

def kind : Option Kind → Json
  | some k => .text k.name
  | none => .null

end TypedQuery.Wire
