import TypedQuery.Json.Basic
import TypedQuery.Number.Reading
import TypedQuery.Time.Instant
import TypedQuery.Uuid
import TypedQuery.Value.Kind

/-!
# SQL values

The values bound to a statement, read from a result row and computed with. A decimal is
its text, whether or not that is a number, so no digit is lost. Floating-point numbers are
equal when their bits are; documents are equal as documents.
-/

namespace TypedQuery

inductive Value where
  | null
  | bool (b : Bool)
  | int (n : Int64)
  | float (x : Double)
  | decimal (digits : String)
  | text (s : String)
  | uuid (u : Uuid)
  | timestamp (t : Instant)
  | date (d : Date)
  | json (j : Json)
  | list (items : List Value)
deriving Inhabited

namespace Value

def isNull : Value → Bool
  | null => true
  | _ => false

@[simp] theorem isNull_iff {v : Value} : v.isNull = true ↔ v = null := by cases v <;> simp [isNull]

def kind? : Value → Option Kind
  | null | list _ => none
  | bool _ => some .bool
  | int _ => some .int
  | float _ => some .float
  | decimal _ => some .decimal
  | text _ => some .text
  | uuid _ => some .uuid
  | timestamp _ => some .timestamp
  | date _ => some .date
  | json _ => some .json

/-- The name of the value's kind; NULL and lists have names of their own. -/
def typeName : Value → String
  | null => "null"
  | list _ => "list"
  | v => (v.kind?.map Kind.name).getD ""

def bool? : Value → Option Bool
  | bool b => some b
  | _ => none

def int? : Value → Option Int64
  | int n => some n
  | _ => none

def text? : Value → Option String
  | text s => some s
  | _ => none

/-- The number that an integer, a floating-point number or a decimal stands for, rounded to
the nearest one of 64 bits. -/
def double? : Value → Option Double
  | int n => some (Double.ofInt n.toInt)
  | float x => some x
  | decimal s => Number.readDouble? s.toList
  | _ => none

mutual

/-- Equality of values, which is of values of one type only. -/
def same : Value → Value → Bool
  | .null, .null => true
  | .bool a, .bool b => a == b
  | .int a, .int b => a == b
  | .float a, .float b => a == b
  | .decimal a, .decimal b => a == b
  | .text a, .text b => a == b
  | .uuid a, .uuid b => a == b
  | .timestamp a, .timestamp b => a == b
  | .date a, .date b => a == b
  | .json a, .json b => a == b
  | .list a, .list b => sameItems a b
  | _, _ => false
termination_by structural v => v

def sameItems : List Value → List Value → Bool
  | [], [] => true
  | a :: as, b :: bs => same a b && sameItems as bs
  | _, _ => false
termination_by structural vs => vs

end

instance : BEq Value := ⟨same⟩

end Value

end TypedQuery
