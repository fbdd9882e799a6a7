import TypedQuery.Number.Double

/-!
# JSON documents

Documents whose objects are kept sorted by key, so two objects with the same fields
are the same document whatever order they were written in. Whole numbers and floating
point numbers are told apart: `1` and `1.0` are different documents.
-/

namespace TypedQuery

/-- A number in a document. A whole number is in the range of signed or of unsigned
64-bit integers, and a real number is finite. -/
inductive JsonNumber where
  | whole (n : Int)
  | real (x : Double)
deriving DecidableEq

inductive Json where
  | null
  | bool (b : Bool)
  | number (n : JsonNumber)
  | text (s : String)
  | array (items : List Json)
  | object (fields : List (String × Json))
deriving Inhabited

/-- Equal numbers: reals are compared as numbers, so zeros of both signs are equal. -/
def JsonNumber.same : JsonNumber → JsonNumber → Bool
  | .whole a, .whole b => a == b
  | .real a, .real b => a.sameNumber b
  | _, _ => false

namespace Json

mutual

/-- Equality of documents. -/
def same : Json → Json → Bool
  | .null, .null => true
  | .bool a, .bool b => a == b
  | .number a, .number b => a.same b
  | .text a, .text b => a == b
  | .array a, .array b => sameItems a b
  | .object a, .object b => sameFields a b
  | _, _ => false
termination_by structural j => j

def sameItems : List Json → List Json → Bool
  | [], [] => true
  | a :: as, b :: bs => same a b && sameItems as bs
  | _, _ => false
termination_by structural js => js

def sameFields : List (String × Json) → List (String × Json) → Bool
  | [], [] => true
  | (k, a) :: as, (l, b) :: bs => k == l && same a b && sameFields as bs
  | _, _ => false
termination_by structural fs => fs

end

instance : BEq Json := ⟨same⟩

/-- Puts a field into a sorted list, in place of a field of the same name. -/
def putField (key : String) (value : Json) : List (String × Json) → List (String × Json)
  | [] => [(key, value)]
  | (k, v) :: rest =>
    if key = k then (key, value) :: rest
    else if key < k then (key, value) :: (k, v) :: rest
    else (k, v) :: putField key value rest

/-- The object of some fields, the last one of a name winning. -/
def ofFields (fields : List (String × Json)) : Json :=
  .object (fields.foldl (fun sorted (k, v) => putField k v sorted) [])

/-- The value of a field of an object. -/
def field? (key : String) : Json → Option Json
  | .object fields => fields.lookup key
  | _ => none

def bool? : Json → Option Bool
  | .bool b => some b
  | _ => none

def text? : Json → Option String
  | .text s => some s
  | _ => none

/-- A number that is written as a whole one. -/
def int? : Json → Option Int
  | .number (.whole n) => some n
  | _ => none

def nat? (j : Json) : Option Nat := j.int?.bind Int.toNat?

def items? : Json → Option (List Json)
  | .array items => some items
  | _ => none

def ofInt (n : Int) : Json := .number (.whole n)

def ofNat (n : Nat) : Json := .number (.whole n)

/-- A floating-point number; infinities and what is not a number become `null`. -/
def ofDouble (x : Double) : Json := if x.isFinite then .number (.real x) else .null

/-- An object with a single field. -/
def tagged (tag : String) (value : Json) : Json := .object [(tag, value)]

end Json

end TypedQuery
