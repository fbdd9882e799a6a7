import TypedQuery.Json.Printer
import TypedQuery.Value.Basic

/-!
# Values as keys

Rows are grouped by the values of some columns. Two values are one key when they are equal
and also agree in the digest by which keys are looked up. The digest of a document is that
of its text, so documents that are equal but written differently are two keys.
-/

namespace TypedQuery

namespace Value

/-- One item that enters a digest. -/
inductive DigestItem where
  | number (n : Int)
  | text (s : String)
deriving DecidableEq

mutual

/-- What a key is looked up by. -/
def digest : Value → List DigestItem
  | .null => [.number 0]
  | .bool b => [.number 1, .number b.toNat]
  | .int n => [.number 2, .number n.toInt]
  | .float x => [.number 3, .number x.bits.toNat]
  | .decimal s => [.number 4, .text s]
  | .text s => [.number 5, .text s]
  | .uuid u => [.number 6, .number u.value.toNat]
  | .timestamp t =>
    [.number 7, .number t.date.year, .number t.date.month, .number t.date.day,
      .number t.second, .number t.nano]
  | .date d => [.number 8, .number d.year, .number d.month, .number d.day]
  | .json j => [.number 9, .text j.print]
  | .list items => .number 10 :: .number items.length :: digestItems items
termination_by structural v => v

def digestItems : List Value → List DigestItem
  | [] => []
  | v :: vs => digest v ++ digestItems vs
termination_by structural vs => vs

end

/-- Are the values one key? -/
def sameKey (a b : Value) : Bool := a.digest == b.digest && a == b

/-- For each value the position of the first value that is the same key. -/
def firstPositions (vs : List Value) : List Nat := vs.map fun v => vs.findIdx (·.sameKey v)

end Value

/-- The values that a group of rows shares. -/
structure GroupKey where
  values : List Value

namespace GroupKey

/-- Are the values equal, one by one? -/
def same (a b : GroupKey) : Bool := Value.sameItems a.values b.values

/-- Do rows with these values belong to one group? -/
def sameGroup (a b : GroupKey) : Bool :=
  Value.digestItems a.values == Value.digestItems b.values && a.same b

end GroupKey

end TypedQuery
