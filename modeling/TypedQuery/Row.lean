import TypedQuery.Text.CaseFold
import TypedQuery.Value.Basic

/-!
# Result rows

A flat row with named columns in the order in which they were first set. The database may
have folded the case of a column's name, so a name that is not found exactly is looked for
without regard to case.
-/

namespace TypedQuery

structure Row where
  columns : List (String × Value)

namespace Row

def empty : Row := ⟨[]⟩

/-- Sets a column in a list, in place if it is there. -/
def put (name : String) (v : Value) : List (String × Value) → List (String × Value)
  | [] => [(name, v)]
  | (n, w) :: rest => if n = name then (n, v) :: rest else (n, w) :: put name v rest

def insert (r : Row) (name : String) (v : Value) : Row := ⟨put name v r.columns⟩

def ofList (columns : List (String × Value)) : Row :=
  columns.foldl (fun r (name, v) => r.insert name v) empty

def get? (r : Row) (name : String) : Option Value :=
  (r.columns.find? (·.1 == name) <|> r.columns.find? (Text.alike ·.1 name)).map Prod.snd

theorem find?_put_self (name : String) (v : Value) (columns : List (String × Value)) :
    (put name v columns).find? (·.1 == name) = some (name, v) := by
  induction columns with
  | nil => simp [put]
  | cons c rest ih =>
    obtain ⟨n, w⟩ := c
    by_cases h : n = name
    · simp [put, h]
    · simp [put, h, ih]

@[simp] theorem get?_insert_self (r : Row) (name : String) (v : Value) :
    (r.insert name v).get? name = some v := by
  simp [get?, insert, find?_put_self]

end Row

end TypedQuery
