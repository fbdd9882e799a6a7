/-!
# Kinds of values

The kinds that a column can declare. NULL and lists have no kind.
-/

namespace TypedQuery

inductive Kind where
  | bool | int | float | decimal | text | uuid | timestamp | date | json
deriving DecidableEq, Inhabited

namespace Kind

def name : Kind → String
  | bool => "bool"
  | int => "int"
  | float => "float"
  | decimal => "decimal"
  | text => "text"
  | uuid => "uuid"
  | timestamp => "timestamp"
  | date => "date"
  | json => "json"

/-- The name that generated code refers to the kind by. -/
def tag : Kind → String
  | bool => "Bool"
  | int => "Int"
  | float => "Float"
  | decimal => "Decimal"
  | text => "Text"
  | uuid => "Uuid"
  | timestamp => "Timestamp"
  | date => "Date"
  | json => "Json"

def all : List Kind := [bool, int, float, decimal, text, uuid, timestamp, date, json]

/-- The kind of a name. -/
def ofName? (s : String) : Option Kind := all.find? (·.name == s)

end Kind

end TypedQuery
