import TypedQuery.Sql.Fragment
import TypedQuery.Entity

/-!
# Shapes of result rows

Where the columns of a result row come from: which entity stands behind which alias, how the
joins hang together, and the columns by which rows are grouped. The column of a field is the
alias and the field's name.
-/

namespace TypedQuery

/-- An entity behind an alias with the fields that are selected. -/
structure Binding where
  entity : Entity
  label : String
  fields : List Field

namespace Binding

/-- All fields of an entity behind an alias. -/
def full (e : Entity) (label : String) : Binding := ⟨e, label, e.fields⟩

/-- The result column of a field. -/
def column (b : Binding) (field : String) : String := b.label ++ "_" ++ field

def columns (b : Binding) : List String := b.fields.map fun f => b.column f.name

/-- Is the name one of the result columns, in any case? -/
def hasColumn (b : Binding) (name : String) : Bool := b.columns.any (Text.alike · name)

/-- The selected fields under their result columns. -/
def selectList (b : Binding) : List Sql.Fragment :=
  b.fields.map fun f => Sql.Fragment.named [.column b.label f.column] (b.column f.name)

end Binding

inductive JoinType where
  | inner
  | left
deriving DecidableEq

def JoinType.symbol : JoinType → String
  | .inner => "INNER JOIN"
  | .left => "LEFT JOIN"

/-- A joined entity, which hangs below the entity that the left key belongs to. -/
structure Join where
  type : JoinType
  left : Entity
  related : Binding
  condition : Sql.Fragment

/-- The join as it stands in a statement. -/
def Join.fragment (j : Join) : Sql.Fragment :=
  [.keyword j.type.symbol, .space, .name j.related.entity.table, .space, .name j.related.label,
    .space, .keyword "ON", .space] ++ j.condition

/-- A column by whose value rows are grouped, with the kind it is read as; without one the
value stays as it comes. -/
structure OutputKey where
  name : String
  kind : Option Kind

/-- All that is needed to read the rows of a statement. -/
structure Shape where
  root : Binding
  projection : Option Binding
  joins : List Join
  groupingKeys : List OutputKey
  aggregationKeys : List OutputKey
  defaultKeyField : String

namespace Shape

def isGrouped (s : Shape) : Bool := !s.groupingKeys.isEmpty

/-- The columns that make up the key of a group, in the order of declaration. -/
def outputKeys (s : Shape) : List OutputKey := s.groupingKeys ++ s.aggregationKeys

/-- The root and the joined entities. -/
def bindings (s : Shape) : List Binding := s.root :: s.joins.map Join.related

end Shape

end TypedQuery
