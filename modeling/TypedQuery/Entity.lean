import TypedQuery.Field.TypeName

/-!
# Entities

A queryable type with its table, fields and relations. Relations name their target by the
reference that a schema resolves, so entities may refer to each other. Two entities are the
same when their type names and their tables are equal, whatever their references.
-/

namespace TypedQuery

structure Field where
  name : String
  column : String
  type : FieldType
  primaryKey : Bool

namespace Field

/-- The kind that the column is coerced to. -/
def kind (f : Field) : Kind := f.type.kind

def nullable (f : Field) : Bool := f.type.optional

end Field

/-- How many related entities one owner has. -/
inductive Cardinality where
  | one
  | many
deriving DecidableEq

/-- What tells an entity from others, and the reference a schema knows it by. -/
structure EntityName where
  ref : String
  typeName : String
  table : String
deriving DecidableEq

structure Relation where
  name : String
  target : EntityName
  cardinality : Cardinality

structure Entity extends EntityName where
  fields : List Field
  relations : List Relation

namespace EntityName

def same (a b : EntityName) : Bool := a.typeName == b.typeName && a.table == b.table

@[simp] theorem same_self (a : EntityName) : a.same a = true := by simp [same]

theorem same_iff {a b : EntityName} : a.same b = true ↔ a.typeName = b.typeName ∧ a.table = b.table := by
  simp [same]

theorem same_comm (a b : EntityName) : a.same b = b.same a := by
  simp [same, Bool.beq_comm]

end EntityName

namespace Entity

def same (a b : Entity) : Bool := a.toEntityName.same b.toEntityName

def field? (e : Entity) (name : String) : Option Field := e.fields.find? (·.name == name)

/-- The primary key: the marked field, else the field of the given name. -/
def keyField? (e : Entity) (defaultKey : String) : Option Field :=
  e.fields.find? (·.primaryKey) <|> e.field? defaultKey

def relation? (e : Entity) (name : String) : Option Relation :=
  e.relations.find? (·.name == name)

/-- The first relation whose target is the given entity. -/
def relationTo? (e target : Entity) : Option Relation :=
  e.relations.find? (·.target.same target.toEntityName)

theorem name_of_field? {e : Entity} {name : String} {f : Field} (h : e.field? name = some f) :
    f.name = name := by
  simpa using List.find?_some h

theorem mem_of_field? {e : Entity} {name : String} {f : Field} (h : e.field? name = some f) :
    f ∈ e.fields := List.mem_of_find?_eq_some h

end Entity

/-- The entities that references are resolved against. -/
structure Schema where
  entities : List Entity

namespace Schema

def entity? (s : Schema) (ref : String) : Option Entity := s.entities.find? (·.ref == ref)

end Schema

end TypedQuery
