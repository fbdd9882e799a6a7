import TypedQuery.Entity
import TypedQuery.Json.Basic

/-!
# Schemas as documents

A schema is a list of entities. A field is stored under its own name and is no primary key
unless the document says otherwise; the type of a field is given by its name. A relation
names the entity that it leads to.
-/

namespace TypedQuery.Wire

/-- A field of an object, if it is there. -/
def readField? {α : Type} (read : Json → Option α) (name : String) (j : Json) : Option α :=
  j.field? name >>= read

/-- The name that the entity of a document is known by. -/
def readRef? (j : Json) : Option String := readField? Json.text? "ref" j <|> readField? Json.text? "name" j

def readColumn? (j : Json) : Option Field := do
  let name ← readField? Json.text? "name" j
  let type ← readField? Json.text? "type" j
  some
    { name := name
      column := (readField? Json.text? "column" j).getD name
      type := ← FieldType.ofName? type
      primaryKey := (readField? Json.bool? "pk" j).getD false }

/-- What tells the entity of a document from others. -/
def readEntityName? (j : Json) : Option EntityName := do
  some ⟨← readRef? j, ← readField? Json.text? "name" j, ← readField? Json.text? "table" j⟩

/-- A relation to one of the named entities. -/
def readRelation? (names : List EntityName) (j : Json) : Option Relation := do
  let target ← readField? Json.text? "target" j
  let many ← readField? Json.bool? "many" j
  some
    { name := ← readField? Json.text? "name" j
      target := ← names.find? (·.ref == target)
      cardinality := if many then .many else .one }

def readEntity? (names : List EntityName) (j : Json) : Option Entity := do
  let fields ← readField? Json.items? "fields" j
  let relations := (readField? Json.items? "relations" j).getD []
  some
    { toEntityName := ← readEntityName? j
      fields := ← fields.mapM readColumn?
      relations := ← relations.mapM (readRelation? names) }

/-- The schema of a document. -/
def readSchema? (j : Json) : Option Schema := do
  let items ← j.items?
  let names ← items.mapM readEntityName?
  some ⟨← items.mapM (readEntity? names)⟩

end TypedQuery.Wire
