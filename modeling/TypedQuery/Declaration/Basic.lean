import TypedQuery.Declaration.TableName
import TypedQuery.Declaration.TypeText
import TypedQuery.Identifier

/-!
# Declarations of entities

An entity is declared by a structure with named fields. A field is a column, unless it is
marked as a relation; attributes may give the table and the columns other names. Every name
that reaches a statement is checked here, so nothing has to be checked when queries are built.
-/

namespace TypedQuery

/-- The keys and texts of an attribute. -/
abbrev Attribute := List (String × String)

structure FieldDeclaration where
  name : String
  type : String
  primaryKey : Bool
  relation : Bool
  columns : List Attribute

structure Declaration where
  name : String
  /-- What stands between the name and the fields. -/
  generics : String
  hasNamedFields : Bool
  tables : List Attribute
  fields : List FieldDeclaration

/-- Why a declaration is refused. -/
inductive DeclarationError where
  | generic
  | notStructure
  | noColumn
  | tableName (name : String) (cause : IdentifierError)
  | fieldName (name : String) (cause : IdentifierError)
  | unknownKey (label : String)
  | relationKey
  | relationType
  | optionalKey
  | secondKey
  | fieldType
  | columnTwice (column : String)
deriving DecidableEq

namespace DeclarationError

def message : DeclarationError → String
  | generic =>
    "Entity cannot be derived for generic structs: the descriptor is a single static table"
  | notStructure => "Entity can only be derived for structs with named fields"
  | noColumn => "Entity needs at least one non-relation field"
  | tableName name cause => "Invalid table name '" ++ name ++ "': " ++ cause.message
  | fieldName name cause => "Invalid field name '" ++ name ++ "': " ++ cause.message
  | unknownKey label => "unsupported " ++ label ++ " attribute, expected `name = \"...\"`"
  | relationKey => "a relation field cannot be the primary key"
  | relationType => "#[relation] fields must be Vec<Entity> or Option<Entity>"
  | optionalKey => "the primary key cannot be optional"
  | secondKey => "only one field can be marked #[primary_key]"
  | fieldType =>
    "unsupported field type: expected a string, integer, float, bool, Uuid, chrono date/time, " ++
      "Decimal or serde_json::Value (optionally wrapped in Option)"
  | columnTwice column => "column '" ++ column ++ "' is mapped twice"

end DeclarationError

/-- A column of a declared entity. -/
structure DeclaredColumn where
  name : String
  column : String
  type : String
  kind : Kind
  nullable : Bool
  primaryKey : Bool

/-- A relation of a declared entity. -/
structure DeclaredRelation where
  name : String
  target : String
  cardinality : Cardinality

/-- An entity whose declaration has been accepted. -/
structure DeclaredEntity where
  typeName : String
  table : String
  columns : List DeclaredColumn
  relations : List DeclaredRelation

namespace Declaration

/-- The name of the type as its token is written. -/
def typeName (d : Declaration) : String := Token.squeezed (Token.ofText d.name)

/-- Are there parameters between the brackets behind the name? -/
def isGeneric (d : Declaration) : Bool :=
  match Token.ofText d.generics with
  | .mark "<" :: .mark ">" :: _ => false
  | .mark "<" :: _ => true
  | _ => false

/-- The name that attributes give; the last one counts, and they have no other key. -/
def givenName (label : String) (attributes : List Attribute) :
    Except DeclarationError (Option String) :=
  attributes.flatten.foldlM (fun _ (key, text) =>
    if Token.ofText key = [.word "name"] then .ok (some text) else .error (.unknownKey label)) none

/-- The table that attributes name, or the one of the type's name. -/
def checkTable (d : Declaration) : Except DeclarationError String := do
  let name := (← givenName "table" d.tables).getD (TableName.ofTypeName d.typeName)
  match Identifier.check name with
  | .ok () => .ok name
  | .error cause => .error (.tableName name cause)

def checkFieldName (name : String) : Except DeclarationError Unit :=
  match Identifier.check name with
  | .ok () => .ok ()
  | .error cause => .error (.fieldName name cause)

end Declaration

namespace FieldDeclaration

variable (f : FieldDeclaration)

/-- The name of the field as its token is written. -/
def fieldName : String := Token.squeezed (Token.ofText f.name)

def checkRelation : Except DeclarationError DeclaredRelation :=
  if f.primaryKey then .error .relationKey
  else match TypeText.relation? f.type with
    | some (target, cardinality) => .ok ⟨f.fieldName, target, cardinality⟩
    | none => .error .relationType

/-- The column that attributes name, or the field's own name. -/
def checkColumnName : Except DeclarationError String := do
  match ← Declaration.givenName "column" f.columns with
  | some column => do
    Declaration.checkFieldName column
    .ok column
  | none => .ok f.fieldName

/-- Checks a field that is no relation, after the columns before it. -/
def checkColumn (earlier : List DeclaredColumn) : Except DeclarationError DeclaredColumn := do
  Declaration.checkFieldName f.fieldName
  let column ← f.checkColumnName
  let type := Token.squeezed (Token.ofText f.type)
  let nullable := TypeName.isOptional type.toList
  if f.primaryKey && nullable then .error .optionalKey
  else if f.primaryKey && earlier.any (·.primaryKey) then .error .secondKey
  else match TypeName.kind? type.toList with
    | some kind => .ok ⟨f.fieldName, column, type, kind, nullable, f.primaryKey⟩
    | none => .error .fieldType

end FieldDeclaration

namespace Declaration

/-- Checks fields one after the other, given the columns before them. -/
def checkFields (earlier : List DeclaredColumn) :
    List FieldDeclaration → Except DeclarationError (List DeclaredColumn × List DeclaredRelation)
  | [] => .ok (earlier, [])
  | f :: fs =>
    if f.relation then do
      let r ← f.checkRelation
      let (columns, relations) ← checkFields earlier fs
      .ok (columns, r :: relations)
    else do
      let c ← f.checkColumn earlier
      checkFields (earlier ++ [c]) fs

/-- The first column whose name a column before it has. -/
def repeatedColumn? (seen : List String) : List DeclaredColumn → Option String
  | [] => none
  | c :: cs => if seen.contains c.column then some c.column else repeatedColumn? (c.column :: seen) cs

/-- Checks a declaration; the first fault in this order is reported. -/
def check (d : Declaration) : Except DeclarationError DeclaredEntity := do
  if d.isGeneric then .error .generic
  else
    let table ← d.checkTable
    if !d.hasNamedFields then .error .notStructure
    else
      let (columns, relations) ← checkFields [] d.fields
      match repeatedColumn? [] columns, columns with
      | some column, _ => .error (.columnTwice column)
      | none, [] => .error .noColumn
      | none, columns => .ok ⟨d.typeName, table, columns, relations⟩

end Declaration

end TypedQuery
