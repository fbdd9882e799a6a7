import TypedQuery.Declaration.Basic
import TypedQuery.Text.Combining
import TypedQuery.Text.Invisible

/-!
# Code of declared entities

The code that a declared entity stands for: a static description, the conversion of a node
into a value of the type, and access to field values by name. It is written without white
space, since it is compared and not read.
-/

namespace TypedQuery.DeclaredEntity

def braced (s : String) : String := "\x7b" ++ s ++ "\x7d"

def parenthesized (s : String) : String := "(" ++ s ++ ")"

def bracketed (s : String) : String := "[" ++ s ++ "]"

/-- A character of a name in a string literal. Characters that cannot be seen on their own are
written by their numbers. -/
def literalChar (c : Char) : String :=
  if Text.isCombining c || Text.isInvisible c then
    "\\u\x7b" ++ String.ofList (Nat.toDigits 16 c.toNat) ++ "\x7d"
  else String.singleton c

def literal (s : String) : String := "\"" ++ String.join (s.toList.map literalChar) ++ "\""

def separated (parts : List String) : String := ",".intercalate parts

/-- Parts each of which is followed by a comma. -/
def terminated (parts : List String) : String := String.join (parts.map (· ++ ","))

/-- A value of a structure with named fields. -/
def record (type : String) (fields : List (String × String)) : String :=
  type ++ braced (terminated (fields.map fun (name, value) => name ++ ":" ++ value))

def truth (b : Bool) : String := if b then "true" else "false"

/-- A name of the query library. -/
def queryName (name : String) : String := "::queryhaus::query_object::" ++ name

/-- A name of the value library. -/
def valueName (name : String) : String := "::queryhaus::type_mapping::" ++ name

def present (s : String) : String := "::std::option::Option::Some" ++ parenthesized s

def columnCode (c : DeclaredColumn) : String :=
  record (queryName "FieldDescriptor")
    [ ("name", literal c.name), ("column", literal c.column),
      ("kind", valueName ("ValueKind::" ++ c.kind.tag)), ("nullable", truth c.nullable),
      ("primary_key", truth c.primaryKey) ]

def cardinalityCode : Cardinality → String
  | .one => "One"
  | .many => "Many"

def relationCode (r : DeclaredRelation) : String :=
  record (queryName "RelationDescriptor")
    [ ("name", literal r.name), ("target", "<" ++ r.target ++ "as" ++ queryName "Entity>::descriptor"),
      ("cardinality", queryName ("Cardinality::" ++ cardinalityCode r.cardinality)) ]

variable (e : DeclaredEntity)

/-- The static description of the entity. -/
def descriptorCode : String :=
  "staticDESCRIPTOR:" ++ queryName "EntityDescriptor" ++ "=" ++
    record (queryName "EntityDescriptor")
      [ ("type_name", literal e.typeName), ("table_name", literal e.table),
        ("fields", "&" ++ bracketed (separated (e.columns.map columnCode))),
        ("relations", "&" ++ bracketed (separated (e.relations.map relationCode))) ] ++
    ";&DESCRIPTOR"

def readColumnCode (c : DeclaredColumn) : String :=
  c.name ++ ":node.get::<" ++ c.type ++ ">" ++ parenthesized (literal c.name) ++ "?"

def readRelationCode (r : DeclaredRelation) : String :=
  let method := match r.cardinality with
    | .one => "related_one"
    | .many => "related"
  r.name ++ ":node." ++ method ++ "::<" ++ r.target ++ ">" ++ parenthesized (literal r.name) ++ "?"

/-- The conversion of a node. -/
def readCode : String :=
  "::std::result::Result::Ok" ++ parenthesized ("Self" ++
    braced (terminated (e.columns.map readColumnCode ++ e.relations.map readRelationCode)))

def valueArm (c : DeclaredColumn) : String :=
  let clone := "::std::clone::Clone::clone" ++ parenthesized ("&self." ++ c.name)
  literal c.name ++ "=>" ++ present (valueName "SqlValue::from" ++ parenthesized clone) ++ ","

/-- Access to a value by the name of its field. -/
def valueCode : String :=
  "matchfield" ++
    braced (String.join (e.columns.map valueArm) ++ "_=>::std::option::Option::None,")

/-- The whole implementation. -/
def code : String :=
  "impl" ++ queryName "Entityfor" ++ e.typeName ++ braced (
    "fndescriptor()->&'static" ++ queryName "EntityDescriptor" ++ braced e.descriptorCode ++
    "fnfrom_node" ++ parenthesized ("node:&" ++ queryName "EntityNode,") ++
      "->::std::result::Result<Self," ++ queryName "QueryError>" ++ braced e.readCode ++
    "fnfield_value(&self,field:&str)->::std::option::Option<" ++ valueName "SqlValue>" ++
      braced e.valueCode)

end TypedQuery.DeclaredEntity
