import TypedQuery.Expr.Eval
import TypedQuery.Node

/-!
# Instances

Entities whose fields have been checked against their types. An instance is read from a node:
its fields in the order of their declaration, then its relations in theirs, and the first
fault is reported.
-/

namespace TypedQuery

/-- A field with what it stores. -/
structure FieldContent where
  field : Field
  content : field.type.Carrier

namespace FieldContent

def value (c : FieldContent) : Value := c.field.type.toValue c.content

end FieldContent

mutual

inductive Instance where
  | mk (entity : Entity) (fields : List FieldContent) (relations : List (String × Related))

/-- What a relation holds: at most one instance or any number. -/
inductive Related where
  | one (i : Option Instance)
  | many (is : List Instance)

end

namespace Instance

def entity : Instance → Entity
  | mk e _ _ => e

def fields : Instance → List FieldContent
  | mk _ fs _ => fs

def relations : Instance → List (String × Related)
  | mk _ _ rs => rs

/-- The value of a field; relations have none. -/
def fieldValue? (i : Instance) (name : String) : Option Value :=
  (i.fields.find? (·.field.name == name)).map FieldContent.value

/-- The row that conditions on the instance are evaluated for. -/
def scope (i : Instance) : Scope := fun e name =>
  if i.entity.same e then i.fieldValue? name else none

/-- Does the instance satisfy a condition? -/
def satisfies (i : Instance) (condition : Expr) : Eval Bool := condition.holdsIn i.scope

end Instance

namespace Node

/-- The fields of an entity read from a node. -/
def readFields (n : Node) : List Field → Except QueryError (List FieldContent)
  | [] => .ok []
  | f :: fs => do
    let x ← n.get f.type f.name
    let rest ← readFields n fs
    .ok (⟨f, x⟩ :: rest)

/-- Reads an instance of an entity from a node. -/
abbrev Reader := Entity → Except QueryError Instance

/-- One relation read with the readers of the nodes attached under it. -/
def readRelation (schema : Schema) (readers : List Reader) (r : Relation) :
    Except QueryError Related :=
  match schema.entity? r.target.ref with
  | none => .ok (match r.cardinality with | .one => .one none | .many => .many [])
  | some target =>
    match r.cardinality with
    | .many => (readers.mapM fun (build : Reader) => build target).map .many
    | .one =>
      match readers with
      | [] => .ok (.one none)
      | build :: _ => (build target).map fun i => .one (some i)

def readRelations (schema : Schema) (readers : List (String × List Reader)) :
    List Relation → Except QueryError (List (String × Related))
  | [] => .ok []
  | r :: rs => do
    let x ← readRelation schema ((readers.lookup r.name).getD []) r
    let rest ← readRelations schema readers rs
    .ok ((r.name, x) :: rest)

mutual

/-- The reader of a node: nothing is read before the entity to read it as is known. -/
def reader (schema : Schema) : Node → Reader
  | .mk own values relations =>
    let readers := readersOf schema relations
    fun e => do
      let fields ← readFields (.mk own values []) e.fields
      let related ← readRelations schema readers e.relations
      .ok (.mk e fields related)
termination_by structural n => n

def readersOf (schema : Schema) : List (String × List Node) → List (String × List Reader)
  | [] => []
  | (name, nodes) :: rest => (name, readersOfNodes schema nodes) :: readersOf schema rest
termination_by structural rs => rs

def readersOfNodes (schema : Schema) : List Node → List Reader
  | [] => []
  | n :: ns => reader schema n :: readersOfNodes schema ns
termination_by structural ns => ns

end

/-- The instance of an entity that a node holds. -/
def read (schema : Schema) (e : Entity) (n : Node) : Except QueryError Instance := n.reader schema e

/-- All instances under a relation. -/
def readMany (schema : Schema) (e : Entity) (n : Node) (relation : String) :
    Except QueryError (List Instance) := (n.related relation).mapM (read schema e)

/-- The first instance under a relation. -/
def readOne (schema : Schema) (e : Entity) (n : Node) (relation : String) :
    Except QueryError (Option Instance) :=
  match n.related relation with
  | [] => .ok none
  | c :: _ => (read schema e c).map some

end Node

end TypedQuery
