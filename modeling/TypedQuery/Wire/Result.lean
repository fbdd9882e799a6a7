import TypedQuery.Run
import TypedQuery.Wire.Expr

/-!
# Results as documents

Nodes, instances, groups, statements and errors as documents, and the documents from which
rows and the bindings and joins of a shape are read.
-/

namespace TypedQuery.Wire

/-- The document of an entity, its fields and its relations. -/
def entityWith (e : Entity) (fields : List Json) (relations : List Json) : Json :=
  .object [("entity", .text e.typeName), ("fields", .array fields), ("relations", .array relations)]

/-- The fields of a node that were set, in the order of their declaration. -/
def nodeFields (e : Entity) (values : List (String × Value)) : List Json :=
  e.fields.filterMap fun f => (values.lookup f.name).map (namedValue f.name)

mutual

/-- The document of a node, without relations that have no node. -/
def node : Node → Json
  | .mk e values relations =>
    let children := nodesByName relations
    entityWith e (nodeFields e values) (e.relations.filterMap fun r =>
      (children.lookup r.name).map fun js => .array [.text r.name, .array js])
termination_by structural n => n

def nodesByName : List (String × List Node) → List (String × List Json)
  | [] => []
  | (name, ns) :: rest => (name, nodes ns) :: nodesByName rest
termination_by structural rs => rs

def nodes : List Node → List Json
  | [] => []
  | n :: ns => node n :: nodes ns
termination_by structural ns => ns

end

mutual

/-- The document of an instance. -/
def instanceOf : Instance → Json
  | .mk e fields relations =>
    entityWith e (fields.map fun f => namedValue f.field.name f.value) (relateds relations)
termination_by structural i => i

def relateds : List (String × Related) → List Json
  | [] => []
  | (name, r) :: rest => .array [.text name, related r] :: relateds rest
termination_by structural rs => rs

def related : Related → Json
  | .one none => .null
  | .one (some i) => instanceOf i
  | .many is => .array (instances is)
termination_by structural r => r

def instances : List Instance → List Json
  | [] => []
  | i :: is => instanceOf i :: instances is
termination_by structural is => is

end

/-- An instance that may be missing. -/
def optionalInstance (i : Option Instance) : Json := (i.map instanceOf).getD .null

/-- A group with the documents of its members. -/
def group (key : GroupKey) (members : List Json) : Json :=
  .object [("key", .array (values key.values)), ("members", .array members)]

/-- The document of an error: what it is about, and its message. -/
def fault (label message : String) : Json :=
  .object [("error", .text label), ("message", .text message)]

def identifierLabel : IdentifierError → String
  | .empty => "Empty"
  | .tooLong _ => "TooLong"
  | .invalidStart _ => "InvalidStartCharacter"
  | .invalidCharacters _ => "InvalidCharacters"
  | .reserved _ => "ReservedKeyword"

def conversionLabel : ConversionError → String
  | .unexpectedNull _ => "UnexpectedNull"
  | .mismatch .. => "Mismatch"
  | .outOfRange .. => "OutOfRange"

def queryErrorLabel : QueryError → String
  | .unsupported _ => "UnsupportedConstruct"
  | .rowShape .. => "RowShapeMismatch"
  | .ambiguousAlias .. => "AmbiguousAlias"
  | .unknownField .. => "UnknownField"
  | .evaluation _ => "Evaluation"
  | .identifier _ => "Validation"
  | .execution _ => "Execution"

def queryError (e : QueryError) : Json :=
  match e, fault (queryErrorLabel e) e.message with
  | .identifier cause, .object fields => .object (("cause", .text (identifierLabel cause)) :: fields)
  | _, j => j

/-- The document of an outcome. -/
def outcome {α : Type} (encode : α → Json) : Except QueryError α → Json
  | .ok x => encode x
  | .error e => queryError e

def params (entries : List (String × Value)) : Json :=
  .array (entries.map fun (name, v) => namedValue name v)

def sql (f : Sql.Fragment) : Json := .tagged "sql" (.text f.text)

/-! ## Shapes and rows -/

def binding (b : Binding) : Json :=
  .object [("alias", .text b.label), ("entity", .text b.entity.typeName),
    ("fields", .array (b.fields.map fun f => .text f.name))]

def join (j : Join) : Json :=
  .object [("condition", .text j.condition.text), ("left", .text j.left.typeName),
    ("related", binding j.related), ("type", .text j.type.symbol)]

def outputKey (k : OutputKey) : Json := .array [.text k.name, kind k.kind]

def shape (s : Shape) : Json :=
  .object
    [("aggregation_keys", .array (s.aggregationKeys.map outputKey)),
      ("default_key_field", .text s.defaultKeyField),
      ("grouped", .bool s.isGrouped),
      ("grouping_keys", .array (s.groupingKeys.map outputKey)),
      ("joins", .array (s.joins.map join)),
      ("projection", (s.projection.map binding).getD .null),
      ("root", binding s.root)]

def statement (s : Statement) : Json :=
  .object [("params", params s.params.entries), ("shape", shape s.shape), ("sql", .text s.sql.text)]

def readRow? (j : Json) : Option Row := do
  let items ← j.items?
  some (.ofList (← items.mapM readNamedValue?))

def readRows? (j : Json) : Option (List Row) := j.items? >>= fun items => items.mapM readRow?

variable (s : Schema)

def readEntityRef? (j : Json) : Option Entity := j.text? >>= s.entity?

/-- A binding, of all fields of the entity unless some are listed. -/
def readBinding? (j : Json) : Option Binding := do
  let e ← j.field? "entity" >>= readEntityRef? s
  let label ← j.field? "alias" >>= Json.text?
  match j.field? "fields" with
  | none => some (.full e label)
  | some names => do
    let names ← (← names.items?).mapM Json.text?
    some ⟨e, label, ← names.mapM e.field?⟩

/-- A binding that may be missing. -/
def readOptionalBinding? : Json → Option (Option Binding)
  | .null => some none
  | j => (readBinding? s j).map some

def joinTypes : List (String × JoinType) := [("inner", .inner), ("left", .left)]

def readJoin? (j : Json) : Option Join := do
  some
    { type := ← (← j.field? "type" >>= Json.text?) |> joinTypes.lookup
      left := ← j.field? "left" >>= readEntityRef? s
      related := ← j.field? "related" >>= readBinding? s
      condition := [.raw (← j.field? "condition" >>= Json.text?)] }

def readOutputKey? : Json → Option OutputKey
  | .array [.text name, k] => (readKind? k).map (⟨name, ·⟩)
  | _ => none

def readShape? (j : Json) : Option Shape := do
  let keys (name : String) : Option (List OutputKey) := do
    (← j.field? name >>= Json.items?).mapM readOutputKey?
  some
    { root := ← j.field? "root" >>= readBinding? s
      projection := ← readOptionalBinding? s ((j.field? "projection").getD .null)
      joins := ← (← j.field? "joins" >>= Json.items?).mapM (readJoin? s)
      groupingKeys := ← keys "grouping_keys"
      aggregationKeys := ← keys "aggregation_keys"
      defaultKeyField := ← j.field? "default_key_field" >>= Json.text? }

end TypedQuery.Wire
