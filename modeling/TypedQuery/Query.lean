import TypedQuery.Expr.OutputKind
import TypedQuery.Statement

/-!
# Building queries

A query is built by calls that each add one fragment to its plan, or refuse and say why. Only
rows of the root and of joined entities may be read. Grouping comes before sorting, and a
grouped query has steps of its own.
-/

namespace TypedQuery

inductive SortOrder where
  | ascending
  | descending
deriving DecidableEq

def SortOrder.symbol : SortOrder → String
  | .ascending => "ASC"
  | .descending => "DESC"

namespace Plan

variable (p : Plan)

mutual

/-- Checks that an expression reads only entities of the query. -/
def checkParticipants : Expr → Except QueryError Unit
  | .row e => if p.participates e then .ok () else .error (.unsupported (.notJoined e.typeName))
  | .comparison _ l r => do
    checkParticipants l
    checkParticipants r
  | .logical _ l r => do
    checkParticipants l
    checkParticipants r
  | .member target _ => checkParticipants target
  | .literal _ => .ok ()
  | .call _ args => checkArgs args
  | .construct _ bindings => checkBindings bindings
termination_by structural x => x

def checkArgs : List Expr → Except QueryError Unit
  | [] => .ok ()
  | x :: xs => do
    checkParticipants x
    checkArgs xs
termination_by structural xs => xs

def checkBindings : List (String × Expr) → Except QueryError Unit
  | [] => .ok ()
  | (_, x) :: bs => do
    checkParticipants x
    checkBindings bs
termination_by structural bs => bs

end

/-- Translates an expression that reads only entities of the query. -/
def checkedFragment (c : Clause) (x : Expr) : Except QueryError (Sql.Fragment × Plan) := do
  p.checkParticipants x
  p.translated c x

/-- Adds a condition to a clause. -/
def addPredicate (c : Clause) (x : Expr) : Except QueryError Plan := do
  let (f, q) ← p.checkedFragment c x
  .ok (q.push c f)

def addOrder (x : Expr) (o : SortOrder) : Except QueryError Plan := do
  let (f, q) ← p.checkedFragment .orderBy x
  .ok (q.push .orderBy (f ++ [.space, .keyword o.symbol]))

/-- The entity whose field a join key reads. -/
def joinKeyEntity (x : Expr) : Except QueryError Entity :=
  match x.asField? with
  | some (e, _) => .ok e
  | none => .error (.unsupported (.joinKey x.kind))

/-- Joins an entity that is not part of the query yet, on a field of one that is. -/
def addJoinOn (type : JoinType) (related : Entity) (leftKey rightKey : Expr) :
    Except QueryError Plan := do
  if p.participates related then .error (.ambiguousAlias related.typeName .joinedAgain)
  let left ← joinKeyEntity leftKey
  if !p.participates left then .error (.unsupported (.leftKey left.typeName))
  let right ← joinKeyEntity rightKey
  if !right.same related then
    .error (.unsupported (.rightKey related.typeName right.typeName))
  let (condition, q) ← p.translated .join (.comparison .eq leftKey rightKey)
  match q.aliases.lookup? related with
  | none => .error (.unsupported .joinAlias)
  | some label =>
    let binding := Binding.full related label
    match q.collision? binding with
    | some name => .error (.unsupported (.joinCollision name related.typeName))
    | none => .ok (q.addJoin ⟨type, left, binding, condition⟩)

/-- Checks the name of a new grouping or aggregate column. -/
def checkOutputName (name : String) : Except QueryError Unit := do
  match Identifier.check name with
  | .error e => .error (.identifier e)
  | .ok () => .ok ()
  if p.hasOutputKey name then .error (.unsupported (.declaredTwice name))
  if p.hasRowColumn name then .error (.unsupported (.columnCollision name))

/-- Adds named grouping keys one after the other. -/
def addGroupingKeys : Plan → List (String × Expr) → Except QueryError Plan
  | p, [] => .ok p
  | p, (name, x) :: rest => do
    p.checkOutputName name
    let (f, q) ← p.checkedFragment .groupBy x
    addGroupingKeys (q.addGroupingKey ⟨name, x.outputKind⟩ f) rest

/-- The fields that a projection into an entity binds. -/
def projectedFields (target : Entity) : List (String × Expr) → Except QueryError (List Field)
  | [] => .ok []
  | (name, _) :: rest => do
    match target.field? name with
    | none => .error (.unknownField target.typeName name)
    | some f =>
      let fs ← projectedFields target rest
      .ok (f :: fs)

end Plan

/-- A query over the rows of an entity whose results are instances of `result`. -/
structure Query where
  plan : Plan
  result : Entity
  ordered : Bool

/-- A query whose results are groups of instances of its root. -/
structure GroupedQuery where
  plan : Plan

namespace Query

/-- The query for all rows of an entity. -/
def new (root : Entity) (naming : Naming) (log : CallLog) : Query := ⟨.new root naming log, root, false⟩

variable (q : Query)

def filter (x : Expr) : Except QueryError Query := do
  .ok { q with plan := ← q.plan.addPredicate .where x }

def join (type : JoinType) (related : Entity) (leftKey rightKey : Expr) : Except QueryError Query := do
  .ok { q with plan := ← q.plan.addJoinOn type related leftKey rightKey }

def orderBy (x : Expr) (o : SortOrder) : Except QueryError Query := do
  .ok { q with plan := ← q.plan.addOrder x o, ordered := true }

def limit (n : Nat) : Query := { q with plan := q.plan.push .limit [.number n] }

def offset (n : Nat) : Query := { q with plan := q.plan.push .offset [.number n] }

/-- Projects every row into an entity; the projection must construct that entity. -/
def select (target : Entity) (projection : Expr) : Except QueryError Query := do
  let refused := QueryError.unsupported (.notProjection projection.kind target.typeName)
  match projection with
  | .construct constructed bindings =>
    if !constructed.same target then .error refused
    let fields ← Plan.projectedFields target bindings
    let (f, p) ← q.plan.checkedFragment .select projection
    match p.aliases.lookup? target with
    | none => .error (.unsupported .projectionAlias)
    | some label =>
      .ok { q with plan := p.setProjection ⟨target, label, fields⟩ f, result := target }
  | _ => .error refused

/-- Groups the rows by named keys. -/
def groupBy (keys : List (String × Expr)) : Except QueryError GroupedQuery := do
  if q.ordered then .error (.unsupported .orderBeforeGrouping)
  let p ← q.plan.beginGrouping.addGroupingKeys keys
  if p.groupingKeys.isEmpty then .error (.unsupported .groupingKeyRequired)
  .ok ⟨p⟩

def compile : Except QueryError Statement := q.plan.statement

end Query

namespace GroupedQuery

variable (q : GroupedQuery)

def filter (x : Expr) : Except QueryError GroupedQuery := do
  .ok ⟨← q.plan.addPredicate .where x⟩

def join (type : JoinType) (related : Entity) (leftKey rightKey : Expr) :
    Except QueryError GroupedQuery := do
  .ok ⟨← q.plan.addJoinOn type related leftKey rightKey⟩

/-- Adds an aggregate column, whose value becomes part of the key of a group. -/
def aggregate (name : String) (x : Expr) : Except QueryError GroupedQuery := do
  match x with
  | .call (.aggregate _) _ =>
    q.plan.checkOutputName name
    let (f, p) ← q.plan.checkedFragment .selectAggregate x
    .ok ⟨p.addAggregationKey ⟨name, x.outputKind⟩ f⟩
  | x => .error (.unsupported (.notAggregate x.kind name))

/-- A condition on groups. -/
def having (x : Expr) : Except QueryError GroupedQuery := do
  .ok ⟨← q.plan.addPredicate .having x⟩

def orderBy (x : Expr) (o : SortOrder) : Except QueryError GroupedQuery := do
  .ok ⟨← q.plan.addOrder x o⟩

def limit (n : Nat) : GroupedQuery := ⟨q.plan.push .limit [.number n]⟩

def offset (n : Nat) : GroupedQuery := ⟨q.plan.push .offset [.number n]⟩

def compile : Except QueryError Statement := q.plan.statement

end GroupedQuery

end TypedQuery
