import TypedQuery.Shape
import TypedQuery.Sql.Translate

/-!
# Query plans

A plan collects the fragments of each clause in the order of the calls that made them, and
what is needed to read the rows back.
-/

namespace TypedQuery

structure Plan where
  naming : Naming
  root : Entity
  binder : Sql.Binder
  fragments : List (Clause × Sql.Fragment)
  joins : List Join
  projection : Option Binding
  grouped : Bool
  groupingKeys : List OutputKey
  aggregationKeys : List OutputKey

namespace Plan

variable (p : Plan)

def rootAlias : String := Number.numbered p.naming.aliasStem 0

def aliases : Aliases := p.binder.aliases

def params : Params := p.binder.params

/-- Appends a fragment to a clause. -/
def push (c : Clause) (f : Sql.Fragment) : Plan := { p with fragments := p.fragments ++ [(c, f)] }

/-- The plan of all rows of an entity. The log holds the accessors called before. -/
def new (root : Entity) (naming : Naming) (log : CallLog) : Plan :=
  let binder : Sql.Binder :=
    ⟨.rooted naming.aliasStem root, .empty naming.parameterStem, log⟩
  let p : Plan := ⟨naming, root, binder, [], [], none, false, [], []⟩
  p.push .from [.name root.table, .space, .name p.rootAlias]

/-- The fragments of a clause in the order of the calls. -/
def fragmentsOf (c : Clause) : List Sql.Fragment :=
  p.fragments.filterMap fun (d, f) => if d = c then some f else none

/-- Translates an expression for a clause. The plan keeps what was registered and bound, also
when the expression is refused. -/
def translate (c : Clause) (x : Expr) : Except QueryError Sql.Fragment × Plan :=
  let (result, binder) := (Sql.translate ⟨p.naming, p.grouped, c⟩ x).run p.binder
  (result, { p with binder := binder })

/-- The translated expression and the plan with what it bound. -/
def translated (c : Clause) (x : Expr) : Except QueryError (Sql.Fragment × Plan) :=
  match p.translate c x with
  | (.ok f, q) => .ok (f, q)
  | (.error e, _) => .error e

/-- The root and the joined entities in the order of the joins. -/
def participants : List Entity := p.root :: p.joins.map (·.related.entity)

def participates (e : Entity) : Bool := p.participants.any (·.same e)

def addJoin (j : Join) : Plan :=
  let q := p.push .join j.fragment
  { q with joins := q.joins ++ [j] }

def setProjection (b : Binding) (f : Sql.Fragment) : Plan :=
  { p.push .select f with projection := some b }

/-- From here on sort keys read the columns of the grouped query. -/
def beginGrouping : Plan := { p with grouped := true }

def addGroupingKey (k : OutputKey) (f : Sql.Fragment) : Plan :=
  let q := p.push .groupBy f
  { q with groupingKeys := q.groupingKeys ++ [k] }

def addAggregationKey (k : OutputKey) (f : Sql.Fragment) : Plan :=
  let q := p.push .selectAggregate (f.named k.name)
  { q with aggregationKeys := q.aggregationKeys ++ [k] }

def outputKeys : List OutputKey := p.groupingKeys ++ p.aggregationKeys

/-- Is the name that of a grouping or aggregate column, in any case? -/
def hasOutputKey (name : String) : Bool := p.outputKeys.any (Text.alike ·.name name)

def rootBinding : Binding := .full p.root p.rootAlias

/-- The root and the joined entities with their fields. -/
def bindings : List Binding := p.rootBinding :: p.joins.map Join.related

/-- Is the name that of a flattened column, in any case? -/
def hasRowColumn (name : String) : Bool := p.bindings.any (·.hasColumn name)

/-- The first grouping or aggregate column that is also a column of the binding. -/
def collision? (b : Binding) : Option String := (p.outputKeys.map OutputKey.name).find? b.hasColumn

def shape : Shape :=
  { root := p.rootBinding
    projection := p.projection
    joins := p.joins
    groupingKeys := p.groupingKeys
    aggregationKeys := p.aggregationKeys
    defaultKeyField := p.naming.defaultKeyField }

theorem mem_fragmentsOf {c : Clause} {f : Sql.Fragment} :
    f ∈ p.fragmentsOf c ↔ (c, f) ∈ p.fragments := by
  simp [fragmentsOf]

@[simp] theorem fragmentsOf_push_self (c : Clause) (f : Sql.Fragment) :
    (p.push c f).fragmentsOf c = p.fragmentsOf c ++ [f] := by
  simp [fragmentsOf, push]

theorem fragmentsOf_push_of_ne {c d : Clause} (f : Sql.Fragment) (h : d ≠ c) :
    (p.push d f).fragmentsOf c = p.fragmentsOf c := by
  simp [fragmentsOf, push, h]

@[simp] theorem binder_push (c : Clause) (f : Sql.Fragment) : (p.push c f).binder = p.binder := rfl

end Plan

end TypedQuery
