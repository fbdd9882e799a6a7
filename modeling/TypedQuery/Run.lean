import TypedQuery.Instance
import TypedQuery.Materialize
import TypedQuery.Query

/-!
# Running queries

A database is a function from statements to rows. A query sends one statement and rebuilds
its results from the rows of the answer.
-/

namespace TypedQuery

/-- What answers statements; a failure is passed on as it is reported. -/
abbrev Database := Statement → Except QueryError (List Row)

/-- A group of instances with the values it is known by. -/
structure Group where
  key : GroupKey
  members : List Instance

namespace Query

variable (schema : Schema) (db : Database) (q : Query)

/-- The results read from the rows of a statement. -/
def resultsOf (s : Statement) (rows : List Row) : Except QueryError (List Instance) := do
  let m ← Materializer.ofShape s.shape
  let nodes ← m.materialize rows
  nodes.mapM (Node.read schema q.result)

/-- All results. -/
def toList : Except QueryError (List Instance) := do
  let s ← q.compile
  q.resultsOf schema s (← db s)

/-- The query that is sent for the first result: one row is enough unless graphs are built,
because all rows of a parent belong to it. -/
def forFirst : Query :=
  if q.plan.joins.isEmpty || q.plan.projection.isSome then q.limit 1 else q

/-- The first result, if there is one. -/
def first : Except QueryError (Option Instance) := do
  .ok (← q.forFirst.toList schema db).head?

/-- The number in the first row of a count. -/
def countOf (rows : List Row) : Except QueryError Int64 :=
  match rows.head?.bind (·.get? Statement.countColumn) with
  | none => .error (.rowShape Statement.countColumn .noCount)
  | some v =>
    match v.readInt IntegerType.i64.name with
    | .ok n => .ok n
    | .error e => .error (.rowShape Statement.countColumn (.conversion e))

/-- The number of rows that the filters and joins leave. -/
def count : Except QueryError Int64 := do
  let s ← q.plan.countStatement
  countOf (← db s)

end Query

namespace GroupedQuery

variable (schema : Schema) (db : Database) (q : GroupedQuery)

/-- The groups read from the rows of a statement. -/
def groupsOf (s : Statement) (rows : List Row) : Except QueryError (List Group) := do
  let m ← Materializer.ofShape s.shape
  let groups ← m.materializeGroups rows
  groups.mapM fun (key, nodes) => do
    .ok ⟨key, ← nodes.mapM (Node.read schema q.plan.root)⟩

/-- All groups, in the order in which they were first seen. -/
def toGroups : Except QueryError (List Group) := do
  let s ← q.compile
  q.groupsOf schema s (← db s)

end GroupedQuery

end TypedQuery
