import TypedQuery.Graph
import TypedQuery.Row
import TypedQuery.Shape

/-!
# Rebuilding entities from rows

The rows of a joined query repeat the columns of a parent for every child. Entities are told
apart by their primary keys, so a parent with several children is built once and each child
hangs below it once. A grouped query rebuilds the rows of every group on their own.
-/

namespace TypedQuery

/-- The value of a column, as one of a kind if one is given. -/
def Row.read (r : Row) (column : String) (kind : Option Kind) : Except QueryError Value :=
  match r.get? column with
  | none => .error (.rowShape column .missing)
  | some v =>
    match kind with
    | none => .ok v
    | some k =>
      match v.coerce? k with
      | some w => .ok w
      | none => .error (.rowShape column (.kind v.typeName k))

namespace Binding

/-- The node of an entity with the values of the selected fields. -/
def readNode (b : Binding) (r : Row) : Except QueryError Node :=
  b.fields.foldlM (fun n f => do
    let v ← r.read (b.column f.name) (some f.kind)
    .ok (n.set f.name v)) (.empty b.entity)

/-- The column of the primary key and its kind. -/
def keyColumn (b : Binding) (defaultKey : String) : Except QueryError (String × Kind) :=
  match b.entity.keyField? defaultKey with
  | some f => .ok (b.column f.name, f.kind)
  | none => .error (.rowShape (b.column defaultKey) (.noKey b.entity.typeName))

/-- The primary key in a row. -/
def readKey (b : Binding) (defaultKey : String) (r : Row) : Except QueryError Value := do
  let (column, kind) ← b.keyColumn defaultKey
  r.read column (some kind)

end Binding

/-- A join with the place of its parent among the bindings, 0 for the root, and the relation
of the parent that the related entity belongs to. -/
structure PlacedJoin where
  join : Join
  parent : Nat
  relation : Option Relation

/-- A shape whose joins have found their parents. -/
structure Materializer where
  shape : Shape
  joins : List PlacedJoin

namespace Materializer

/-- The place of an entity among the bindings so far. -/
def place? (earlier : List Binding) (e : Entity) : Option Nat := earlier.findIdx? (·.entity.same e)

/-- Finds the parents of joins among the bindings before them. -/
def placeJoins (earlier : List Binding) : List Join → Except QueryError (List PlacedJoin)
  | [] => .ok []
  | j :: js =>
    match place? earlier j.left with
    | none => .error (.unsupported (.joinsFrom j.related.entity.typeName j.left.typeName))
    | some parent => do
      let rest ← placeJoins (earlier ++ [j.related]) js
      .ok (⟨j, parent, j.left.relationTo? j.related.entity⟩ :: rest)

def ofShape (s : Shape) : Except QueryError Materializer := do
  .ok ⟨s, ← placeJoins [s.root] s.joins⟩

variable (m : Materializer)

/-- Are rows folded into graphs, rather than read one by one? -/
def buildsGraphs : Bool :=
  m.shape.projection.isNone && (!m.shape.joins.isEmpty || m.shape.isGrouped)

/-- Checks that every join follows a relation. -/
def checkRelations : Except QueryError Unit :=
  m.joins.forM fun p =>
    match p.relation with
    | some _ => .ok ()
    | none =>
      .error (.unsupported (.noRelation p.join.left.typeName p.join.related.entity.typeName))

/-- The slot of the root of a row, which is added when its key is new. -/
def absorbRoot (g : Graph) (r : Row) : Except QueryError (Nat × Graph) := do
  let root := m.shape.root
  let key ← root.readKey m.shape.defaultKeyField r
  if key.isNull then
    let (column, _) ← root.keyColumn m.shape.defaultKeyField
    .error (.rowShape column .nullKey)
  else match g.root? key with
    | some slot => .ok (slot, g)
    | none =>
      let n ← root.readNode r
      .ok (g.next, g.addRoot key n)

/-- The slot of the joined entity of a row, if it has one. A relation to one entity keeps the
first that was attached. -/
def absorbJoin (g : Graph) (r : Row) (index : Nat) (p : PlacedJoin) (resolved : List (Option Nat)) :
    Except QueryError (Option Nat × Graph) := do
  match resolved.getD p.parent none, p.relation with
  | some parent, some relation =>
    let key ← p.join.related.readKey m.shape.defaultKeyField r
    if key.isNull then .ok (none, g)
    else
      let attachKey : AttachKey :=
        ⟨parent, index, match relation.cardinality with | .many => key | .one => .null⟩
      match g.child? attachKey with
      | some child => .ok (some child, g)
      | none =>
        let n ← p.join.related.readNode r
        .ok (some g.next, g.addChild attachKey relation.name n)
  | _, _ => .ok (none, g)

/-- Folds the joins of a row into a graph; `resolved` are the slots of the bindings before. -/
def absorbJoins (r : Row) : Graph → Nat → List (Option Nat) → List PlacedJoin →
    Except QueryError Graph
  | g, _, _, [] => .ok g
  | g, index, resolved, p :: ps => do
    let (slot, g) ← m.absorbJoin g r index p resolved
    absorbJoins r g (index + 1) (resolved ++ [slot]) ps

/-- Folds a row into a graph. -/
def absorb (g : Graph) (r : Row) : Except QueryError Graph := do
  let (root, g) ← m.absorbRoot g r
  m.absorbJoins r g 0 [some root] m.joins

/-- Folds rows into a graph. -/
def absorbAll (g : Graph) (rows : List Row) : Except QueryError Graph := rows.foldlM m.absorb g

/-- The entities of a query without grouping, in the order in which they were first seen. -/
def materialize (rows : List Row) : Except QueryError (List Node) := do
  if m.buildsGraphs then
    m.checkRelations
    let g ← m.absorbAll .empty rows
    .ok g.nodes
  else rows.mapM (m.shape.projection.getD m.shape.root).readNode

/-- The key of the group that a row belongs to. -/
def groupKey (r : Row) : Except QueryError GroupKey := do
  .ok ⟨← m.shape.outputKeys.mapM fun k => r.read k.name k.kind⟩

/-- The graph of a group, empty for a new one. -/
def graphOf (groups : List (GroupKey × Graph)) (key : GroupKey) : Graph :=
  ((groups.find? (·.1.sameGroup key)).map Prod.snd).getD .empty

/-- Puts the graph of a group in its place, a new group at the end. -/
def putGraph (key : GroupKey) (g : Graph) : List (GroupKey × Graph) → List (GroupKey × Graph)
  | [] => [(key, g)]
  | (k, h) :: rest => if k.sameGroup key then (k, g) :: rest else (k, h) :: putGraph key g rest

/-- Folds a row into the graph of its group. -/
def absorbGrouped (groups : List (GroupKey × Graph)) (r : Row) :
    Except QueryError (List (GroupKey × Graph)) := do
  let key ← m.groupKey r
  let g ← m.absorb (graphOf groups key) r
  .ok (putGraph key g groups)

/-- The entities of a grouped query, group by group, groups and entities in the order in which
they were first seen. -/
def materializeGroups (rows : List Row) : Except QueryError (List (GroupKey × List Node)) := do
  if !m.shape.isGrouped then .error (.unsupported .notGroupedQuery)
  else
    m.checkRelations
    let groups ← rows.foldlM m.absorbGrouped []
    .ok (groups.map fun (key, g) => (key, g.nodes))

end Materializer

end TypedQuery
