import TypedQuery.Plan

/-!
# Statements

A plan becomes one statement with its clauses in a fixed order. A grouped plan becomes two
stages: the rows without grouping are a common table expression, and a grouping subquery over
it is joined back on the grouping keys, so rows and aggregates come out together.
-/

namespace TypedQuery

/-- A statement with its parameters and the shape of its rows. -/
structure Statement where
  sql : Sql.Fragment
  params : Params
  shape : Shape

namespace Statement

def text (s : Statement) : String := s.sql.text

/-- The column that holds a count of rows. -/
def countColumn : String := "row_count"

end Statement

namespace Plan

open Sql.Fragment

variable (p : Plan)

/-- Table names reach the text verbatim, so they must be identifiers. -/
def checkTables : Except QueryError Unit :=
  p.participants.forM fun e =>
    match Identifier.check e.table with
    | .ok () => .ok ()
    | .error err => .error (.identifier err)

/-- The projection, or all fields of the root and the joined entities. -/
def selectClause : Sql.Fragment :=
  match p.fragmentsOf .select with
  | [] => joined .comma (p.bindings.flatMap Binding.selectList)
  | fs => joined .comma fs

def fromClause : Sql.Fragment := after "FROM" (joined .newline (p.fragmentsOf .from))

def joinClause : Sql.Fragment := joined .newline (p.fragmentsOf .join)

/-- A keyword in front of a condition, if there is one. -/
def conditionClause (word : String) (fs : List Sql.Fragment) : Sql.Fragment :=
  ((conjunction? fs).map (after word)).getD []

def whereClause : Sql.Fragment := conditionClause "WHERE" (p.fragmentsOf .where)

def orderClause : Sql.Fragment :=
  match p.fragmentsOf .orderBy with
  | [] => []
  | fs => after "ORDER BY" (joined .comma fs)

/-- The last limit and the last offset. -/
def limitClause : Sql.Fragment :=
  let limit := (p.fragmentsOf .limit).getLast?.map (after "LIMIT")
  let offset := (p.fragmentsOf .offset).getLast?.map (after "OFFSET")
  joined .newline (limit.toList ++ offset.toList)

/-- The filtered rows, all their fields selected. -/
def rowLines : List Sql.Fragment :=
  [after "SELECT" p.selectClause, p.fromClause, p.joinClause, p.whereClause]

/-- The statement of a plan without grouping. -/
def ungroupedSql : Sql.Fragment := lines (p.rowLines ++ [p.orderClause, p.limitClause])

/-- The grouping fragments with their keys. -/
def groupings : List (Sql.Fragment × OutputKey) := (p.fragmentsOf .groupBy).zip p.groupingKeys

/-- The common table expression under its alias. -/
def aliasedRows : Sql.Fragment := [.name p.naming.cteName, .space, .name p.naming.cteAlias]

/-- The subquery with one row a group. -/
def groupingSql : Sql.Fragment :=
  let columns := p.groupings.map (fun (f, k) => f.named k.name) ++ p.fragmentsOf .selectAggregate
  let having := conditionClause "HAVING" (p.fragmentsOf .having)
  after "SELECT" (joined .comma columns) ++ .space :: after "FROM" p.aliasedRows ++
    .space :: after "GROUP BY" (joined .comma (p.fragmentsOf .groupBy)) ++
    (if having.isEmpty then [] else .space :: having)

/-- The condition that joins a row to its group, key by key. -/
def groupCondition : Sql.Fragment :=
  joined .and (p.groupings.map fun (f, k) =>
    around f (.operator .eq) [.column p.naming.groupAlias k.name])

/-- All columns of an alias. -/
def allOf (label : String) : Sql.Fragment := [.column label "*"]

/-- The statement of a grouped plan. -/
def groupedSql : Sql.Fragment :=
  let n := p.naming
  lines
    [ after "WITH" (.name n.cteName :: .space :: .keyword "AS" :: .space ::
        parens (.newline :: lines p.rowLines ++ [.newline])),
      after "SELECT" (joined .comma [allOf n.groupAlias, allOf n.cteAlias]),
      after "FROM" p.aliasedRows,
      after "INNER JOIN" (parens p.groupingSql ++ .space :: .name n.groupAlias :: .space ::
        after "ON" p.groupCondition),
      p.orderClause,
      p.limitClause ]

def finish (sql : Sql.Fragment) : Statement := ⟨sql, p.params, p.shape⟩

/-- The statement that selects the rows of a plan. -/
def statement : Except QueryError Statement := do
  p.checkTables
  if !p.grouped then .ok (p.finish p.ungroupedSql)
  else if p.groupingKeys.isEmpty || p.groupingKeys.length != (p.fragmentsOf .groupBy).length then
    .error (.unsupported .noGroupingKey)
  else .ok (p.finish p.groupedSql)

/-- The statement that counts the filtered rows of a plan. -/
def countStatement : Except QueryError Statement := do
  p.checkTables
  if p.grouped then .error (.unsupported .countOfGroups)
  else
    let count : Sql.Fragment := .keyword Aggregate.count.symbol :: parens [.star]
    .ok (p.finish (lines
      [after "SELECT" (count.named Statement.countColumn), p.fromClause, p.joinClause,
        p.whereClause]))

end Plan

end TypedQuery
