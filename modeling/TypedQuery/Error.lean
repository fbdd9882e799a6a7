import TypedQuery.Clause
import TypedQuery.Expr.Basic
import TypedQuery.Field.Convert
import TypedQuery.Identifier

/-!
# Errors of queries

What can go wrong when a query is built, compiled, run and read back. Each cause is a
constructor that keeps the names it is about; the wording is a function of it.
-/

namespace TypedQuery

/-- Why a constant or a condition has no value. -/
inductive EvaluationError where
  | divisionByZero
  | overflow (a : Int) (op : BinaryOp) (b : Int)
  | notIntegers (op : BinaryOp) (left right : String)
  | notNumbers (op : BinaryOp) (left right : String)
  | notComparable (left right : String)
  | notTruthValue (op : Connective) (found : String)
  | notText (target pattern : String)
  | noMember (name : String)
  | notObject (name found : String)
  | notPredicate (found : String)
deriving DecidableEq

def EvaluationError.message : EvaluationError → String
  | divisionByZero => "division by zero"
  | overflow a op b =>
    "integer overflow in " ++ Number.textOfInt a ++ " " ++ op.symbol ++ " " ++ Number.textOfInt b
  | notIntegers op l r => s!"operator {op.symbol} requires integers, found {l} and {r}"
  | notNumbers op l r => s!"operator {op.symbol} is not defined for {l} and {r}"
  | notComparable l r => s!"cannot compare {l} with {r}"
  | notTruthValue op found => s!"operator {op.symbol} requires bool operands, found {found}"
  | notText t p => s!"LIKE requires text operands, found {t} and {p}"
  | noMember name => "no member '" ++ name ++ "' in object"
  | notObject name found => "cannot access member '" ++ name ++ "' of " ++ found
  | notPredicate found => s!"predicate produced {found} instead of bool"

/-- What lies outside the grammar of queries. -/
inductive Unsupported where
  | notConstant (node : NodeKind)
  | rowAsValue (entity : String)
  | bareRow (entity : String)
  | notPerRow (function : String)
  | constructPerRow (entity : String)
  | arity (function : String) (expected found : Nat)
  | listLiteral
  | listConstant
  | unreadableMember (name : String)
  | misplacedHelper (h : PredicateHelper) (clause : Clause)
  | misplacedAggregate (a : Aggregate) (clause : Clause)
  | accessorArguments (name : String)
  | unknownFunction (name : String)
  | misplacedProjection (entity : String)
  | emptyProjection (entity : String)
  | boundTwice (name entity : String)
  | bindingSource (name : String) (found : NodeKind)
  | notGrouped (entity : String)
  | setNotConstant (node : NodeKind)
  | countOfGroups
  | noGroupingKey
  | groupingKeyRequired
  | notGroupedQuery
  | notProjection (node : NodeKind) (entity : String)
  | projectionAlias
  | orderBeforeGrouping
  | notAggregate (node : NodeKind) (name : String)
  | joinKey (node : NodeKind)
  | leftKey (entity : String)
  | rightKey (related found : String)
  | joinAlias
  | joinCollision (name entity : String)
  | notJoined (entity : String)
  | declaredTwice (name : String)
  | columnCollision (name : String)
  | joinsFrom (related left : String)
  | noRelation (left related : String)
  | emptyStem
  | unbound (placeholder : String)
deriving DecidableEq

namespace Unsupported

/-- The construct that an error is reported for. -/
def construct : Unsupported → String
  | notConstant node | setNotConstant node | notProjection node _ | notAggregate node _
  | joinKey node => node.name
  | rowAsValue _ | bareRow _ | notJoined _ | emptyStem | unbound _ => "Param"
  | notPerRow _ | arity .. | misplacedHelper .. | misplacedAggregate .. | accessorArguments _
  | unknownFunction _ => "Call"
  | constructPerRow _ | misplacedProjection _ | emptyProjection _ | boundTwice .. | bindingSource ..
  | projectionAlias => "Construct"
  | listLiteral | listConstant => "Literal"
  | unreadableMember _ | notGrouped _ => "Member"
  | countOfGroups | noGroupingKey | groupingKeyRequired | notGroupedQuery | declaredTwice _
  | columnCollision _ => "GroupBy"
  | orderBeforeGrouping => "OrderBy"
  | leftKey _ | rightKey .. | joinAlias | joinCollision .. | joinsFrom .. | noRelation .. => "Join"

def detail : Unsupported → String
  | notConstant _ => "node cannot be evaluated at build time"
  | rowAsValue e => s!"row of {e} is not a value, access one of its fields"
  | bareRow e => s!"row of {e} must be accessed through one of its fields"
  | notPerRow f => "function '" ++ f ++ "' cannot be evaluated per row"
  | constructPerRow e => s!"construction of {e} cannot be evaluated"
  | arity f expected found => s!"{f} expects {expected} arguments, found {found}"
  | listLiteral => "list literals are only valid as the set of IN / NOT IN"
  | listConstant => "constant evaluated to a list outside IN / NOT IN"
  | unreadableMember name =>
    "member '" ++ name ++ "' must be read from an entity row or a constant"
  | misplacedHelper h clause =>
    h.symbol ++ " is a predicate helper and is only valid in WHERE or HAVING, not in " ++ clause.name
  | misplacedAggregate a clause =>
    "aggregate " ++ a.symbol ++ " is only valid in HAVING or aggregate selections, not in " ++
      clause.name
  | accessorArguments name => "static accessor '" ++ name ++ "' takes no arguments"
  | unknownFunction name => "function '" ++ name ++ "' is outside the query grammar"
  | misplacedProjection e => s!"projection into {e} is only valid in SELECT"
  | emptyProjection e => s!"projection into {e} binds no fields"
  | boundTwice name e => "field '" ++ name ++ "' of " ++ e ++ " is bound twice"
  | bindingSource name found =>
    "binding '" ++ name ++ "' must read a field of an entity row, found " ++ found.name
  | notGrouped e => s!"{e} is not part of the grouped query"
  | setNotConstant _ => "the set of IN / NOT IN must be a list literal or a constant"
  | countOfGroups => "count is not available on grouped queries"
  | noGroupingKey => "grouped query requires at least one grouping key"
  | groupingKeyRequired => "at least one grouping key is required"
  | notGroupedQuery => "query declares no grouping keys"
  | notProjection _ e => s!"select expects a construction of {e}"
  | projectionAlias => "projection alias was not registered"
  | orderBeforeGrouping => "order_by must be declared after group_by in grouped queries"
  | notAggregate _ name => "aggregate '" ++ name ++ "' must be an aggregate function call"
  | joinKey _ => "join keys must read entity fields"
  | leftKey e => s!"left key reads {e}, which is not part of the query"
  | rightKey related found => s!"right key must read a field of {related}, found {found}"
  | joinAlias => "joined entity alias was not registered"
  | joinCollision name e =>
    "output column '" ++ name ++ "' collides with a flattened column of " ++ e
  | notJoined e => s!"{e} is not part of the query; join it first"
  | declaredTwice name => "output column '" ++ name ++ "' is declared twice"
  | columnCollision name => "output column '" ++ name ++ "' collides with a flattened entity column"
  | joinsFrom related left => s!"{related} joins from {left}, which is not part of the query"
  | noRelation left related =>
    s!"{left} declares no relation to {related}; select a projection to read joined columns"
  | emptyStem => "parameter prefix is empty"
  | unbound placeholder => s!"placeholder {placeholder} has no bound value"

end Unsupported

/-- Why a column of a result row cannot be read. -/
inductive RowFault where
  | missing
  | kind (found : String) (expected : Kind)
  | conversion (e : ConversionError)
  | nullKey
  | noKey (entity : String)
  | noCount
deriving DecidableEq

def RowFault.message : RowFault → String
  | missing => "column missing from result row"
  | kind found expected => s!"cannot convert {found} to {expected.name}"
  | conversion e => e.message
  | nullKey => "primary key is NULL"
  | noKey entity => s!"{entity} declares no primary key"
  | noCount => "count query returned no value"

/-- Why an entity has no alias of its own. -/
inductive AliasConflict where
  | tables (label existing requested : String)
  | joinedAgain
deriving DecidableEq

namespace AliasConflict

def existing : AliasConflict → String
  | tables label existing _ => s!"alias {label} on table {existing}"
  | joinedAgain => "an entity already part of this query"

def requested : AliasConflict → String
  | tables _ _ requested => s!"table {requested}"
  | joinedAgain => "a second join"

end AliasConflict

inductive QueryError where
  | unsupported (cause : Unsupported)
  | rowShape (column : String) (fault : RowFault)
  | ambiguousAlias (entity : String) (conflict : AliasConflict)
  | unknownField (entity field : String)
  | evaluation (cause : EvaluationError)
  | identifier (cause : IdentifierError)
  | execution (report : String)
deriving DecidableEq

namespace QueryError

def message : QueryError → String
  | unsupported cause => "Unsupported construct '" ++ cause.construct ++ "': " ++ cause.detail
  | rowShape column fault => "Row shape mismatch on column '" ++ column ++ "': " ++ fault.message
  | ambiguousAlias entity conflict =>
    "Ambiguous alias for entity '" ++ entity ++ "': " ++ conflict.existing ++ " conflicts with " ++
      conflict.requested
  | unknownField entity field => "Unknown field '" ++ field ++ "' on entity '" ++ entity ++ "'"
  | evaluation cause => s!"Evaluation error: {cause.message}"
  | identifier cause => s!"Validation error: {cause.message}"
  | execution report => s!"Execution error: {report}"

end QueryError

end TypedQuery
