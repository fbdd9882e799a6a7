import TypedQuery.Aliases
import TypedQuery.Expr.Fold
import TypedQuery.Naming
import TypedQuery.Sql.Fragment

/-!
# Translating expressions

An expression becomes a fragment of one clause. Constants never reach the text: they are
bound as parameters and only their placeholders are written. NULL is the exception and is
written as a keyword, because an untyped NULL parameter compares with text alone. What the
clause has no form for is refused.

Constant parts are evaluated once each: a part that is translated as a constant is not
looked into again.
-/

namespace TypedQuery.Sql

open TypedQuery.Sql.Fragment

/-- What translating changes: the aliases and parameters of the query and the log of calls. -/
structure Binder where
  aliases : Aliases
  params : Params
  log : CallLog

/-- What translating depends on beside the expression. -/
structure Context where
  naming : Naming
  grouped : Bool
  clause : Clause

/-- A translation may fail; what it has registered and bound until then stays. -/
abbrev Translation := ExceptT QueryError (StateM Binder)

namespace Translation

def run {α : Type} (x : Translation α) (b : Binder) : Except QueryError α × Binder :=
  StateT.run (ExceptT.run x) b

def refuse {α : Type} (cause : Unsupported) : Translation α := throw (.unsupported cause)

/-- Evaluates a constant, logging its calls. -/
def evaluate {α : Type} (x : Eval α) : Translation α := do
  let b ← get
  let (outcome, log) := x.outcome b.log
  set { b with log := log }
  match outcome with
  | .ok v => return v
  | .error e => throw e

def aliasFor (e : Entity) : Translation String := do
  let b ← get
  let (answer, aliases) := b.aliases.request e
  set { b with aliases := aliases }
  match answer with
  | .ok name => return name
  | .error err => throw err

/-- A placeholder bound to a value, or the keyword NULL. -/
def bind (v : Value) : Translation Fragment := do
  if v.isNull then return [.keyword "NULL"]
  else
    let b ← get
    set { b with params := b.params.push v }
    return [.placeholder b.params.stem b.params.size]

/-- Binds the value of a constant where a set is not allowed. -/
def bindScalar (v : Value) : Translation Fragment :=
  match v with
  | .list _ => refuse .listConstant
  | v => bind v

/-- The given field, or the error that the entity has none of that name. -/
def fieldOf (e : Entity) (name : String) : Translation Field :=
  match e.field? name with
  | some f => pure f
  | none => throw (.unknownField e.typeName name)

end Translation

open Translation

namespace Context

variable (c : Context)

/-- Are fields read as flattened columns of the grouped query? -/
def readsGroupedColumns : Bool := c.clause.readsGroupedColumns || (c.grouped && c.clause == .orderBy)

/-- The column of a field as the clause sees it. -/
def column (e : Entity) (name : String) : Translation Fragment := do
  let f ← fieldOf e name
  if c.readsGroupedColumns then
    match (← get).aliases.lookup? e with
    | some label => return [.column c.naming.cteAlias (label ++ "_" ++ f.name)]
    | none => refuse (.notGrouped e.typeName)
  else
    let label ← aliasFor e
    return [.column label f.column]

/-- The values of the set of a membership test. -/
def setItems (x : Expr) : Translation (List Value) := do
  match ← evaluate x.fold with
  | some (.list items) => return items
  | some v => return [v]
  | none => refuse (.setNotConstant x.kind)

/-- The fragments of values in a row. -/
def bindAll : List Value → Translation (List Fragment)
  | [] => pure []
  | v :: vs => do
    let f ← bind v
    let fs ← bindAll vs
    return f :: fs

/-- The columns of a projection; `seen` are the fields bound before. -/
def bindings (target : Entity) (targetAlias : String) (seen : List String) :
    List (String × Expr) → Translation (List Fragment)
  | [] => pure []
  | (name, x) :: rest => do
    let f ← fieldOf target name
    if seen.contains f.name then refuse (.boundTwice name target.typeName)
    else match x.asField? with
      | none => refuse (.bindingSource name x.kind)
      | some (source, sourceName) =>
        let g ← fieldOf source sourceName
        let label ← aliasFor source
        let column := named [.column label g.column] (targetAlias ++ "_" ++ f.name)
        let columns ← bindings target targetAlias (f.name :: seen) rest
        return column :: columns

/-- A projection into an entity. -/
def projection (target : Entity) (bs : List (String × Expr)) : Translation Fragment := do
  if c.clause ≠ .select then refuse (.misplacedProjection target.typeName)
  else if bs.isEmpty then refuse (.emptyProjection target.typeName)
  else
    let label ← aliasFor target
    return joined .comma (← bindings target label [] bs)

end Context

/-- The constant NULL is tested for by a test of its own. -/
def isNullLiteral : Expr → Bool
  | .literal .null => true
  | _ => false

/-- The test that a comparison with NULL is written as. -/
def nullTest? : BinaryOp → Option String
  | .eq => some "IS NULL"
  | .ne => some "IS NOT NULL"
  | _ => none

/-- The call of an aggregate function; the count of distinct values marks its argument. -/
def aggregateOf (a : Aggregate) (arg : Fragment) : Fragment :=
  .keyword a.symbol ::
    parens (if a = .countDistinct then after "DISTINCT" arg else arg)

/-- Checks that a predicate helper may stand in the clause with that many arguments. -/
def checkHelper (c : Context) (h : PredicateHelper) (args : List Expr) : Translation Unit := do
  if !c.clause.acceptsPredicates then refuse (.misplacedHelper h c.clause)
  else if args.length ≠ h.arity then refuse (.arity h.symbol h.arity args.length)

/-- The fragment of an expression in a clause. -/
def translate (c : Context) : Expr → Translation Fragment
  | .literal v =>
    match v with
    | .list _ => refuse .listLiteral
    | v => bind v
  | .row e => refuse (.bareRow e.typeName)
  | .member target name =>
    match target with
    | .row e => c.column e name
    | target => do
      match ← evaluate (Expr.member target name).fold with
      | some v => bindScalar v
      | none => refuse (.unreadableMember name)
  | .comparison op l r => do
    let constant ←
      if op.isComparison then pure none else evaluate (Expr.comparison op l r).fold
    match constant, nullTest? op, isNullLiteral r, isNullLiteral l with
    | some v, _, _, _ => bindScalar v
    | none, some test, true, _ => do
      let f ← translate c l
      return f ++ [.space, .keyword test]
    | none, some test, false, true => do
      let f ← translate c r
      return f ++ [.space, .keyword test]
    | none, _, _, _ => do
      let f ← translate c l
      let g ← translate c r
      let whole := around f (.operator op) g
      return if op.isComparison then whole else parens whole
  | .logical op l r => do
    let f ← translate c l
    let g ← translate c r
    return around (parens f) (.connective op) (parens g)
  | .call (.helper h) args => do
    checkHelper c h args
    match h, args with
    | .between, [target, low, high] => do
      let f ← translate c target
      let g ← translate c low
      let k ← translate c high
      return parens (around (around f (.keyword "BETWEEN") g) (.connective .and) k)
    | .like, [target, pattern] => do
      let f ← translate c target
      let g ← translate c pattern
      return parens (around f (.keyword "LIKE") g)
    | h, [target, set] => do
      let items ← Context.setItems set
      if items.isEmpty then return [.truth (h == .notIn)]
      else
        let f ← translate c target
        let gs ← Context.bindAll items
        return parens (around f (.keyword h.symbol) [] ++ parens (joined .comma gs))
    | h, args => refuse (.arity h.symbol h.arity args.length)
  | .call (.aggregate a) args => do
    if !c.clause.acceptsAggregates then refuse (.misplacedAggregate a c.clause)
    else match a, args with
      | .count, [] => return .keyword a.symbol :: parens [.star]
      | a, [arg] => return aggregateOf a (← translate c arg)
      | a, args => refuse (.arity a.symbol 1 args.length)
  | .call (.accessor a) args => do
    match ← evaluate (Expr.call (.accessor a) args).fold with
    | some v => bindScalar v
    | none => refuse (.accessorArguments a.name)
  | .call (.named name) _ => refuse (.unknownFunction name)
  | .construct target bs => c.projection target bs
termination_by structural x => x

end TypedQuery.Sql
