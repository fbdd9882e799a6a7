import TypedQuery.Proofs.Expr.Evaluation
import TypedQuery.Sql.Translate

/-!
# The rules of translation

What a successful translation has done, one rule for each form that the grammar accepts. A
rule names the fragments of the parts, the state before and after each of them, and what was
checked. Statements about all translations are proved by induction on these rules and never
open the translation itself.

Only success has rules. A refused expression has none, whatever it has bound before.
-/

namespace TypedQuery.Sql

open TypedQuery.Sql.Fragment

namespace Translation

variable {α β : Type} {b b' : Binder}

theorem run_bind (x : Translation α) (f : α → Translation β) (b : Binder) :
    (x >>= f).run b = match x.run b with
      | (.ok a, b') => (f a).run b'
      | (.error e, b') => (.error e, b') := by
  show (StateT.run (ExceptT.run (x >>= f)) b : Except QueryError β × Binder) = _
  rw [ExceptT.run_bind, StateT.run_bind]
  unfold Translation.run
  rcases StateT.run (ExceptT.run x) b with ⟨_ | a, b'⟩ <;> rfl

theorem run_pure (a : α) (b : Binder) : (pure a : Translation α).run b = (.ok a, b) := rfl

theorem run_get (b : Binder) : (get : Translation Binder).run b = (.ok b, b) := rfl

theorem run_refuse (cause : Unsupported) (b : Binder) :
    (refuse cause : Translation α).run b = (.error (.unsupported cause), b) := rfl

/-- A sequence succeeds when both steps do, the second from the state that the first leaves. -/
theorem run_bind_ok {x : Translation α} {f : α → Translation β} {r : β} :
    (x >>= f).run b = (.ok r, b') ↔
      ∃ a middle, x.run b = (.ok a, middle) ∧ (f a).run middle = (.ok r, b') := by
  rw [run_bind]
  rcases h : x.run b with ⟨_ | a, middle⟩
  · simp
  · constructor
    · intro hf
      exact ⟨a, middle, rfl, hf⟩
    · rintro ⟨a', middle', heq, hf⟩
      obtain ⟨ha, rfl⟩ := Prod.mk.inj heq
      obtain rfl := Except.ok.inj ha
      exact hf

theorem run_pure_ok {a r : α} : (pure a : Translation α).run b = (.ok r, b') ↔ a = r ∧ b = b' := by
  simp [run_pure]

theorem exists_run_ok {x : Translation α} (h : (x.run b).1.isOk = true) :
    ∃ a b', x.run b = (.ok a, b') := by
  rcases hrun : x.run b with ⟨_ | a, b'⟩
  · rw [hrun] at h
    cases h
  · exact ⟨a, b', rfl⟩

theorem run_evaluate (x : Eval α) (b : Binder) :
    (evaluate x).run b = ((x.outcome b.log).1, { b with log := (x.outcome b.log).2 }) := by
  unfold evaluate
  rw [run_bind, run_get]
  rcases h : x.outcome b.log with ⟨_ | a, log⟩ <;> simp [h] <;> rfl

theorem run_evaluate_ok {x : Eval α} {a : α} :
    (evaluate x).run b = (.ok a, b') ↔
      ∃ log, x.outcome b.log = (.ok a, log) ∧ b' = { b with log := log } := by
  rw [run_evaluate]
  rcases x.outcome b.log with ⟨out, log⟩
  constructor
  · intro h
    obtain ⟨rfl, rfl⟩ := Prod.mk.inj h
    exact ⟨log, rfl, rfl⟩
  · rintro ⟨log', h, rfl⟩
    obtain ⟨rfl, rfl⟩ := Prod.mk.inj h
    rfl

theorem run_aliasFor (e : Entity) (b : Binder) :
    (aliasFor e).run b =
      ((b.aliases.request e).1, { b with aliases := (b.aliases.request e).2 }) := by
  unfold aliasFor
  rw [run_bind, run_get]
  dsimp only
  rcases b.aliases.request e with ⟨_ | name, registry⟩ <;> rfl

theorem run_aliasFor_ok {e : Entity} {label : String} :
    (aliasFor e).run b = (.ok label, b') ↔
      ∃ as, b.aliases.aliasFor e = .ok (label, as) ∧ b' = { b with aliases := as } := by
  simp only [run_aliasFor, Aliases.aliasFor_ok_iff, Prod.mk.injEq]
  constructor
  · rintro ⟨hlabel, rfl⟩
    exact ⟨_, Prod.ext hlabel rfl, rfl⟩
  · rintro ⟨as, hrequest, rfl⟩
    rw [hrequest]
    exact ⟨rfl, rfl⟩

theorem run_fieldOf_ok {e : Entity} {name : String} {f : Field} :
    (fieldOf e name).run b = (.ok f, b') ↔ e.field? name = some f ∧ b' = b := by
  unfold fieldOf
  rcases e.field? name with _ | g
  · simp only [reduceCtorEq, false_and, iff_false]
    intro hrun
    cases hrun
  · simp [run_pure, eq_comm]

end Translation

open Translation

namespace Binder

/-- The fragment of a bound constant. -/
def written (b : Binder) (v : Value) : Fragment :=
  if v.isNull then [.keyword "NULL"] else [.placeholder b.params.stem b.params.size]

/-- The state after a constant is bound. -/
def bound (b : Binder) (v : Value) : Binder :=
  if v.isNull then b else { b with params := b.params.push v }

/-- The fragments of constants bound one after the other. -/
def writtenAll (b : Binder) : List Value → List Fragment
  | [] => []
  | v :: vs => b.written v :: (b.bound v).writtenAll vs

def boundAll (b : Binder) (vs : List Value) : Binder := vs.foldl bound b

end Binder

namespace Translation

theorem run_bind_value (v : Value) (b : Binder) :
    (Translation.bind v).run b = (.ok (b.written v), b.bound v) := by
  unfold Translation.bind Binder.written Binder.bound
  by_cases h : v.isNull = true
  · simp [h, run_pure]
  · simp only [h]
    rfl

theorem run_bindAll (vs : List Value) (b : Binder) :
    (Context.bindAll vs).run b = (.ok (b.writtenAll vs), b.boundAll vs) := by
  induction vs generalizing b with
  | nil => rfl
  | cons v vs ih =>
      simp only [Context.bindAll, run_bind, run_bind_value, ih, run_pure]
      rfl

/-- A constant outside a set is bound unless it is a list. -/
theorem run_bindScalar_ok {v : Value} {f : Fragment} {b b' : Binder} :
    (bindScalar v).run b = (.ok f, b') ↔
      (∀ items, v ≠ .list items) ∧ f = b.written v ∧ b' = b.bound v := by
  cases v with
  | list items => simp [bindScalar, run_refuse]
  | _ => simp [bindScalar, run_bind_value, eq_comm]

end Translation

theorem eq_null_of_isNullLiteral {x : Expr} (h : isNullLiteral x = true) : x = .literal .null := by
  unfold isNullLiteral at h
  split at h
  · rfl
  · cases h

/-- The members of the set that a constant stands for. -/
def membersOf : Value → List Value
  | .list items => items
  | v => [v]

theorem Translation.run_setItems_ok {x : Expr} {items : List Value} {b b' : Binder} :
    (Context.setItems x).run b = (.ok items, b') ↔
      ∃ v log, x.fold.outcome b.log = (.ok (some v), log) ∧ items = membersOf v ∧
        b' = { b with log := log } := by
  unfold Context.setItems
  rw [run_bind_ok]
  constructor
  · rintro ⟨found, middle, heval, hrun⟩
    obtain ⟨log, hfold, rfl⟩ := run_evaluate_ok.1 heval
    cases found with
    | none => simp [run_refuse] at hrun
    | some v =>
        refine ⟨v, log, hfold, ?_⟩
        cases v <;> simp_all [run_pure, membersOf]
  · rintro ⟨v, log, hfold, rfl, rfl⟩
    refine ⟨some v, _, run_evaluate_ok.2 ⟨log, hfold, rfl⟩, ?_⟩
    cases v <;> rfl

/-- The forms that are bound as one value when they are constant. -/
def bindsWhole : Expr → Prop
  | .member (.row _) _ => False
  | .member _ _ => True
  | .comparison op _ _ => op.isComparison = false
  | .call (.accessor _) _ => True
  | _ => False

/-- The columns of a projection; `seen` are the fields bound before. -/
inductive Projects (target : Entity) (label : String) :
    List String → List (String × Expr) → Binder → List Fragment → Binder → Prop
  | nil {seen b} : Projects target label seen [] b [] b
  | cons {seen name source sourceName rest b as columns b'} {f g : Field} {sourceLabel : String}
      (field : target.field? name = some f) (fresh : seen.contains f.name = false)
      (sourceField : source.field? sourceName = some g)
      (registered : b.aliases.aliasFor source = .ok (sourceLabel, as))
      (others : Projects target label (f.name :: seen) rest { b with aliases := as } columns b') :
      Projects target label seen ((name, .field source sourceName) :: rest) b
        (named [.column sourceLabel g.column] (label ++ "_" ++ f.name) :: columns) b'

/-- The expression is translated into the fragment and changes the first state into the second. -/
inductive Translates (c : Context) : Expr → Binder → Fragment → Binder → Prop
  | literal {v b} (scalar : ∀ items, v ≠ .list items) :
      Translates c (.literal v) b (b.written v) (b.bound v)
  | constant {x v log b} (form : bindsWhole x)
      (value : x.fold.outcome b.log = (.ok (some v), log)) (scalar : ∀ items, v ≠ .list items) :
      Translates c x b (Binder.written { b with log := log } v)
        (Binder.bound { b with log := log } v)
  | column {e name f label as b} (field : e.field? name = some f)
      (rows : c.readsGroupedColumns = false) (registered : b.aliases.aliasFor e = .ok (label, as)) :
      Translates c (.field e name) b [.column label f.column] { b with aliases := as }
  | groupedColumn {e name f label b} (field : e.field? name = some f)
      (groups : c.readsGroupedColumns = true) (registered : b.aliases.lookup? e = some label) :
      Translates c (.field e name) b [.column c.naming.cteAlias (label ++ "_" ++ f.name)] b
  | testLeft {op l r test b f b'} (null : isNullLiteral r = true) (word : nullTest? op = some test)
      (operand : Translates c l b f b') :
      Translates c (.comparison op l r) b (f ++ [.space, .keyword test]) b'
  | testRight {op l r test b f b'} (other : isNullLiteral r = false) (null : isNullLiteral l = true)
      (word : nullTest? op = some test) (operand : Translates c r b f b') :
      Translates c (.comparison op l r) b (f ++ [.space, .keyword test]) b'
  | comparison {op l r b f middle g b'} (order : op.isComparison = true)
      (noTest : nullTest? op = none ∨ isNullLiteral l = false ∧ isNullLiteral r = false)
      (left : Translates c l b f middle) (right : Translates c r middle g b') :
      Translates c (.comparison op l r) b (around f (.operator op) g) b'
  | arithmetic {op l r b f middle g b'} (noOrder : op.isComparison = false)
      (reads : (Expr.comparison op l r).foldable = false)
      (left : Translates c l b f middle) (right : Translates c r middle g b') :
      Translates c (.comparison op l r) b (parens (around f (.operator op) g)) b'
  | logical {op l r b f middle g b'}
      (left : Translates c l b f middle) (right : Translates c r middle g b') :
      Translates c (.logical op l r) b (around (parens f) (.connective op) (parens g)) b'
  | between {x y z b f b₁ g b₂ k b'} (predicates : c.clause.acceptsPredicates = true)
      (target : Translates c x b f b₁) (low : Translates c y b₁ g b₂)
      (high : Translates c z b₂ k b') :
      Translates c (.call (.helper .between) [x, y, z]) b
        (parens (around (around f (.keyword "BETWEEN") g) (.connective .and) k)) b'
  | like {x y b f middle g b'} (predicates : c.clause.acceptsPredicates = true)
      (target : Translates c x b f middle) (pattern : Translates c y middle g b') :
      Translates c (.call (.helper .like) [x, y]) b (parens (around f (.keyword "LIKE") g)) b'
  | emptySet {h x set v log b} (predicates : c.clause.acceptsPredicates = true)
      (membership : h = .isIn ∨ h = .notIn)
      (value : set.fold.outcome b.log = (.ok (some v), log)) (empty : membersOf v = []) :
      Translates c (.call (.helper h) [x, set]) b [.truth (h == .notIn)] { b with log := log }
  | memberOf {h x set v log b f b'} (predicates : c.clause.acceptsPredicates = true)
      (membership : h = .isIn ∨ h = .notIn)
      (value : set.fold.outcome b.log = (.ok (some v), log)) (nonempty : membersOf v ≠ [])
      (target : Translates c x { b with log := log } f b') :
      Translates c (.call (.helper h) [x, set]) b
        (parens (around f (.keyword h.symbol) [] ++
          parens (joined .comma (b'.writtenAll (membersOf v)))))
        (b'.boundAll (membersOf v))
  | countRows {b} (aggregates : c.clause.acceptsAggregates = true) :
      Translates c (.call (.aggregate .count) []) b
        (.keyword Aggregate.count.symbol :: parens [.star]) b
  | aggregate {a x b f b'} (aggregates : c.clause.acceptsAggregates = true)
      (argument : Translates c x b f b') :
      Translates c (.call (.aggregate a) [x]) b (aggregateOf a f) b'
  | projection {target label as columns b b'} {bs : List (String × Expr)}
      (select : c.clause = .select) (nonempty : bs ≠ [])
      (registered : b.aliases.aliasFor target = .ok (label, as))
      (bindings : Projects target label [] bs { b with aliases := as } columns b') :
      Translates c (.construct target bs) b (joined .comma columns) b'

namespace Translation

theorem run_bindings_ok {target : Entity} {label : String} {seen : List String}
    {bs : List (String × Expr)} {b b' : Binder} {columns : List Fragment}
    (h : (Context.bindings target label seen bs).run b = (.ok columns, b')) :
    Projects target label seen bs b columns b' := by
  induction bs generalizing seen b columns with
  | nil =>
      obtain ⟨rfl, rfl⟩ := run_pure_ok.1 h
      exact .nil
  | cons binding rest ih =>
      obtain ⟨name, x⟩ := binding
      rw [Context.bindings, run_bind_ok] at h
      obtain ⟨f, middle, hread, hchecks⟩ := h
      obtain ⟨hfield, rfl⟩ := run_fieldOf_ok.1 hread
      split at hchecks
      · simp [run_refuse] at hchecks
      rename_i hfresh
      split at hchecks
      · simp [run_refuse] at hchecks
      rename_i source sourceName hsource
      obtain rfl := Expr.eq_field_of_asField? hsource
      rw [run_bind_ok] at hchecks
      obtain ⟨g, middle, hread, hchecks⟩ := hchecks
      obtain ⟨hsourceField, rfl⟩ := run_fieldOf_ok.1 hread
      rw [run_bind_ok] at hchecks
      obtain ⟨sourceLabel, middle, hread, hchecks⟩ := hchecks
      obtain ⟨as, halias, rfl⟩ := run_aliasFor_ok.1 hread
      rw [run_bind_ok] at hchecks
      obtain ⟨others, middle, hrest, hchecks⟩ := hchecks
      obtain ⟨rfl, rfl⟩ := run_pure_ok.1 hchecks
      exact .cons hfield (by simpa using hfresh) hsourceField halias (ih hrest)

theorem run_projection_ok {c : Context} {target : Entity} {bs : List (String × Expr)}
    {b b' : Binder} {f : Fragment} (h : (c.projection target bs).run b = (.ok f, b')) :
    Translates c (.construct target bs) b f b' := by
  unfold Context.projection at h
  split at h
  · simp [run_refuse] at h
  rename_i hselect
  split at h
  · simp [run_refuse] at h
  rename_i hnonempty
  rw [run_bind_ok] at h
  obtain ⟨label, middle, hread, hrest⟩ := h
  obtain ⟨as, halias, rfl⟩ := run_aliasFor_ok.1 hread
  rw [run_bind_ok] at hrest
  obtain ⟨columns, middle, hcolumns, hrest⟩ := hrest
  obtain ⟨rfl, rfl⟩ := run_pure_ok.1 hrest
  exact .projection (by simpa using hselect) (by simpa using hnonempty) halias
    (run_bindings_ok hcolumns)

theorem run_column_ok {c : Context} {e : Entity} {name : String} {b b' : Binder} {f : Fragment}
    (h : (c.column e name).run b = (.ok f, b')) : Translates c (.field e name) b f b' := by
  unfold Context.column at h
  rw [run_bind_ok] at h
  obtain ⟨field, middle, hread, hrest⟩ := h
  obtain ⟨hfield, rfl⟩ := run_fieldOf_ok.1 hread
  split at hrest
  · rename_i hgroups
    rw [run_bind, run_get] at hrest
    dsimp only at hrest
    split at hrest
    · rename_i label halias
      obtain ⟨rfl, rfl⟩ := run_pure_ok.1 hrest
      exact .groupedColumn hfield hgroups halias
    · simp [run_refuse] at hrest
  · rename_i hrows
    rw [run_bind_ok] at hrest
    obtain ⟨label, middle, hread, hrest⟩ := hrest
    obtain ⟨as, halias, rfl⟩ := run_aliasFor_ok.1 hread
    obtain ⟨rfl, rfl⟩ := run_pure_ok.1 hrest
    exact .column hfield (by simpa using hrows) halias

/-- A form that is bound whole is bound when it is constant. -/
theorem run_whole_ok {c : Context} {x : Expr} {refused : Unsupported} {b b' : Binder} {f : Fragment}
    (form : bindsWhole x)
    (h : (do match ← evaluate x.fold with
             | some v => bindScalar v
             | none => refuse refused).run b = (.ok f, b')) : Translates c x b f b' := by
  rw [run_bind_ok] at h
  obtain ⟨found, middle, hread, hrest⟩ := h
  obtain ⟨log, hvalue, rfl⟩ := run_evaluate_ok.1 hread
  cases found with
  | none => simp [run_refuse] at hrest
  | some v =>
      obtain ⟨hscalar, rfl, rfl⟩ := run_bindScalar_ok.1 hrest
      exact .constant form hvalue hscalar

/-- What is known of the parts of an expression while its rule is found. -/
def HasRule (c : Context) (x : Expr) : Prop :=
  ∀ ⦃b f b'⦄, (translate c x).run b = (.ok f, b') → Translates c x b f b'

variable {c : Context} {l r : Expr}

/-- Both sides of an operator are translated from left to right. -/
theorem run_sides_ok {op : BinaryOp} {b b' : Binder} {f : Fragment}
    (h : (do
      let f ← translate c l
      let g ← translate c r
      let whole := around f (.operator op) g
      return if op.isComparison then whole else parens whole).run b = (.ok f, b')) :
    ∃ g middle k, (translate c l).run b = (.ok g, middle) ∧
      (translate c r).run middle = (.ok k, b') ∧
      f = if op.isComparison then around g (.operator op) k
        else parens (around g (.operator op) k) := by
  rw [run_bind_ok] at h
  obtain ⟨g, middle, hl, hrest⟩ := h
  rw [run_bind_ok] at hrest
  obtain ⟨k, middle', hr, hrest⟩ := hrest
  obtain ⟨rfl, rfl⟩ := run_pure_ok.1 hrest
  exact ⟨g, middle, k, hl, hr, rfl⟩

theorem run_test_ok {x : Expr} {test : String} {b b' : Binder} {f : Fragment}
    (h : (do
      let f ← translate c x
      return f ++ [.space, .keyword test] : Translation Fragment).run b = (.ok f, b')) :
    ∃ g, (translate c x).run b = (.ok g, b') ∧ f = g ++ [.space, .keyword test] := by
  rw [run_bind_ok] at h
  obtain ⟨g, middle, hx, hrest⟩ := h
  obtain ⟨rfl, rfl⟩ := run_pure_ok.1 hrest
  exact ⟨g, hx, rfl⟩

/-- A comparison is a test for NULL when one side is the constant NULL, and compares otherwise. -/
theorem hasRule_comparison {op : BinaryOp} (hop : op.isComparison = true) (left : HasRule c l)
    (right : HasRule c r) : HasRule c (.comparison op l r) := by
  intro b f b' h
  rw [translate, if_pos hop, run_bind, run_pure] at h
  dsimp only at h
  rcases htest : nullTest? op with _ | test
  · simp only [htest] at h
    obtain ⟨g, middle, k, hl, hr, rfl⟩ := run_sides_ok h
    rw [if_pos hop]
    exact .comparison hop (.inl htest) (left hl) (right hr)
  rcases hright : isNullLiteral r with _ | _
  · rcases hleft : isNullLiteral l with _ | _
    · simp only [htest, hleft, hright] at h
      obtain ⟨g, middle, k, hl, hr, rfl⟩ := run_sides_ok h
      rw [if_pos hop]
      exact .comparison hop (.inr ⟨hleft, hright⟩) (left hl) (right hr)
    · simp only [htest, hleft, hright] at h
      obtain ⟨g, hr, rfl⟩ := run_test_ok h
      exact .testRight hright hleft htest (right hr)
  · simp only [htest, hright] at h
    obtain ⟨g, hl, rfl⟩ := run_test_ok h
    exact .testLeft hright htest (left hl)

theorem nullTest?_of_not_isComparison {op : BinaryOp} (h : op.isComparison = false) :
    nullTest? op = none := by
  cases op <;> first | rfl | cases h

theorem isComparison_of_nullTest {op : BinaryOp} {test : String}
    (word : nullTest? op = some test) : op.isComparison = true := by
  cases op <;> first | rfl | cases word

/-- An operation that is constant is bound as one value, another one keeps its sides. -/
theorem hasRule_arithmetic {op : BinaryOp} (hop : op.isComparison = false) (left : HasRule c l)
    (right : HasRule c r) : HasRule c (.comparison op l r) := by
  intro b f b' h
  rw [translate, if_neg (by simp [hop]), run_bind_ok] at h
  obtain ⟨found, middle, hread, hrest⟩ := h
  obtain ⟨log, hvalue, rfl⟩ := run_evaluate_ok.1 hread
  cases found with
  | some v =>
      obtain ⟨hscalar, rfl, rfl⟩ := run_bindScalar_ok.1 hrest
      exact .constant hop hvalue hscalar
  | none =>
      obtain ⟨hreads, rfl⟩ := Expr.outcome_fold_none.1 hvalue
      simp only [nullTest?_of_not_isComparison hop] at hrest
      obtain ⟨g, middle, k, hl, hr, rfl⟩ := run_sides_ok hrest
      rw [if_neg (by simp [hop])]
      exact .arithmetic hop hreads (left hl) (right hr)

theorem hasRule_logical (op : Connective) (left : HasRule c l) (right : HasRule c r) :
    HasRule c (.logical op l r) := by
  intro b f b' h
  obtain ⟨g, middle, hl, hrest⟩ := run_bind_ok.1 h
  obtain ⟨k, middle', hr, hrest⟩ := run_bind_ok.1 hrest
  obtain ⟨rfl, rfl⟩ := run_pure_ok.1 hrest
  exact .logical (left hl) (right hr)

theorem run_checkHelper_ok {h : PredicateHelper} {args : List Expr} {b b' : Binder}
    (hrun : (checkHelper c h args).run b = (.ok (), b')) :
    c.clause.acceptsPredicates = true ∧ args.length = h.arity ∧ b' = b := by
  unfold checkHelper at hrun
  split at hrun
  · simp [run_refuse] at hrun
  rename_i hclause
  split at hrun
  · simp [run_refuse] at hrun
  rename_i harity
  obtain ⟨-, rfl⟩ := run_pure_ok.1 hrun
  exact ⟨by simpa using hclause, by simpa using harity, rfl⟩

variable {x y z : Expr}

theorem hasRule_between (target : HasRule c x) (low : HasRule c y) (high : HasRule c z) :
    HasRule c (.call (.helper .between) [x, y, z]) := by
  intro b f b' h
  obtain ⟨_, middle, hcheck, hrest⟩ := run_bind_ok.1 h
  obtain ⟨hclause, -, rfl⟩ := run_checkHelper_ok hcheck
  obtain ⟨f, b₁, hx, hrest⟩ := run_bind_ok.1 hrest
  obtain ⟨g, b₂, hy, hrest⟩ := run_bind_ok.1 hrest
  obtain ⟨k, b₃, hz, hrest⟩ := run_bind_ok.1 hrest
  obtain ⟨rfl, rfl⟩ := run_pure_ok.1 hrest
  exact .between hclause (target hx) (low hy) (high hz)

theorem hasRule_like (target : HasRule c x) (pattern : HasRule c y) :
    HasRule c (.call (.helper .like) [x, y]) := by
  intro b f b' h
  obtain ⟨_, middle, hcheck, hrest⟩ := run_bind_ok.1 h
  obtain ⟨hclause, -, rfl⟩ := run_checkHelper_ok hcheck
  obtain ⟨f, b₁, hx, hrest⟩ := run_bind_ok.1 hrest
  obtain ⟨g, b₂, hy, hrest⟩ := run_bind_ok.1 hrest
  obtain ⟨rfl, rfl⟩ := run_pure_ok.1 hrest
  exact .like hclause (target hx) (pattern hy)

/-- Both membership tests are translated alike. -/
theorem translate_membership {h : PredicateHelper} (membership : h = .isIn ∨ h = .notIn) :
    translate c (.call (.helper h) [x, y]) = do
      checkHelper c h [x, y]
      let items ← Context.setItems y
      if items.isEmpty then return [.truth (h == .notIn)]
      else
        let f ← translate c x
        let gs ← Context.bindAll items
        return parens (around f (.keyword h.symbol) [] ++ parens (joined .comma gs)) := by
  rcases membership with rfl | rfl <;> rfl

/-- The set is evaluated before the target is translated, and bound after it. -/
theorem hasRule_membership {h : PredicateHelper} (membership : h = .isIn ∨ h = .notIn)
    (target : HasRule c x) : HasRule c (.call (.helper h) [x, y]) := by
  intro b f b' hrun
  rw [translate_membership membership, run_bind_ok] at hrun
  obtain ⟨_, middle, hcheck, hrest⟩ := hrun
  obtain ⟨hclause, -, rfl⟩ := run_checkHelper_ok hcheck
  rw [run_bind_ok] at hrest
  obtain ⟨items, b₁, hset, hrest⟩ := hrest
  obtain ⟨v, log, hvalue, rfl, rfl⟩ := run_setItems_ok.1 hset
  split at hrest
  · rename_i hempty
    obtain ⟨rfl, rfl⟩ := run_pure_ok.1 hrest
    exact .emptySet hclause membership hvalue (by simpa using hempty)
  · rename_i hitems
    rw [run_bind_ok] at hrest
    obtain ⟨f, b₂, hx, hrest⟩ := hrest
    rw [run_bind, run_bindAll] at hrest
    obtain ⟨rfl, rfl⟩ := run_pure_ok.1 hrest
    exact .memberOf hclause membership hvalue (by simpa using hitems) (target hx)

/-- Helpers check their number of arguments before anything else. -/
theorem length_of_run_helper {h : PredicateHelper} {args : List Expr} {b b' : Binder} {f : Fragment}
    (hrun : (translate c (.call (.helper h) args)).run b = (.ok f, b')) :
    args.length = h.arity := by
  have hfirst : ∃ next, translate c (.call (.helper h) args) = checkHelper c h args >>= next := by
    cases h <;> rcases args with _ | ⟨x, _ | ⟨y, _ | ⟨z, _ | _⟩⟩⟩ <;> exact ⟨_, rfl⟩
  obtain ⟨next, hnext⟩ := hfirst
  rw [hnext, run_bind_ok] at hrun
  obtain ⟨_, middle, hcheck, -⟩ := hrun
  exact (run_checkHelper_ok hcheck).2.1

theorem hasRule_helper {h : PredicateHelper} {args : List Expr}
    (parts : ∀ x ∈ args, HasRule c x) : HasRule c (.call (.helper h) args) := by
  intro b f b' hrun
  have hlength := length_of_run_helper hrun
  cases h with
  | between =>
      obtain ⟨x, y, z, rfl⟩ := List.length_eq_three.1 hlength
      exact hasRule_between (parts x (by simp)) (parts y (by simp)) (parts z (by simp)) hrun
  | isIn =>
      obtain ⟨x, y, rfl⟩ := List.length_eq_two.1 hlength
      exact hasRule_membership (.inl rfl) (parts x (by simp)) hrun
  | notIn =>
      obtain ⟨x, y, rfl⟩ := List.length_eq_two.1 hlength
      exact hasRule_membership (.inr rfl) (parts x (by simp)) hrun
  | like =>
      obtain ⟨x, y, rfl⟩ := List.length_eq_two.1 hlength
      exact hasRule_like (parts x (by simp)) (parts y (by simp)) hrun

theorem hasRule_aggregate {a : Aggregate} {args : List Expr} (parts : ∀ x ∈ args, HasRule c x) :
    HasRule c (.call (.aggregate a) args) := by
  intro b f b' h
  match args with
  | [x] =>
      rw [translate] at h
      split at h
      · simp [run_refuse] at h
      rename_i hclause
      rw [run_bind_ok] at h
      obtain ⟨f, middle, hx, hrest⟩ := h
      obtain ⟨rfl, rfl⟩ := run_pure_ok.1 hrest
      exact .aggregate (by simpa using hclause) (parts x (by simp) hx)
  | [] =>
      cases a with
      | count =>
          rw [translate] at h
          split at h
          · simp [run_refuse] at h
          rename_i hclause
          obtain ⟨rfl, rfl⟩ := run_pure_ok.1 h
          exact .countRows (by simpa using hclause)
      | _ =>
          rw [translate.eq_14 c _ _ (by simp) (by simp)] at h
          split at h <;> simp [run_refuse] at h
  | x :: y :: rest =>
      rw [translate.eq_14 c a _ (by simp) (by simp)] at h
      split at h <;> simp [run_refuse] at h

theorem hasRule_literal (v : Value) : HasRule c (.literal v) := by
  intro b f b' h
  cases v with
  | list items => simp [translate, run_refuse] at h
  | _ =>
      rw [translate.eq_2 c _ (by simp), run_bind_value] at h
      cases h
      exact .literal (by simp)

theorem hasRule_member (t : Expr) (name : String) : HasRule c (.member t name) := by
  intro b f b' h
  cases t with
  | row e => exact run_column_ok h
  | _ => exact run_whole_ok trivial h

end Translation

open Translation

mutual

/-- Every success of a translation follows the rules. -/
theorem translates_of_run (c : Context) : ∀ x : Expr, HasRule c x
  | .literal v => hasRule_literal v
  | .row e => by
      intro b f b' h
      simp [translate, run_refuse] at h
  | .member t name => hasRule_member t name
  | .comparison op l r => by
      have left := translates_of_run c l
      have right := translates_of_run c r
      cases hop : op.isComparison with
      | true => exact hasRule_comparison hop left right
      | false => exact hasRule_arithmetic hop left right
  | .logical op l r => hasRule_logical op (translates_of_run c l) (translates_of_run c r)
  | .call (.helper h) args => hasRule_helper (translates_of_run_args c args)
  | .call (.aggregate a) args => hasRule_aggregate (translates_of_run_args c args)
  | .call (.accessor a) args => fun _ _ _ h => run_whole_ok trivial h
  | .call (.named name) args => by
      intro b f b' h
      simp [translate, run_refuse] at h
  | .construct target bs => fun _ _ _ h => run_projection_ok h

theorem translates_of_run_args (c : Context) : ∀ xs : List Expr, ∀ x ∈ xs, HasRule c x
  | [] => by simp
  | x :: xs => List.forall_mem_cons.2 ⟨translates_of_run c x, translates_of_run_args c xs⟩

end

end TypedQuery.Sql
