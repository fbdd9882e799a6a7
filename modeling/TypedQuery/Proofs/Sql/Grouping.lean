import TypedQuery.Demo
import TypedQuery.Proofs.Sql.Condition
import TypedQuery.Proofs.Sql.Growth

/-!
# Grouping in translated conditions

A condition on fields and constants has an operator tree: constants that are folded are leaves,
and comparisons with NULL are tests. Its translation is read as that tree exactly when the tree
is delimited. Arithmetic and the operands of connectives are written in parentheses, the operands
of comparisons and of tests are not.
-/

namespace TypedQuery

open TypedQuery.Sql TypedQuery.Sql.Fragment

namespace Expr

/-- Fields and constants under comparisons, arithmetic and connectives. -/
def isCondition : Expr → Bool
  | .literal _ | .member (.row _) _ => true
  | .comparison _ l r | .logical _ l r => l.isCondition && r.isCondition
  | _ => false

/-- A condition without constants. -/
def isFieldCondition : Expr → Bool
  | .member (.row _) _ => true
  | .comparison _ l r | .logical _ l r => l.isFieldCondition && r.isFieldCondition
  | _ => false

/-- Is the expression an operator with two operands? -/
def isOperator : Expr → Bool
  | .comparison .. | .logical .. => true
  | _ => false

/-- The operator tree of a condition. -/
def outline : Expr → Sql.Tree Expr
  | .comparison op l r =>
    if op.isComparison then
      match nullTest? op, isNullLiteral r, isNullLiteral l with
      | some _, true, _ => .test (op == .ne) l.outline
      | some _, false, true => .test (op == .ne) r.outline
      | _, _, _ => .node (.binary op) l.outline r.outline
    else if l.foldable && r.foldable then .leaf (.comparison op l r)
    else .node (.binary op) l.outline r.outline
  | .logical op l r => .node (.connective op) l.outline r.outline
  | x => .leaf x

theorem outline_of_not_isOperator {x : Expr} (h : x.isOperator = false) : x.outline = .leaf x := by
  cases x <;> first | rfl | cases h

/-- A condition without constants is neither NULL nor folded. -/
theorem not_constant_of_isFieldCondition :
    ∀ {x : Expr}, x.isFieldCondition = true → isNullLiteral x = false ∧ x.foldable = false
  | .member (.row _) _, _ => ⟨rfl, rfl⟩
  | .comparison _ l r, h | .logical _ l r, h => by
      obtain ⟨hl, -⟩ := Bool.and_eq_true_iff.1 h
      exact ⟨rfl, by rw [foldable, (not_constant_of_isFieldCondition hl).2, Bool.false_and]⟩

theorem outline_comparison {op : BinaryOp} {l r : Expr} (hl : l.isFieldCondition = true)
    (hr : r.isFieldCondition = true) :
    (comparison op l r).outline = .node (.binary op) l.outline r.outline := by
  obtain ⟨nullLeft, constantLeft⟩ := not_constant_of_isFieldCondition hl
  obtain ⟨nullRight, -⟩ := not_constant_of_isFieldCondition hr
  rw [outline, nullLeft, nullRight, constantLeft]
  cases op <;> rfl

/-- The operator tree of a condition without constants is the condition. -/
theorem eq_of_outline_eq : ∀ {x y : Expr}, x.isFieldCondition = true → y.isFieldCondition = true →
    x.outline = y.outline → x = y
  | .member (.row _) _, .member (.row _) _, _, _, h => Sql.Tree.leaf.inj h
  | .comparison _ l r, .comparison _ l' r', hx, hy, h => by
      obtain ⟨hl, hr⟩ := Bool.and_eq_true_iff.1 hx
      obtain ⟨hl', hr'⟩ := Bool.and_eq_true_iff.1 hy
      rw [outline_comparison hl hr, outline_comparison hl' hr'] at h
      obtain ⟨hop, hleft, hright⟩ := Sql.Tree.node.inj h
      rw [Operator.binary.inj hop, eq_of_outline_eq hl hl' hleft, eq_of_outline_eq hr hr' hright]
  | .logical _ l r, .logical _ l' r', hx, hy, h => by
      obtain ⟨hl, hr⟩ := Bool.and_eq_true_iff.1 hx
      obtain ⟨hl', hr'⟩ := Bool.and_eq_true_iff.1 hy
      obtain ⟨hop, hleft, hright⟩ := Sql.Tree.node.inj h
      rw [Operator.connective.inj hop, eq_of_outline_eq hl hl' hleft,
        eq_of_outline_eq hr hr' hright]
  | .member (.row _) _, .comparison _ _ _, _, hy, h => by
      obtain ⟨hl, hr⟩ := Bool.and_eq_true_iff.1 hy
      rw [outline_comparison hl hr] at h
      cases h
  | .comparison _ _ _, .member (.row _) _, hx, _, h => by
      obtain ⟨hl, hr⟩ := Bool.and_eq_true_iff.1 hx
      rw [outline_comparison hl hr] at h
      cases h
  | .logical _ _ _, .comparison _ _ _, _, hy, h => by
      obtain ⟨hl, hr⟩ := Bool.and_eq_true_iff.1 hy
      rw [outline_comparison hl hr] at h
      cases h
  | .comparison _ _ _, .logical _ _ _, hx, _, h => by
      obtain ⟨hl, hr⟩ := Bool.and_eq_true_iff.1 hx
      rw [outline_comparison hl hr] at h
      cases h
  | .member (.row _) _, .logical _ _ _, _, _, h => by cases h
  | .logical _ _ _, .member (.row _) _, _, _, h => by cases h

end Expr

namespace Sql

namespace Binder

/-- What a leaf of an operator tree is written as: a field behind the alias of its entity, a
constant as the placeholder of its value or as NULL. -/
inductive Writes (b : Binder) : Expr → String → Prop
  | field {e name f label} (field : e.field? name = some f)
      (registered : b.aliases.aliasFor e = .ok (label, b.aliases)) :
      Writes b (.field e name) (label ++ "." ++ f.column)
  | constant {x v log log' i} (value : x.fold.outcome log = (.ok (some v), log'))
      (notNull : v.isNull = false) (bound : b.params.values[i]? = some v) :
      Writes b x (Number.numbered b.params.stem i)
  | null {x v log log'} (value : x.fold.outcome log = (.ok (some v), log'))
      (null : v.isNull = true) : Writes b x "NULL"

variable {b b' : Binder}

theorem Writes.mono {x : Expr} {s : String} (h : b.Writes x s) (before : b.Before b') :
    b'.Writes x s := by
  cases h with
  | field field registered => exact .field field (before.aliases.aliasFor registered)
  | @constant _ v log log' i value notNull bound =>
      rw [← before.stem]
      refine .constant value notNull ?_
      obtain ⟨vs, hvalues⟩ := before.params
      rw [← hvalues, List.getElem?_append_left (List.getElem?_eq_some_iff.1 bound).1]
      exact bound
  | null value null => exact .null value null

/-- A constant is written as one leaf. -/
theorem exists_writes {x : Expr} {v : Value} {log log' : CallLog}
    (value : x.fold.outcome log = (.ok (some v), log'))
    (whole : isUnbroken b.params.stem = true) :
    ∃ s, (b.bound v).Writes x s ∧ Spells (b.written v) (.leaf s) := by
  cases hnull : v.isNull with
  | true =>
      have hbound : b.bound v = b := if_pos hnull
      have hwritten : b.written v = [.keyword "NULL"] := if_pos hnull
      rw [hbound, hwritten]
      exact ⟨"NULL", .null value hnull, .leaf ⟨by decide, by decide, by decide, by decide⟩⟩
  | false =>
      have hbound : b.bound v = { b with params := b.params.push v } := if_neg (by simp [hnull])
      have hwritten : b.written v = [.placeholder b.params.stem b.params.size] :=
        if_neg (by simp [hnull])
      rw [hbound, hwritten]
      obtain ⟨d, ds, hdigits⟩ := List.exists_cons_of_ne_nil (Number.digits_ne_nil b.params.size)
      have hd : d ∈ Number.digits b.params.size := by simp [hdigits]
      have hdigit := Number.isDigit_of_mem_digits hd
      refine ⟨Number.numbered b.params.stem b.params.size, .constant value hnull ?_,
        .leaf (.of_isMark (c := d) ?_ ?_ ?_)⟩
      · simp [Params.push, Params.size]
      · apply isUnbroken_iff.2
        intro c hc
        rw [Token.text, Number.toList_numbered] at hc
        rcases List.mem_append.1 hc with hstem | hdigits
        · exact isUnbroken_iff.1 whole c hstem
        · exact isBreak_of_isPart
            (Identifier.isPart_of_isDigit (Number.isDigit_of_mem_digits hdigits))
      · rw [Token.text, Number.toList_numbered]
        exact List.mem_append_right _ hd
      · simp [isMark, hdigit]

/-- A field is written as one leaf. -/
theorem spells_column {label column : String} (hlabel : isUnbroken label = true)
    (hcolumn : isUnbroken column = true) :
    Spells [.column label column] (.leaf (label ++ "." ++ column)) := by
  have hdot : isUnbroken "." = true := by decide
  refine .leaf (t := .column label column) (.of_isMark (c := '.') ?_ ?_ rfl)
  · exact isUnbroken_append (isUnbroken_append hlabel hdot) hcolumn
  · simp [Token.text]

end Binder

/-- A condition whose names are plain words, and placeholders that are words. -/
structure Writable (x : Expr) (b : Binder) : Prop where
  condition : x.isCondition = true
  whole : isUnbroken b.params.stem = true
  aliases : b.aliases.Plain
  entities : ∀ E ∈ x.entities, E.Plain

section

variable {c : Context} {x l r : Expr} {b middle b' : Binder} {f g : Fragment}

theorem Writable.sides (h : (l.isCondition && r.isCondition) = true)
    (whole : isUnbroken b.params.stem = true) (aliases : b.aliases.Plain)
    (entities : ∀ E ∈ l.entities ++ r.entities, E.Plain) : Writable l b ∧ Writable r b := by
  obtain ⟨hl, hr⟩ := Bool.and_eq_true_iff.1 h
  obtain ⟨entitiesLeft, entitiesRight⟩ := List.forall_mem_append.1 entities
  exact ⟨⟨hl, whole, aliases, entitiesLeft⟩, ⟨hr, whole, aliases, entitiesRight⟩⟩

theorem Writable.comparison {op : BinaryOp} (h : Writable (.comparison op l r) b) :
    Writable l b ∧ Writable r b :=
  Writable.sides h.condition h.whole h.aliases
    (by simpa only [Expr.entities_comparison] using h.entities)

theorem Writable.logical {op : Connective} (h : Writable (.logical op l r) b) :
    Writable l b ∧ Writable r b :=
  Writable.sides h.condition h.whole h.aliases
    (by simpa only [Expr.entities_logical] using h.entities)

theorem Writable.after (h : Writable x b) (before : b.Before b') : Writable x b' := by
  refine ⟨h.condition, ?_, before.aliases.plain h.aliases, h.entities⟩
  rw [before.stem]
  exact h.whole

/-- The text of the fragment spells the operator tree with its leaves as they are written. -/
def SpellsOutline (W : Expr → String → Prop) (x : Expr) (f : Fragment) : Prop :=
  ∃ t, Tree.Rel W x.outline t ∧ Spells f t.layout

/-- Expressions whose leaves are written as single words, and stay written so. -/
structure WrittenInWords (c : Context) (Ok : Expr → Binder → Prop)
    (W : Binder → Expr → String → Prop) : Prop where
  comparison : ∀ {op l r b}, Ok (.comparison op l r) b → Ok l b ∧ Ok r b
  logical : ∀ {op l r b}, Ok (.logical op l r) b → Ok l b ∧ Ok r b
  after : ∀ {x b b'}, Ok x b → b.Before b' → Ok x b'
  mono : ∀ {x s b b'}, W b x s → b.Before b' → W b' x s
  constant : ∀ {x v b log}, Ok x b → x.fold.outcome b.log = (.ok (some v), log) →
    ∃ s, W (Binder.bound { b with log := log } v) x s ∧
      Spells (Binder.written { b with log := log } v) (.leaf s)
  leaf : ∀ {x b f b'}, Ok x b → Translates c x b f b' → x.isOperator = false →
    ∃ s, W b' x s ∧ Spells f (.leaf s)

namespace WrittenInWords

variable {Ok : Expr → Binder → Prop} {W : Binder → Expr → String → Prop}

/-- Both sides of an operator spell their trees, with the leaves as they are written in the end. -/
theorem sides (words : WrittenInWords c Ok W) (hl : SpellsOutline (W middle) l f)
    (hr : SpellsOutline (W b') r g) (right : Translates c r middle g b') :
    ∃ t u, Tree.Rel (W b') l.outline t ∧ Tree.Rel (W b') r.outline u ∧
      Spells f t.layout ∧ Spells g u.layout := by
  obtain ⟨t, hrelLeft, hspellsLeft⟩ := hl
  obtain ⟨u, hrelRight, hspellsRight⟩ := hr
  exact ⟨t, u, hrelLeft.mono fun _ _ h => words.mono h right.before, hrelRight, hspellsLeft,
    hspellsRight⟩

theorem ofLeaf (words : WrittenInWords c Ok W) (h : Translates c x b f b') (ok : Ok x b)
    (operand : x.isOperator = false) : SpellsOutline (W b') x f := by
  obtain ⟨s, hs, hspells⟩ := words.leaf ok h operand
  refine ⟨.leaf s, ?_, hspells⟩
  rw [Expr.outline_of_not_isOperator operand]
  exact .leaf hs

/-- The text of a translated expression spells its operator tree. -/
theorem spells (words : WrittenInWords c Ok W) : (x : Expr) → ∀ {b f b'}, Translates c x b f b' →
    Ok x b → SpellsOutline (W b') x f
  | .comparison op l r, _, _, _, h, ok => by
      obtain ⟨okLeft, okRight⟩ := words.comparison ok
      cases h with
      | constant form value scalar =>
          have hop : op.isComparison = false := form
          have hfold := (Expr.outcome_fold_some.1 value).1
          rw [Expr.foldable] at hfold
          obtain ⟨s, hs, hspells⟩ := words.constant ok value
          refine ⟨.leaf s, ?_, hspells⟩
          rw [Expr.outline, if_neg (by simp [hop]), if_pos hfold]
          exact .leaf hs
      | testLeft null hword operand =>
          have hop := Translation.isComparison_of_nullTest hword
          obtain ⟨t, hrel, hspells⟩ := spells words l operand okLeft
          refine ⟨.test (op == .ne) t, ?_, hspells.test hword⟩
          simp only [Expr.outline, hop, hword, null, if_true]
          exact .test _ hrel
      | testRight other null hword operand =>
          have hop := Translation.isComparison_of_nullTest hword
          obtain ⟨t, hrel, hspells⟩ := spells words r operand okRight
          refine ⟨.test (op == .ne) t, ?_, hspells.test hword⟩
          simp only [Expr.outline, hop, hword, null, other, if_true]
          exact .test _ hrel
      | comparison order noTest left right =>
          obtain ⟨t, u, hrelLeft, hrelRight, hspellsLeft, hspellsRight⟩ :=
            words.sides (spells words l left okLeft)
              (spells words r right (words.after okRight left.before)) right
          refine ⟨.node (.binary op) t u, ?_, ?_⟩
          · have houtline :
                (Expr.comparison op l r).outline = .node (.binary op) l.outline r.outline := by
              rw [Expr.outline, if_pos order]
              rcases noTest with htest | ⟨nullLeft, nullRight⟩
              · rw [htest]
              · rw [nullLeft, nullRight]
                cases nullTest? op <;> rfl
            rw [houtline]
            exact .node _ hrelLeft hrelRight
          · rw [Tree.layout, if_pos order]
            exact .around_operator op hspellsLeft hspellsRight
      | arithmetic noOrder reads left right =>
          obtain ⟨t, u, hrelLeft, hrelRight, hspellsLeft, hspellsRight⟩ :=
            words.sides (spells words l left okLeft)
              (spells words r right (words.after okRight left.before)) right
          refine ⟨.node (.binary op) t u, ?_, ?_⟩
          · rw [Expr.foldable] at reads
            rw [Expr.outline, if_neg (by simp [noOrder]), if_neg (by simp [reads])]
            exact .node _ hrelLeft hrelRight
          · rw [Tree.layout, if_neg (by simp [noOrder])]
            exact .parens (.around_operator op hspellsLeft hspellsRight)
  | .logical op l r, _, _, _, h, ok => by
      obtain ⟨okLeft, okRight⟩ := words.logical ok
      cases h with
      | constant form value scalar => cases form
      | logical left right =>
          obtain ⟨t, u, hrelLeft, hrelRight, hspellsLeft, hspellsRight⟩ :=
            words.sides (spells words l left okLeft)
              (spells words r right (words.after okRight left.before)) right
          exact ⟨.node (.connective op) t u, .node _ hrelLeft hrelRight,
            .around_connective op hspellsLeft.parens hspellsRight.parens⟩
  | .member _ _, _, _, _, h, ok | .literal _, _, _, _, h, ok | .call _ _, _, _, _, h, ok
  | .construct _ _, _, _, _, h, ok | .row _, _, _, _, h, ok => words.ofLeaf h ok rfl

end WrittenInWords

/-- Fields behind the alias of their entity and constants are words. -/
theorem writtenInWords (clause : c.clause = .where) :
    WrittenInWords c Writable Binder.Writes where
  comparison := Writable.comparison
  logical := Writable.logical
  after := Writable.after
  mono := Binder.Writes.mono
  constant writable value := Binder.exists_writes value writable.whole
  leaf := by
    intro x b f b' writable h operand
    cases h with
    | @literal v b scalar =>
        have value : (Expr.literal v).fold.outcome b.log = (.ok (some v), b.log) := rfl
        exact Binder.exists_writes value writable.whole
    | constant form value scalar => exact Binder.exists_writes value writable.whole
    | @column e name field label as b found rows registered =>
        obtain ⟨hlabel, -⟩ := writable.aliases.aliasFor registered
        have hcolumn := (writable.entities e (by simp)).columns _ (Entity.mem_of_field? found)
        exact ⟨_, .field found (Aliases.aliasFor_again registered),
          Binder.spells_column (isUnbroken_of_isPlain hlabel) (isUnbroken_of_isPlain hcolumn)⟩
    | groupedColumn field groups registered =>
        simp [Context.readsGroupedColumns, clause, Clause.readsGroupedColumns] at groups
    | testLeft | testRight | comparison | arithmetic | logical => cases operand
    | between | like | emptySet | memberOf | countRows | aggregate | projection =>
        cases writable.condition

/-- The text of a translated condition spells its operator tree. -/
theorem Translates.spells (h : Translates c x b f b') (clause : c.clause = .where)
    (writable : Writable x b) : SpellsOutline b'.Writes x f :=
  (writtenInWords clause).spells x h writable

end

/-- A condition on fields, constants, comparisons, arithmetic and connectives is read back from
its text as its operator tree exactly when the tree is delimited. Two delimited conditions without
constants have different texts, provided that different fields are written differently. -/
theorem grouping_kept_iff (c : Context) (x : Expr) (b b' : Binder) (f : Fragment)
    (run : (translate c x).run b = (.ok f, b')) (clause : c.clause = .where)
    (writable : Writable x b) :
    ((∃ t, readCondition f.text = some t ∧ Tree.Rel b'.Writes x.outline t) ↔ x.outline.Delimited) ∧
    ∀ (y : Expr) (b'' : Binder) (g : Fragment), (translate c y).run b = (.ok g, b'') →
      Writable y b → x.isFieldCondition = true → y.isFieldCondition = true →
      x.outline.Delimited → y.outline.Delimited → f.text = g.text →
      (∀ u ∈ x.outline.leaves, ∀ v ∈ y.outline.leaves, ∀ s,
        b'.Writes u s → b''.Writes v s → u = v) →
      x = y := by
  obtain ⟨t, hrel, hspells⟩ := (translates_of_run c x run).spells clause writable
  have hdelimited : t.Delimited ↔ x.outline.Delimited := by
    rw [← Tree.delimited_form, ← hrel.form_eq, Tree.delimited_form]
  refine ⟨?_, ?_⟩
  · rw [← hdelimited]
    constructor
    · rintro ⟨u, hread, hu⟩
      exact hspells.readCondition_iff.1 ⟨u, hread, hu.form_eq.symm.trans hrel.form_eq⟩
    · exact fun delimited => ⟨t, hspells.readCondition_eq delimited, hrel⟩
  · intro y b'' g runY writableY fieldsX fieldsY delimitedX delimitedY text apart
    obtain ⟨u, hrelY, hspellsY⟩ := (translates_of_run c y runY).spells clause writableY
    have hdelimitedY : u.Delimited := by
      rw [← Tree.delimited_form, ← hrelY.form_eq, Tree.delimited_form]
      exact delimitedY
    have hread := hspells.readCondition_eq (hdelimited.2 delimitedX)
    rw [text, hspellsY.readCondition_eq hdelimitedY] at hread
    obtain rfl := Option.some.inj hread
    exact Expr.eq_of_outline_eq fieldsX fieldsY (hrel.eq_of_apart hrelY apart)

/-- An order by number seven or with a total, whose total is high with the customer's number. -/
def delimitedCondition : Expr :=
  .logical .and
    (.logical .or (.comparison .eq (.field Demo.order "id") (.literal (.int 7)))
      (.comparison .ne (.field Demo.order "total") (.literal .null)))
    (.comparison .gt
      (.comparison .add (.field Demo.order "total") (.field Demo.order "customer_id"))
      (.comparison .mul (.literal (.int 2)) (.literal (.int 3))))

/-- A query of orders to which nothing is bound. -/
def orders : Binder := ⟨Aliases.rooted "Extend" Demo.order, .empty "@p", []⟩

theorem writable_orders {x : Expr} (condition : x.isCondition = true)
    (entities : ∀ E ∈ x.entities, E = Demo.order) : Writable x orders := by
  refine ⟨condition, by decide, ⟨by decide, by decide⟩, ?_⟩
  intro E hE
  obtain rfl := entities E hE
  exact ⟨by decide, by decide⟩

theorem delimitedCondition_kept :
    ∃ f b', (translate ⟨{}, false, .where⟩ delimitedCondition).run orders = (.ok f, b') ∧
      Writable delimitedCondition orders ∧ delimitedCondition.outline.Delimited ∧
      f.text = "((Extend0.id = @p0) OR (Extend0.total IS NOT NULL)) AND " ++
        "((Extend0.total + Extend0.customer_id) > @p1)" ∧
      ∃ t, readCondition f.text = some t ∧ Tree.Rel b'.Writes delimitedCondition.outline t := by
  have writable : Writable delimitedCondition orders := by
    apply writable_orders rfl
    intro E hE
    simpa [delimitedCondition] using hE
  have run : (translate ⟨{}, false, .where⟩ delimitedCondition).run orders = (.ok _, _) := rfl
  have delimited : delimitedCondition.outline.Delimited := by decide +kernel
  have kept := (grouping_kept_iff _ delimitedCondition orders _ _ run rfl writable).1.2 delimited
  exact ⟨_, _, run, writable, delimited, by decide +kernel, kept⟩

/-- Is the comparison of two columns that of a third one? -/
def leftChain : Expr :=
  .comparison .eq (.comparison .eq (.field Demo.order "id") (.field Demo.order "customer_id"))
    (.field Demo.order "total")

def rightChain : Expr :=
  .comparison .eq (.field Demo.order "id")
    (.comparison .eq (.field Demo.order "customer_id") (.field Demo.order "total"))

/-- Two conditions without constants have one text, which has no reading. -/
theorem chains_not_kept :
    ∃ f b' g b'', (translate ⟨{}, false, .where⟩ leftChain).run orders = (.ok f, b') ∧
      (translate ⟨{}, false, .where⟩ rightChain).run orders = (.ok g, b'') ∧
      Writable leftChain orders ∧ Writable rightChain orders ∧
      leftChain.isFieldCondition = true ∧ rightChain.isFieldCondition = true ∧
      leftChain ≠ rightChain ∧
      f.text = "Extend0.id = Extend0.customer_id = Extend0.total" ∧ g.text = f.text ∧
      readCondition f.text = none := by
  have left : Writable leftChain orders := by
    apply writable_orders rfl
    intro E hE
    simpa [leftChain] using hE
  have right : Writable rightChain orders := by
    apply writable_orders rfl
    intro E hE
    simpa [rightChain] using hE
  have different : leftChain ≠ rightChain := by
    intro h
    cases (Expr.comparison.inj h).2.1
  exact ⟨_, _, _, _, rfl, rfl, left, right, rfl, rfl, different, by decide +kernel,
    by decide +kernel, by decide +kernel⟩

end Sql

end TypedQuery
