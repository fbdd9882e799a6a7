import TypedQuery.Demo
import TypedQuery.Proofs.Expr.Evaluation
import TypedQuery.Proofs.Sql.Placeholders

/-!
# Values do not reach the text

Two expressions are alike when they differ in the values of constants alone, and not in which of
them are NULL or how long their lists are. Alike expressions are translated into one fragment, and
as many values are bound for the one as for the other.

Folding is where values could come in. Members of constants are excluded, since documents differ in
their members. A constant that is folded from others is NULL for both or for none of two alike
expressions, except that connectives may give NULL for one and a known truth value for the other.
Such a value is no constant of a statement by itself, and arithmetic refuses it.
-/

namespace TypedQuery

/-- The values differ neither in being NULL nor in being lists, and lists have NULL at the same
positions. -/
inductive Value.Alike : Value → Value → Prop
  | null : Alike .null .null
  | list {vs ws} (nulls : vs.map Value.isNull = ws.map Value.isNull) : Alike (.list vs) (.list ws)
  | scalar {v w} (notNull : v.isNull = false) (notNull' : w.isNull = false)
      (scalar : ∀ items, v ≠ .list items) (scalar' : ∀ items, w ≠ .list items) : Alike v w

namespace Expr

/-- The expressions are equal but for values that are alike. -/
inductive Alike : Expr → Expr → Prop
  | literal {v w} (values : v.Alike w) : Alike (.literal v) (.literal w)
  | row {e} : Alike (.row e) (.row e)
  | member {t t' name} (target : Alike t t') : Alike (.member t name) (.member t' name)
  | comparison {op l l' r r'} (left : Alike l l') (right : Alike r r') :
      Alike (.comparison op l r) (.comparison op l' r')
  | logical {op l l' r r'} (left : Alike l l') (right : Alike r r') :
      Alike (.logical op l r) (.logical op l' r')
  | call {f args args'} (arguments : List.Forall₂ Alike args args') :
      Alike (.call f args) (.call f args')
  | construct {target bs bs'} (names : bs.map Prod.fst = bs'.map Prod.fst)
      (sources : List.Forall₂ Alike (bs.map Prod.snd) (bs'.map Prod.snd)) :
      Alike (.construct target bs) (.construct target bs')

/-- No member of a constant is read, sets are written out, and accessors always give the same. -/
structure Steady (x : Expr) : Prop where
  members : ∀ t name, .member t name ∈ x.nodes → t.foldable = false
  sets : ∀ h t set, h = .isIn ∨ h = .notIn → .call (.helper h) [t, set] ∈ x.nodes →
    ∃ v, set = .literal v
  accessors : ∀ a args, .call (.accessor a) args ∈ x.nodes → a.Pure

theorem Steady.child {x y : Expr} (h : x.Steady) (child : y ∈ x.children) : y.Steady := by
  have hsub := nodes_subset_of_mem_children child
  exact ⟨fun t name hmem => h.members t name (hsub hmem),
    fun p t set hp hmem => h.sets p t set hp (hsub hmem),
    fun a args hmem => h.accessors a args (hsub hmem)⟩

theorem Steady.sides {op : BinaryOp} {l r : Expr} (h : (comparison op l r).Steady) :
    l.Steady ∧ r.Steady :=
  ⟨h.child (by simp [children]), h.child (by simp [children])⟩

theorem Steady.target {t : Expr} {name : String} (h : (member t name).Steady) :
    t.foldable = false :=
  h.members t name (self_mem_nodes _)

theorem Steady.accessor {a : Accessor} {args : List Expr} (h : (call (.accessor a) args).Steady) :
    a.Pure :=
  h.accessors a args (self_mem_nodes _)

theorem Steady.set {h : PredicateHelper} {t set : Expr} (steady : (call (.helper h) [t, set]).Steady)
    (membership : h = .isIn ∨ h = .notIn) : ∃ v, set = .literal v :=
  steady.sets h t set membership (self_mem_nodes _)

end Expr

/-- Both values are NULL or neither is, or both are truth values. -/
def Value.Level (v w : Value) : Prop := v.isNull = w.isNull ∨ v.isTruth = true ∧ w.isTruth = true

theorem Value.Level.symm {v w : Value} (h : v.Level w) : w.Level v := h.imp Eq.symm And.symm

theorem Value.Alike.isNull_eq {v w : Value} (h : v.Alike w) : v.isNull = w.isNull := by
  cases h with
  | null => rfl
  | list nulls => rfl
  | scalar notNull notNull' scalar scalar' => rw [notNull, notNull']

/-- What is not NULL stays so where the operands of arithmetic are level. -/
theorem Value.isNull_of_level {op : BinaryOp} {a a' b b' v v' : Value}
    (hop : op.isComparison = false) (ha : a.Level a') (hb : b.Level b')
    (h : a.applyBinary op b = .ok v) (h' : a'.applyBinary op b' = .ok v')
    (hv : v.isNull = false) : v'.isNull = false := by
  obtain ⟨hna, hnb⟩ := not_isTruth_of_arithmetic hop h hv
  rw [isNull_of_applyBinary h, Bool.or_eq_false_iff] at hv
  have known {w w' : Value} (level : w.Level w') (hw : w.isTruth = false)
      (notNull : w.isNull = false) : w'.isNull = false := by
    rcases level with heq | ⟨htruth, -⟩
    · rw [← heq, notNull]
    · rw [hw] at htruth
      cases htruth
  rw [isNull_of_applyBinary h', known ha hna hv.1, known hb hnb hv.2]
  rfl

/-- Arithmetic on level operands is NULL for both or for neither. -/
theorem Value.isNull_eq_of_level {op : BinaryOp} {a a' b b' v v' : Value}
    (hop : op.isComparison = false) (ha : a.Level a') (hb : b.Level b')
    (h : a.applyBinary op b = .ok v) (h' : a'.applyBinary op b' = .ok v') :
    v.isNull = v'.isNull := by
  cases hv : v.isNull with
  | false => exact (isNull_of_level hop ha hb h h' hv).symm
  | true =>
      cases hv' : v'.isNull with
      | true => rfl
      | false =>
          have := isNull_of_level hop ha.symm hb.symm h' h hv'
          rw [hv] at this
          cases this

namespace Expr

/-- A field is alike to itself alone. -/
theorem Alike.of_field {e e' : Entity} {name name' : String}
    (h : (field e name).Alike (field e' name')) : e = e' ∧ name = name' := by
  cases h with
  | member target =>
      cases target
      exact ⟨rfl, rfl⟩

theorem Alike.foldable_eq : ∀ {x y : Expr}, x.Alike y → x.foldable = y.foldable
  | .literal _, _, .literal _ => rfl
  | .row _, _, .row => rfl
  | .member _ _, _, .member target => target.foldable_eq
  | .comparison _ _ _, _, .comparison left right | .logical _ _ _, _, .logical left right => by
      simp only [foldable, left.foldable_eq, right.foldable_eq]
  | .call (.accessor _) _, _, .call arguments => by cases arguments <;> rfl
  | .call (.helper _) _, _, .call _ => rfl
  | .call (.aggregate _) _, _, .call _ => rfl
  | .call (.named _) _, _, .call _ => rfl
  | .construct _ _, _, .construct _ _ => rfl

/-- Alike constants that can be evaluated have level values. -/
theorem Alike.level : ∀ {x y : Expr}, x.Alike y → x.Steady → x.foldable = true →
    ∀ {v w : Value} {log log₁ log' log₁' : CallLog}, x.evalConstant.outcome log = (.ok v, log₁) →
      y.evalConstant.outcome log' = (.ok w, log₁') → v.Level w
  | .literal _, .literal _, .literal values, _, _ => by
      intro hv hw
      obtain ⟨rfl, -⟩ := Eval.outcome_pure_ok.1 hv
      obtain ⟨rfl, -⟩ := Eval.outcome_pure_ok.1 hw
      exact .inl values.isNull_eq
  | .member _ _, _, _, steady, constant => by
      rw [foldable, steady.target] at constant
      cases constant
  | .comparison op l r, .comparison _ l' r', .comparison left right, steady, constant => by
      intro hv hw
      obtain ⟨a, b, middle, ha, hb, hv⟩ := of_evalConstant_comparison hv
      obtain ⟨a', b', middle', ha', hb', hw⟩ := of_evalConstant_comparison hw
      cases hop : op.isComparison with
      | true =>
          exact .inr ⟨Value.isTruth_of_comparison hop hv, Value.isTruth_of_comparison hop hw⟩
      | false =>
          obtain ⟨hl, hr⟩ := Bool.and_eq_true_iff.1 constant
          have levelLeft := left.level steady.sides.1 hl ha ha'
          have levelRight := right.level steady.sides.2 hr hb hb'
          exact .inl (Value.isNull_eq_of_level hop levelLeft levelRight hv hw)
  | .logical _ _ _, .logical _ _ _, .logical _ _, _, _ => fun hv hw =>
      .inr ⟨isTruth_of_evalConstant_logical hv, isTruth_of_evalConstant_logical hw⟩
  | .call (.accessor _) _, .call _ _, .call _, steady, _ => fun hv hw =>
      .inl (congrArg Value.isNull (eq_of_evalConstant_accessor steady.accessor hv hw))
  | .call (.helper _) _, _, _, _, constant | .call (.aggregate _) _, _, _, _, constant
  | .call (.named _) _, _, _, _, constant | .row _, _, _, _, constant
  | .construct _ _, _, _, _, constant => by cases constant

end Expr

namespace Sql

open TypedQuery.Sql.Fragment

/-- What is bound whole for alike expressions is NULL for both or for neither. -/
theorem isNull_eq_of_fold {x y : Expr} (alike : x.Alike y) (steady : x.Steady)
    (form : bindsWhole x) {v w : Value} {log log₁ log' log₁' : CallLog}
    (hx : x.fold.outcome log = (.ok (some v), log₁))
    (hy : y.fold.outcome log' = (.ok (some w), log₁')) : v.isNull = w.isNull := by
  obtain ⟨constant, hv⟩ := Expr.outcome_fold_some.1 hx
  obtain ⟨-, hw⟩ := Expr.outcome_fold_some.1 hy
  rcases alike.level steady constant hv hw with heq | ⟨truth, truth'⟩
  · exact heq
  cases alike with
  | @comparison op l l' r r' left right =>
      obtain ⟨a, b, -, -, -, hv⟩ := Expr.of_evalConstant_comparison hv
      obtain ⟨a', b', -, -, -, hw⟩ := Expr.of_evalConstant_comparison hw
      rw [Value.isNull_of_arithmetic form hv truth, Value.isNull_of_arithmetic form hw truth']
  | @call f args args' arguments =>
      cases f with
      | accessor a =>
          exact congrArg Value.isNull (Expr.eq_of_evalConstant_accessor steady.accessor hv hw)
      | _ => cases form
  | member target =>
      rw [Expr.foldable, steady.target] at constant
      cases constant
  | _ => cases form

namespace Binder

/-- The states have the same aliases and as many values bound under one stem. -/
structure InStep (b b' : Binder) : Prop where
  aliases : b.aliases = b'.aliases
  stem : b.params.stem = b'.params.stem
  size : b.params.size = b'.params.size

namespace InStep

variable {b b' : Binder} {v w : Value}

theorem withLog (h : b.InStep b') (log log' : CallLog) :
    InStep { b with log := log } { b' with log := log' } :=
  ⟨h.aliases, h.stem, h.size⟩

theorem written (h : b.InStep b') (hnull : v.isNull = w.isNull) : b.written v = b'.written w := by
  rw [Binder.written, Binder.written, hnull, h.stem, h.size]

theorem bound (h : b.InStep b') (hnull : v.isNull = w.isNull) :
    (b.bound v).InStep (b'.bound w) := by
  rw [Binder.bound, Binder.bound, hnull]
  split
  · exact h
  · exact ⟨h.aliases, h.stem, by simp [h.size]⟩

theorem all {vs ws : List Value} (h : b.InStep b')
    (nulls : vs.map Value.isNull = ws.map Value.isNull) :
    b.writtenAll vs = b'.writtenAll ws ∧ (b.boundAll vs).InStep (b'.boundAll ws) := by
  induction vs generalizing ws b b' with
  | nil =>
      obtain rfl := List.map_eq_nil_iff.1 nulls.symm
      exact ⟨rfl, h⟩
  | cons v vs ih =>
      obtain ⟨w, ws, rfl, hnull, hrest⟩ := List.map_eq_cons_iff.1 nulls.symm
      obtain ⟨hwritten, hbound⟩ := ih (h.bound hnull.symm) hrest.symm
      refine ⟨?_, hbound⟩
      rw [writtenAll, writtenAll, h.written hnull.symm, hwritten]

end InStep

end Binder

/-- A projection has fields as sources, and fields are alike to themselves alone. -/
theorem Projects.inStep {target : Entity} {label : String} {seen : List String}
    {bs bs' : List (String × Expr)} {b b₁ b' b₁' : Binder} {columns columns' : List Fragment}
    (h : Projects target label seen bs b columns b₁)
    (h' : Projects target label seen bs' b' columns' b₁') (start : b.InStep b')
    (names : bs.map Prod.fst = bs'.map Prod.fst)
    (sources : List.Forall₂ Expr.Alike (bs.map Prod.snd) (bs'.map Prod.snd)) :
    columns = columns' ∧ b₁.InStep b₁' := by
  induction h generalizing bs' b' columns' b₁' with
  | nil =>
      obtain rfl := List.map_eq_nil_iff.1 names.symm
      cases h'
      exact ⟨rfl, start⟩
  | cons field fresh sourceField registered others ih =>
      cases h' with
      | nil => cases names
      | cons field' fresh' sourceField' registered' others' =>
          obtain ⟨hname, hnames⟩ := List.cons.inj names
          obtain ⟨hsource, hsources⟩ := List.forall₂_cons.1 sources
          obtain ⟨rfl, rfl⟩ := hsource.of_field
          obtain rfl : _ = _ := hname
          obtain rfl := Option.some.inj (field.symm.trans field')
          obtain rfl := Option.some.inj (sourceField.symm.trans sourceField')
          rw [start.aliases, registered'] at registered
          obtain ⟨rfl, rfl⟩ := Prod.mk.inj (Except.ok.inj registered)
          obtain ⟨rfl, hend⟩ := ih others' ⟨rfl, start.stem, start.size⟩ hnames hsources
          exact ⟨rfl, hend⟩

theorem isNullLiteral_eq_of_alike {x y : Expr} (h : x.Alike y) :
    isNullLiteral x = isNullLiteral y := by
  cases h with
  | @literal v w values =>
      have literal (v : Value) : isNullLiteral (.literal v) = v.isNull := by cases v <;> rfl
      rw [literal, literal, values.isNull_eq]
  | _ => rfl

theorem membersOf_of_alike {v w : Value} (h : v.Alike w) :
    (membersOf v).map Value.isNull = (membersOf w).map Value.isNull := by
  have single {v : Value} (hv : ∀ items, v ≠ .list items) : membersOf v = [v] := by
    unfold membersOf
    split
    · exact absurd rfl (hv _)
    · rfl
  cases h with
  | null => rfl
  | list nulls => exact nulls
  | scalar notNull notNull' scalar scalar' =>
      rw [single scalar, single scalar', List.map_singleton, List.map_singleton, notNull, notNull']

section

variable {c : Context} {x : Expr} {b b₁ : Binder} {f : Fragment}

/-- Translations of expressions that are alike give this fragment, and their states stay in step. -/
def Leads (c : Context) (x : Expr) (b : Binder) (f : Fragment) (b₁ : Binder) : Prop :=
  ∀ ⦃y b' g b₁'⦄, x.Alike y → x.Steady → b.InStep b' → Translates c y b' g b₁' →
    f = g ∧ b₁.InStep b₁'

theorem leads_literal {v : Value} : Leads c (.literal v) b (b.written v) (b.bound v) := by
  intro y b' g b₁' alike steady start h
  cases alike with
  | literal values =>
    cases h with
    | literal => exact ⟨start.written values.isNull_eq, start.bound values.isNull_eq⟩
    | constant form => cases form

theorem not_isComparison_of_nullTest {op : BinaryOp} {test : String}
    (word : nullTest? op = some test) (h : op.isComparison = false) : False := by
  rw [Translation.isComparison_of_nullTest word] at h
  cases h

/-- A constant that can be bound whole is bound whole. -/
theorem Translates.whole (h : Translates c x b f b₁) (form : bindsWhole x)
    (constant : x.foldable = true) : ∃ v log, x.fold.outcome b.log = (.ok (some v), log) ∧
      f = Binder.written { b with log := log } v ∧ b₁ = Binder.bound { b with log := log } v := by
  cases h with
  | constant form value => exact ⟨_, _, value, rfl, rfl⟩
  | arithmetic noOrder reads =>
      rw [constant] at reads
      cases reads
  | comparison order =>
      rw [bindsWhole, order] at form
      cases form
  | testLeft null word | testRight other null word => exact (not_isComparison_of_nullTest word form).elim
  | _ => cases form

theorem bindsWhole_of_alike {x y : Expr} (h : x.Alike y) (form : bindsWhole x) : bindsWhole y := by
  cases h with
  | member target => cases target <;> exact form
  | @call f args args' arguments => cases f <;> exact form
  | comparison left right => exact form
  | _ => cases form

theorem leads_constant {v : Value} {log : CallLog} (form : bindsWhole x)
    (value : x.fold.outcome b.log = (.ok (some v), log)) :
    Leads c x b (Binder.written { b with log := log } v) (Binder.bound { b with log := log } v) := by
  intro y b' g b₁' alike steady start h
  obtain ⟨constant, -⟩ := Expr.outcome_fold_some.1 value
  obtain ⟨w, log', value', rfl, rfl⟩ :=
    h.whole (bindsWhole_of_alike alike form) (alike.foldable_eq ▸ constant)
  have hnull := isNull_eq_of_fold alike steady form value value'
  have start' := start.withLog log log'
  exact ⟨start'.written hnull, start'.bound hnull⟩

theorem leads_column {e : Entity} {name label : String} {field : Field} {as : Aliases}
    (hfield : e.field? name = some field) (rows : c.readsGroupedColumns = false)
    (registered : b.aliases.aliasFor e = .ok (label, as)) :
    Leads c (.field e name) b [.column label field.column] { b with aliases := as } := by
  intro y b' g b₁' alike steady start h
  cases alike with
  | member target =>
    cases target
    cases h with
    | column field' rows' registered' =>
        obtain rfl := Option.some.inj (hfield.symm.trans field')
        rw [start.aliases, registered'] at registered
        obtain ⟨rfl, rfl⟩ := Prod.mk.inj (Except.ok.inj registered)
        exact ⟨rfl, rfl, start.stem, start.size⟩
    | groupedColumn field' groups =>
        rw [rows] at groups
        cases groups
    | constant form => cases form

theorem leads_groupedColumn {e : Entity} {name label : String} {field : Field}
    (hfield : e.field? name = some field) (groups : c.readsGroupedColumns = true)
    (registered : b.aliases.lookup? e = some label) :
    Leads c (.field e name) b [.column c.naming.cteAlias (label ++ "_" ++ field.name)] b := by
  intro y b' g b₁' alike steady start h
  cases alike with
  | member target =>
    cases target
    cases h with
    | column field' rows =>
        rw [groups] at rows
        cases rows
    | groupedColumn field' groups' registered' =>
        obtain rfl := Option.some.inj (hfield.symm.trans field')
        rw [start.aliases, registered'] at registered
        obtain rfl := Option.some.inj registered
        exact ⟨rfl, start⟩
    | constant form => cases form

variable {l r : Expr} {op : BinaryOp} {g : Fragment} {middle : Binder}

theorem leads_testLeft {test : String} (null : isNullLiteral r = true)
    (word : nullTest? op = some test) (left : Leads c l b f b₁) :
    Leads c (.comparison op l r) b (f ++ [.space, .keyword test]) b₁ := by
  intro y b' g b₁' alike steady start h
  cases alike with
  | comparison hl hr =>
    have null' := isNullLiteral_eq_of_alike hr
    cases h with
    | testLeft _ word' operand =>
        obtain rfl := Option.some.inj (word.symm.trans word')
        obtain ⟨rfl, hend⟩ := left hl (steady.child (by simp [Expr.children])) start operand
        exact ⟨rfl, hend⟩
    | testRight other => simp_all
    | comparison order noTest => simp_all
    | arithmetic noOrder | constant noOrder => exact (not_isComparison_of_nullTest word noOrder).elim

theorem leads_testRight {test : String} (other : isNullLiteral r = false)
    (null : isNullLiteral l = true) (word : nullTest? op = some test) (right : Leads c r b f b₁) :
    Leads c (.comparison op l r) b (f ++ [.space, .keyword test]) b₁ := by
  intro y b' g b₁' alike steady start h
  cases alike with
  | comparison hl hr =>
    have null' := isNullLiteral_eq_of_alike hl
    have other' := isNullLiteral_eq_of_alike hr
    cases h with
    | testRight _ _ word' operand =>
        obtain rfl := Option.some.inj (word.symm.trans word')
        obtain ⟨rfl, hend⟩ := right hr (steady.child (by simp [Expr.children])) start operand
        exact ⟨rfl, hend⟩
    | testLeft null => simp_all
    | comparison order noTest => simp_all
    | arithmetic noOrder | constant noOrder => exact (not_isComparison_of_nullTest word noOrder).elim

/-- Two parts that are translated one after the other. -/
theorem Leads.both (left : Leads c l b f middle) (right : Leads c r middle g b₁) {l' r' : Expr}
    {b' middle' b₁' : Binder} {f' g' : Fragment} (hl : l.Alike l') (hr : r.Alike r')
    (steadyLeft : l.Steady) (steadyRight : r.Steady) (start : b.InStep b')
    (first : Translates c l' b' f' middle') (second : Translates c r' middle' g' b₁') :
    f = f' ∧ g = g' ∧ b₁.InStep b₁' := by
  obtain ⟨rfl, hmiddle⟩ := left hl steadyLeft start first
  obtain ⟨rfl, hend⟩ := right hr steadyRight hmiddle second
  exact ⟨rfl, rfl, hend⟩

theorem leads_comparison (order : op.isComparison = true)
    (noTest : nullTest? op = none ∨ isNullLiteral l = false ∧ isNullLiteral r = false)
    (left : Leads c l b f middle) (right : Leads c r middle g b₁) :
    Leads c (.comparison op l r) b (around f (.operator op) g) b₁ := by
  intro y b' g b₁' alike steady start h
  cases alike with
  | comparison hl hr =>
    have hnullLeft := isNullLiteral_eq_of_alike hl
    have hnullRight := isNullLiteral_eq_of_alike hr
    cases h with
    | comparison _ _ first second =>
        obtain ⟨rfl, rfl, hend⟩ := left.both right hl hr (steady.child (by simp [Expr.children]))
          (steady.child (by simp [Expr.children])) start first second
        exact ⟨rfl, hend⟩
    | testLeft null word => simp_all
    | testRight other null word => simp_all
    | arithmetic noOrder => simp_all
    | constant form => simp_all [bindsWhole]

theorem leads_arithmetic (noOrder : op.isComparison = false)
    (reads : (Expr.comparison op l r).foldable = false) (left : Leads c l b f middle)
    (right : Leads c r middle g b₁) :
    Leads c (.comparison op l r) b (parens (around f (.operator op) g)) b₁ := by
  intro y b' g b₁' alike steady start h
  have reads' := alike.foldable_eq
  cases alike with
  | comparison hl hr =>
    cases h with
    | arithmetic _ _ first second =>
        obtain ⟨rfl, rfl, hend⟩ := left.both right hl hr (steady.child (by simp [Expr.children]))
          (steady.child (by simp [Expr.children])) start first second
        exact ⟨rfl, hend⟩
    | testLeft null word | testRight other null word =>
        exact (not_isComparison_of_nullTest word noOrder).elim
    | comparison order => simp_all
    | constant form value =>
        rw [(Expr.outcome_fold_some.1 value).1, reads] at reads'
        cases reads'

theorem leads_logical {op : Connective} (left : Leads c l b f middle)
    (right : Leads c r middle g b₁) :
    Leads c (.logical op l r) b (around (parens f) (.connective op) (parens g)) b₁ := by
  intro y b' g b₁' alike steady start h
  cases alike with
  | logical hl hr =>
    cases h with
    | logical first second =>
        obtain ⟨rfl, rfl, hend⟩ := left.both right hl hr (steady.child (by simp [Expr.children]))
          (steady.child (by simp [Expr.children])) start first second
        exact ⟨rfl, hend⟩
    | constant form => cases form

variable {y z : Expr} {k : Fragment} {b₂ : Binder}

theorem leads_between (target : Leads c x b f middle) (low : Leads c y middle g b₂)
    (high : Leads c z b₂ k b₁) :
    Leads c (.call (.helper .between) [x, y, z]) b
      (parens (around (around f (.keyword "BETWEEN") g) (.connective .and) k)) b₁ := by
  intro w b' g b₁' alike steady start h
  cases alike with
  | call arguments =>
    obtain _ | ⟨hx, _ | ⟨hy, _ | ⟨hz, _ | _⟩⟩⟩ := arguments
    cases h with
    | between _ first second third =>
        obtain ⟨rfl, rfl, hmiddle⟩ := target.both low hx hy (steady.child (by simp [Expr.children]))
          (steady.child (by simp [Expr.children])) start first second
        obtain ⟨rfl, hend⟩ := high hz (steady.child (by simp [Expr.children])) hmiddle third
        exact ⟨rfl, hend⟩
    | constant form => cases form

theorem leads_like (target : Leads c x b f middle) (pattern : Leads c y middle g b₁) :
    Leads c (.call (.helper .like) [x, y]) b (parens (around f (.keyword "LIKE") g)) b₁ := by
  intro w b' g b₁' alike steady start h
  cases alike with
  | call arguments =>
    obtain _ | ⟨hx, _ | ⟨hy, _ | _⟩⟩ := arguments
    cases h with
    | like _ first second =>
        obtain ⟨rfl, rfl, hend⟩ := target.both pattern hx hy (steady.child (by simp [Expr.children]))
          (steady.child (by simp [Expr.children])) start first second
        exact ⟨rfl, hend⟩
    | emptySet _ membership | memberOf _ membership => simp at membership
    | constant form => cases form

/-- Sets that are written out have members that are NULL at the same positions. -/
theorem members_of_alike {h : PredicateHelper} {set set' : Expr} {v v' : Value}
    {log log' log₁ log₁' : CallLog} (steady : (Expr.call (.helper h) [x, set]).Steady)
    (membership : h = .isIn ∨ h = .notIn) (alike : set.Alike set')
    (value : set.fold.outcome log = (.ok (some v), log₁))
    (value' : set'.fold.outcome log' = (.ok (some v'), log₁')) :
    (membersOf v).map Value.isNull = (membersOf v').map Value.isNull := by
  obtain ⟨w, rfl⟩ := steady.set membership
  cases alike with
  | literal values =>
      obtain ⟨rfl, -⟩ := Eval.outcome_pure_ok.1 (Expr.outcome_fold_some.1 value).2
      obtain ⟨rfl, -⟩ := Eval.outcome_pure_ok.1 (Expr.outcome_fold_some.1 value').2
      exact membersOf_of_alike values

theorem leads_emptySet {h : PredicateHelper} {v : Value} {log : CallLog}
    (membership : h = .isIn ∨ h = .notIn) (value : y.fold.outcome b.log = (.ok (some v), log))
    (empty : membersOf v = []) :
    Leads c (.call (.helper h) [x, y]) b [.truth (h == .notIn)] { b with log := log } := by
  intro w b' g b₁' alike steady start hw
  cases alike with
  | call arguments =>
    obtain _ | ⟨hx, _ | ⟨hy, _ | _⟩⟩ := arguments
    cases hw with
    | emptySet => exact ⟨rfl, start.withLog _ _⟩
    | memberOf _ _ value' nonempty =>
        have nulls := members_of_alike steady membership hy value value'
        rw [empty] at nulls
        exact absurd (List.map_eq_nil_iff.1 nulls.symm) nonempty
    | like => simp at membership
    | constant form => cases form

theorem leads_memberOf {h : PredicateHelper} {v : Value} {log : CallLog}
    (membership : h = .isIn ∨ h = .notIn) (value : y.fold.outcome b.log = (.ok (some v), log))
    (nonempty : membersOf v ≠ []) (target : Leads c x { b with log := log } f b₁) :
    Leads c (.call (.helper h) [x, y]) b
      (parens (around f (.keyword h.symbol) [] ++
        parens (joined .comma (b₁.writtenAll (membersOf v)))))
      (b₁.boundAll (membersOf v)) := by
  intro w b' g b₁' alike steady start hw
  cases alike with
  | call arguments =>
    obtain _ | ⟨hx, _ | ⟨hy, _ | _⟩⟩ := arguments
    cases hw with
    | emptySet _ _ value' empty =>
        have nulls := members_of_alike steady membership hy value value'
        rw [empty] at nulls
        exact absurd (List.map_eq_nil_iff.1 nulls) nonempty
    | memberOf _ _ value' _ first =>
        have nulls := members_of_alike steady membership hy value value'
        obtain ⟨rfl, hmiddle⟩ :=
          target hx (steady.child (by simp [Expr.children])) (start.withLog _ _) first
        obtain ⟨hwritten, hend⟩ := hmiddle.all nulls
        exact ⟨by rw [hwritten], hend⟩
    | like => simp at membership
    | constant form => cases form

theorem leads_countRows :
    Leads c (.call (.aggregate .count) []) b (.keyword Aggregate.count.symbol :: parens [.star]) b := by
  intro w b' g b₁' alike steady start hw
  cases alike with
  | call arguments =>
    obtain _ | _ := arguments
    cases hw with
    | countRows => exact ⟨rfl, start⟩
    | constant form => cases form

theorem leads_aggregate {a : Aggregate} (argument : Leads c x b f b₁) :
    Leads c (.call (.aggregate a) [x]) b (aggregateOf a f) b₁ := by
  intro w b' g b₁' alike steady start hw
  cases alike with
  | call arguments =>
    obtain _ | ⟨hx, _ | _⟩ := arguments
    cases hw with
    | aggregate _ first =>
        obtain ⟨rfl, hend⟩ := argument hx (steady.child (by simp [Expr.children])) start first
        exact ⟨rfl, hend⟩
    | constant form => cases form

theorem leads_projection {target : Entity} {label : String} {as : Aliases}
    {bs : List (String × Expr)} {columns : List Fragment}
    (registered : b.aliases.aliasFor target = .ok (label, as))
    (bindings : Projects target label [] bs { b with aliases := as } columns b₁) :
    Leads c (.construct target bs) b (joined .comma columns) b₁ := by
  intro w b' g b₁' alike steady start hw
  cases alike with
  | construct names sources =>
    cases hw with
    | projection _ _ registered' bindings' =>
        rw [start.aliases, registered'] at registered
        obtain ⟨rfl, rfl⟩ := Prod.mk.inj (Except.ok.inj registered)
        obtain ⟨rfl, hend⟩ :=
          bindings.inStep bindings' ⟨rfl, start.stem, start.size⟩ names sources
        exact ⟨rfl, hend⟩
    | constant form => cases form

theorem Translates.leads (h : Translates c x b f b₁) : Leads c x b f b₁ := by
  induction h with
  | literal => exact leads_literal
  | constant form value => exact leads_constant form value
  | column field rows registered => exact leads_column field rows registered
  | groupedColumn field groups registered => exact leads_groupedColumn field groups registered
  | testLeft null word operand ih => exact leads_testLeft null word ih
  | testRight other null word operand ih => exact leads_testRight other null word ih
  | comparison order noTest left right ihl ihr => exact leads_comparison order noTest ihl ihr
  | arithmetic noOrder reads left right ihl ihr => exact leads_arithmetic noOrder reads ihl ihr
  | logical left right ihl ihr => exact leads_logical ihl ihr
  | between predicates target low high iht ihl ihh => exact leads_between iht ihl ihh
  | like predicates target pattern iht ihp => exact leads_like iht ihp
  | emptySet predicates membership value empty => exact leads_emptySet membership value empty
  | memberOf predicates membership value nonempty target ih =>
      exact leads_memberOf membership value nonempty ih
  | countRows aggregates => exact leads_countRows
  | aggregate aggregates argument ih => exact leads_aggregate ih
  | projection select nonempty registered bindings => exact leads_projection registered bindings

end

/-- Alike expressions that are both translated from the same aliases and parameters give one
fragment and bind as many values, whatever was called before each of them. -/
theorem fragment_eq_of_alike (c : Context) (x y : Expr) (b b₁ b₂ : Binder) (log : CallLog)
    (f g : Fragment) (alike : x.Alike y) (steady : x.Steady)
    (first : (translate c x).run b = (.ok f, b₁))
    (second : (translate c y).run { b with log := log } = (.ok g, b₂)) :
    f = g ∧ f.text = g.text ∧ b₁.params.size = b₂.params.size := by
  have start : b.InStep { b with log := log } := ⟨rfl, rfl, rfl⟩
  obtain ⟨rfl, hend⟩ :=
    (translates_of_run c x first).leads alike steady start (translates_of_run c y second)
  exact ⟨rfl, rfl, hend.size⟩

/-- Orders in a state, with one of some keys, and of more than an amount and one. -/
def ordersWhere (status : String) (keys : List Value) (amount : Value) : Expr :=
  .logical .and (.comparison .eq (.field Demo.order "status") (.literal (.text status)))
    (.logical .and (.call (.helper .isIn) [.field Demo.order "id", .literal (.list keys)])
      (.comparison .gt (.field Demo.order "total")
        (.comparison .add (.literal amount) (.literal (.int 1)))))

theorem alike_ordersWhere {s t : String} {vs ws : List Value} {v w : Value}
    (nulls : vs.map Value.isNull = ws.map Value.isNull) (amounts : v.Alike w) :
    (ordersWhere s vs v).Alike (ordersWhere t ws w) := by
  have field (name : String) : (Expr.field Demo.order name).Alike (.field Demo.order name) :=
    .member .row
  have states : (Value.text s).Alike (.text t) := .scalar rfl rfl (by simp) (by simp)
  have one : (Value.int 1).Alike (.int 1) := .scalar rfl rfl (by simp) (by simp)
  exact .logical (.comparison (field _) (.literal states))
    (.logical (.call (.cons (field _) (.cons (.literal (.list nulls)) .nil)))
      (.comparison (field _) (.comparison (.literal amounts) (.literal one))))

theorem steady_ordersWhere (s : String) (vs : List Value) (v : Value) :
    (ordersWhere s vs v).Steady := by
  constructor <;>
    simp +contextual [ordersWhere, Expr.nodes, Expr.nodesOfArgs, Expr.field, Expr.foldable, or_imp]

def plainOrders : Expr := ordersWhere "paid" [.int 7, .null] (.int 10)

/-- A state and a key that are written like parts of a condition. -/
def hostileOrders : Expr := ordersWhere "paid) OR (1=1" [.text "8)) --", .null] (.decimal "0.5")

theorem hostileOrders_eq :
    ∃ f g b₁ b₂, plainOrders.Alike hostileOrders ∧ plainOrders.Steady ∧
      (translate ⟨{}, false, .where⟩ plainOrders).run boundOnce = (.ok f, b₁) ∧
      (translate ⟨{}, false, .where⟩ hostileOrders).run { boundOnce with log := ["today"] } =
        (.ok g, b₂) ∧
      f.text = "(Extend0.status = @p1) AND " ++
        "(((Extend0.id IN (@p2, NULL))) AND (Extend0.total > @p3))" ∧
      f = g ∧ b₁.params.size = b₂.params.size := by
  have alike : plainOrders.Alike hostileOrders :=
    alike_ordersWhere rfl (.scalar rfl rfl (by simp) (by simp))
  have steady : plainOrders.Steady := steady_ordersWhere _ _ _
  have text : ((translate ⟨{}, false, .where⟩ plainOrders).run boundOnce).1.toOption.map
      Fragment.text = some ("(Extend0.status = @p1) AND " ++
        "(((Extend0.id IN (@p2, NULL))) AND (Extend0.total > @p3))") := by decide +kernel
  obtain ⟨f, b₁, first⟩ := Translation.exists_run_ok
    (x := translate ⟨{}, false, .where⟩ plainOrders) (b := boundOnce) (by decide +kernel)
  obtain ⟨g, b₂, second⟩ := Translation.exists_run_ok
    (x := translate ⟨{}, false, .where⟩ hostileOrders)
    (b := { boundOnce with log := ["today"] }) (by decide +kernel)
  rw [first] at text
  obtain ⟨heq, -, hsize⟩ := fragment_eq_of_alike _ _ _ boundOnce _ _ _ _ _ alike steady first second
  exact ⟨f, g, b₁, b₂, alike, steady, first, second, Option.some.inj text, heq, hsize⟩

end Sql

end TypedQuery
