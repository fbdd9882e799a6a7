import TypedQuery.Proofs.Expr.Folding
import TypedQuery.Proofs.Sql.Rules

/-!
# The grammar of clauses

What an expression may be made of in a clause, told node by node. A translation checks the nodes
that it visits, and visits all of them but the targets of membership tests whose sets are empty:
such a test is settled by its set alone. So an accepted expression is within the grammar of its
clause exactly when those targets are.
-/

namespace TypedQuery

open TypedQuery.Sql

namespace Clause

variable {c : Clause}

theorem acceptsPredicates_iff : c.acceptsPredicates = true ↔ c = .where ∨ c = .having := by
  cases c <;> simp [acceptsPredicates]

theorem acceptsAggregates_iff :
    c.acceptsAggregates = true ↔ c = .having ∨ c = .selectAggregate := by
  cases c <;> simp [acceptsAggregates]

/-- May a node of this form stand in the clause? -/
def Admits (c : Clause) : Expr → Prop
  | .member (.row e) name => (e.field? name).isSome = true
  | .call (.named _) _ => False
  | .call (.helper h) args => args.length = h.arity ∧ (c = .where ∨ c = .having)
  | .call (.aggregate _) _ => c = .having ∨ c = .selectAggregate
  | .construct _ _ => c = .select
  | _ => True

end Clause

namespace Expr

/-- The expression is within the grammar of the clause. -/
structure InGrammar (c : Clause) (x : Expr) : Prop where
  /-- Every node may stand in the clause. -/
  admitted : ∀ y ∈ x.nodes, c.Admits y
  /-- The expression is no row itself. -/
  whole : ∀ e, x ≠ .row e
  /-- A row that stands below a node is there for one of its fields to be read. -/
  rows : ∀ y ∈ x.nodes, ∀ e, .row e ∈ y.children → ∃ name, y = .field e name

/-- A membership test in the expression has the target, and its set may turn out empty. -/
def SkippedTarget (x t : Expr) : Prop :=
  ∃ h set log log' v, (h = .isIn ∨ h = .notIn) ∧ .call (.helper h) [t, set] ∈ x.nodes ∧
    set.fold.outcome log = (.ok (some v), log') ∧ membersOf v = []

variable {c : Clause} {x y t : Expr}

theorem SkippedTarget.mono (h : SkippedTarget y t) (nodes : y.nodes ⊆ x.nodes) :
    SkippedTarget x t := by
  obtain ⟨helper, set, log, log', v, membership, hcall, value, empty⟩ := h
  exact ⟨helper, set, log, log', v, membership, nodes hcall, value, empty⟩

namespace InGrammar

theorem of_children (here : c.Admits x) (whole : ∀ e, x ≠ .row e)
    (below : ∀ y ∈ x.children, InGrammar c y) : InGrammar c x := by
  refine ⟨fun y hy => ?_, whole, fun y hy e he => ?_⟩
  · rcases eq_or_mem_of_mem_nodes hy with rfl | ⟨z, hz, hy⟩
    · exact here
    · exact (below z hz).admitted y hy
  · rcases eq_or_mem_of_mem_nodes hy with rfl | ⟨z, hz, hy⟩
    · exact absurd rfl ((below _ he).whole e)
    · exact (below z hz).rows y hy e he

theorem mono (h : InGrammar c x) (nodes : y.nodes ⊆ x.nodes) (whole : ∀ e, y ≠ .row e) :
    InGrammar c y :=
  ⟨fun z hz => h.admitted z (nodes hz), whole, fun z hz => h.rows z (nodes hz)⟩

theorem field {e : Entity} {name : String} (declared : (e.field? name).isSome = true) :
    InGrammar c (.field e name) := by
  have parts {y : Expr} (hy : y ∈ (Expr.field e name).nodes) :
      y = .field e name ∨ y = .row e := by
    simpa [Expr.field, nodes] using hy
  refine ⟨fun y hy => ?_, fun e h => (by cases h), fun y hy e' he => ?_⟩
  · rcases parts hy with rfl | rfl
    · exact declared
    · trivial
  · rcases parts hy with rfl | rfl
    · obtain rfl := Expr.row.inj (List.mem_singleton.1 he)
      exact ⟨name, rfl⟩
    · cases he

/-- A constant reads no row and calls nothing but accessors. -/
theorem of_foldable (h : x.foldable = true) : InGrammar c x := by
  have forms := (foldable_iff x).1 h
  have noRow (e : Entity) : .row e ∉ x.nodes := fun he => nomatch forms _ he
  refine ⟨fun y hy => ?_, fun e he => noRow e (he ▸ self_mem_nodes x), fun y hy e he => ?_⟩
  · have form := forms y hy
    unfold Clause.Admits
    split
    · exact absurd (row_mem_nodes_of_field hy) (noRow _)
    · cases form
    · cases form
    · cases form
    · cases form
    · trivial
  · have below := nodes_subset_of_mem_children he (self_mem_nodes _)
    exact absurd (nodes_subset_of_mem_nodes x y hy below) (noRow e)

/-- A target is an argument, so it is no row when the test is within the grammar. -/
theorem skipped (h : InGrammar c x) (ht : SkippedTarget x t) : InGrammar c t := by
  obtain ⟨helper, set, log, log', v, -, hcall, -, -⟩ := ht
  have hchild : t ∈ (call (.helper helper) [t, set]).children := by simp [children]
  have hnodes : t.nodes ⊆ x.nodes := List.Subset.trans (nodes_subset_of_mem_children hchild)
    (nodes_subset_of_mem_nodes x _ hcall)
  refine h.mono hnodes fun e he => ?_
  obtain ⟨name, hfield⟩ := h.rows _ hcall e (he ▸ hchild)
  cases hfield

theorem of_isNullLiteral (h : isNullLiteral x = true) : InGrammar c x := by
  unfold isNullLiteral at h
  split at h
  · exact .of_foldable rfl
  · cases h

end InGrammar

end Expr

namespace Sql

open TypedQuery.Expr

variable {c : Context} {x y t : Expr} {b b' : Binder} {f : Fragment}

/-- A binding takes its column from a declared field. -/
theorem Projects.inGrammar {target : Entity} {label : String} {seen : List String}
    {bs : List (String × Expr)} {columns : List Fragment} {k : Clause}
    (h : Projects target label seen bs b columns b') :
    ∀ y ∈ bs.map Prod.snd, InGrammar k y := by
  induction h with
  | nil => simp
  | cons field fresh sourceField registered others ih =>
      exact List.forall_mem_cons.2 ⟨.field (by simp [sourceField]), ih⟩

/-- The grammar of a part, from what is known of the targets that are skipped in the whole. -/
theorem inGrammar_part {k : Clause} (skipped : ∀ t, SkippedTarget x t → InGrammar k t)
    (ih : (∀ t, SkippedTarget y t → InGrammar k t) → InGrammar k y) (hy : y ∈ x.children) :
    InGrammar k y :=
  ih fun t ht => skipped t (ht.mono (nodes_subset_of_mem_children hy))

/-- Each part is translated in its turn, is a constant or is skipped. -/
theorem Translates.inGrammar (h : Translates c x b f b')
    (skipped : ∀ t, SkippedTarget x t → InGrammar c.clause t) : InGrammar c.clause x := by
  induction h with
  | literal => exact .of_foldable rfl
  | constant form value => exact .of_foldable (outcome_fold_some.1 value).1
  | column field | groupedColumn field => exact .field (by simp [field])
  | testLeft null word operand ih =>
      have hl := inGrammar_part skipped ih (by simp [children])
      exact .of_children trivial (by simp) (by simp [children, hl, InGrammar.of_isNullLiteral null])
  | testRight other null word operand ih =>
      have hr := inGrammar_part skipped ih (by simp [children])
      exact .of_children trivial (by simp) (by simp [children, hr, InGrammar.of_isNullLiteral null])
  | comparison _ _ left right ihl ihr | arithmetic _ _ left right ihl ihr
  | logical left right ihl ihr =>
      have hl := inGrammar_part skipped ihl (by simp [children])
      have hr := inGrammar_part skipped ihr (by simp [children])
      exact .of_children trivial (by simp) (by simp [children, hl, hr])
  | between predicates target low high iht ihl ihh =>
      have ht := inGrammar_part skipped iht (by simp [children])
      have hl := inGrammar_part skipped ihl (by simp [children])
      have hh := inGrammar_part skipped ihh (by simp [children])
      exact .of_children ⟨rfl, Clause.acceptsPredicates_iff.1 predicates⟩ (by simp)
        (by simp [children, ht, hl, hh])
  | like predicates target pattern iht ihp =>
      have ht := inGrammar_part skipped iht (by simp [children])
      have hp := inGrammar_part skipped ihp (by simp [children])
      exact .of_children ⟨rfl, Clause.acceptsPredicates_iff.1 predicates⟩ (by simp)
        (by simp [children, ht, hp])
  | @emptySet h x set v log b predicates membership value empty =>
      -- nothing has looked at the target
      have ht := skipped x
        ⟨h, set, b.log, log, v, membership, self_mem_nodes _, value, empty⟩
      have hset : InGrammar c.clause set := .of_foldable (outcome_fold_some.1 value).1
      have harity : h.arity = 2 := by rcases membership with rfl | rfl <;> rfl
      exact .of_children ⟨harity.symm, Clause.acceptsPredicates_iff.1 predicates⟩ (by simp)
        (by simp [children, ht, hset])
  | @memberOf h x set v log b f b' predicates membership value nonempty target ih =>
      have ht := inGrammar_part skipped ih (by simp [children])
      have hset : InGrammar c.clause set := .of_foldable (outcome_fold_some.1 value).1
      have harity : h.arity = 2 := by rcases membership with rfl | rfl <;> rfl
      exact .of_children ⟨harity.symm, Clause.acceptsPredicates_iff.1 predicates⟩ (by simp)
        (by simp [children, ht, hset])
  | countRows aggregates =>
      exact .of_children (Clause.acceptsAggregates_iff.1 aggregates) (by simp) (by simp [children])
  | aggregate aggregates argument ih =>
      have ha := inGrammar_part skipped ih (by simp [children])
      exact .of_children (Clause.acceptsAggregates_iff.1 aggregates) (by simp)
        (by simp [children, ha])
  | projection select nonempty registered bindings =>
      exact .of_children select (by simp) bindings.inGrammar

/-- What a clause accepts is within its grammar, but for the targets of membership tests whose
sets are empty: these are in no way looked at. -/
theorem inGrammar_iff_of_translate (h : (translate c x).run b = (.ok f, b')) :
    InGrammar c.clause x ↔ ∀ t, SkippedTarget x t → InGrammar c.clause t :=
  ⟨fun grammar _ ht => grammar.skipped ht, (translates_of_run c x h).inGrammar⟩

/-- Orders with a status among the given ones, and none of the identifiers. -/
def ordersAmong (field : String) (states : List Value) : Expr :=
  .logical .and
    (.call (.helper .isIn) [.field Demo.order field, .literal (.list states)])
    (.call (.helper .notIn) [.field Demo.order "id", .literal (.list [])])

def whereOfOrders : Context := ⟨{}, false, .where⟩

def ofOrders : Binder := ⟨Aliases.rooted "Extend" Demo.order, .empty "@p", []⟩

/-- Here a target is skipped, but it is a declared field. -/
theorem paidOrders_inGrammar : ∃ f b',
    (translate whereOfOrders (ordersAmong "status" [.text "paid"])).run ofOrders = (.ok f, b') ∧
      InGrammar .where (ordersAmong "status" [.text "paid"]) := by
  have run : (translate whereOfOrders (ordersAmong "status" [.text "paid"])).run ofOrders =
      (.ok _, _) := rfl
  refine ⟨_, _, run, (inGrammar_iff_of_translate run).2 fun t ht => ?_⟩
  obtain ⟨h, set, -, -, -, -, hcall, -, -⟩ := ht
  have htarget : t = .field Demo.order "status" ∨ t = .field Demo.order "id" := by
    simp only [ordersAmong, nodes, nodesOfArgs, Expr.field, List.mem_cons, List.mem_append,
      reduceCtorEq, call.injEq, List.cons.injEq, List.not_mem_nil, false_or, or_false] at hcall
    rcases hcall with ⟨-, rfl, -⟩ | ⟨-, rfl, -⟩
    · exact .inl rfl
    · exact .inr rfl
  rcases htarget with rfl | rfl
  · exact .field rfl
  · exact .field rfl

/-- A field that no order has is accepted, as long as no values are given for it. -/
theorem misspelt_accepted :
    ((translate whereOfOrders (ordersAmong "state" [])).run ofOrders).1.isOk = true ∧
      ¬ InGrammar .where (ordersAmong "state" []) ∧
      ((translate whereOfOrders (ordersAmong "state" [.text "paid"])).run ofOrders).1 =
        .error (.unknownField "Order" "state") := by
  refine ⟨rfl, fun h => ?_, rfl⟩
  have declared := h.admitted (.field Demo.order "state")
    (by simp [ordersAmong, nodes, nodesOfArgs, Expr.field])
  cases declared

end Sql

end TypedQuery
