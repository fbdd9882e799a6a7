import TypedQuery.Instance
import TypedQuery.Proofs.Expr.Evaluation
import TypedQuery.Proofs.Sql.Formula
import TypedQuery.Proofs.Sql.Grouping

/-!
# Matching in memory and filtering

A predicate on the fields of one entity can be matched against an instance, and it can be
translated into a condition for rows. Where the columns of a row show the fields of the instance,
the translated condition has the value that the evaluation gives, with one exception: a comparison
with NULL is translated into a test, and the evaluation compares. So an instance that matches is
not filtered out, but one whose field is NULL does not match a comparison of the field with NULL.
-/

namespace TypedQuery

open TypedQuery.Sql TypedQuery.Sql.Fragment

namespace Value

open Outcome

variable {a b c v : Value}

theorem exists_ofTruth_of_isTruth (h : v.isTruth = true) : ∃ t, v = ofTruth t := by
  cases v with
  | null => exact ⟨none, rfl⟩
  | bool t => exact ⟨some t, rfl⟩
  | _ => cases h

/-- What a connective gives stays when its operands are known better. -/
theorem connect_refines (op : Connective) {t u t' u' : Option Bool} (h : t = none ∨ t = u)
    (h' : t' = none ∨ t' = u') :
    connect op t t' = none ∨ connect op t t' = connect op u u' := by
  rcases h with rfl | rfl <;> rcases h' with rfl | rfl
  · cases op <;> exact .inl rfl
  · cases op <;> rcases t' with _ | _ | _ <;> rcases u with _ | _ | _ <;> decide
  · cases op <;> rcases t with _ | _ | _ <;> rcases u' with _ | _ | _ <;> decide
  · exact .inr rfl

theorem exists_ofTruth_of_applyLike (h : a.applyLike b = .ok v) : ∃ t, v = ofTruth t := by
  unfold applyLike at h
  split at h
  · exact ⟨none, (Except.ok.inj h).symm⟩
  split at h
  · exact ⟨some _, (Except.ok.inj h).symm⟩
  · cases h

/-- BETWEEN is two comparisons, also where they are unknown. -/
theorem applyHelper_between : applyHelper .between a b c =
    (do
      let lower ← a.applyBinary .gte b
      let upper ← a.applyBinary .lte c
      lower.applyConnective .and upper) := by
  unfold applyHelper
  split
  · rename_i hnull
    obtain rfl := isNull_iff.1 hnull
    rfl
  · rfl

theorem applyHelper_like : applyHelper .like a b c = a.applyLike b := by
  unfold applyHelper applyLike
  cases a <;> cases b <;> rfl

end Value

namespace Expr

variable {e : Entity}

/-- A field of the entity or a constant that is no list. -/
inductive IsOperand (e : Entity) : Expr → Prop
  | field {name} : IsOperand e (.field e name)
  | literal {v} (scalar : ∀ items, v ≠ .list items) : IsOperand e (.literal v)

/-- Comparisons, BETWEEN and LIKE on operands, under connectives. -/
inductive IsPredicate (e : Entity) : Expr → Prop
  | comparison {op l r} (order : op.isComparison = true) (left : IsOperand e l)
      (right : IsOperand e r) : IsPredicate e (.comparison op l r)
  | logical {op l r} (left : IsPredicate e l) (right : IsPredicate e r) :
      IsPredicate e (.logical op l r)
  | between {x y z} (target : IsOperand e x) (low : IsOperand e y) (high : IsOperand e z) :
      IsPredicate e (.call (.helper .between) [x, y, z])
  | like {x y} (target : IsOperand e x) (pattern : IsOperand e y) :
      IsPredicate e (.call (.helper .like) [x, y])

/-- Does the predicate compare with NULL? -/
def comparesWithNull : Expr → Bool
  | .comparison op l r => (nullTest? op).isSome && (isNullLiteral l || isNullLiteral r)
  | .logical _ l r => l.comparesWithNull || r.comparesWithNull
  | _ => false

end Expr

namespace Sql

/-- The columns of the row show the field values of the instance under the label. -/
def Shows (row : String → String → Value) (label : String) (i : Instance) : Prop :=
  ∀ name f v, i.entity.field? name = some f → i.fieldValue? name = some v → row label f.column = v

open Formula

section

variable {c : Context} {x : Expr} {b b' last : Binder} {f : Fragment} {i : Instance}
variable {row : String → String → Value}

/-- The formula has the value that the operand has for the instance. -/
def SameValue (i : Instance) (row : String → String → Value) (p : Params) (φ : Formula)
    (x : Expr) : Prop :=
  ∀ v log log', (x.evalIn i.scope).outcome log = (.ok v, log') →
    ∀ test, φ.value row p test = .ok v

theorem reads_field {e : Entity} {name : String} (h : Translates c (.field e name) b f b')
    (clause : c.clause = .where) : ∃ label field, e.field? name = some field ∧
      b'.aliases.aliasFor e = .ok (label, b'.aliases) ∧
      Reads f [.operand (.column label field.column)] := by
  cases h with
  | column field rows registered =>
      exact ⟨_, _, field, Aliases.aliasFor_again registered, .token rfl⟩
  | groupedColumn field groups registered =>
      rw [Context.readsGroupedColumns, clause] at groups
      simp [Clause.readsGroupedColumns] at groups
  | constant form => cases form

theorem reads_literal {v : Value} (h : Translates c (.literal v) b f b') :
    ∃ φ, Reads f [.operand φ] ∧ ∀ (p : Params) test, b'.params.values <+: p.values →
      φ.value row p test = .ok v := by
  cases h with
  | constant form => cases form
  | literal scalar =>
    cases hnull : v.isNull with
    | true =>
        obtain rfl := Value.isNull_iff.1 hnull
        exact ⟨.null, .token rfl, fun p test _ => rfl⟩
    | false =>
        rw [Binder.written, Binder.bound, if_neg (by simp [hnull]), if_neg (by simp [hnull])]
        refine ⟨_, .token rfl, fun p test kept => ?_⟩
        obtain ⟨later, hlater⟩ := kept
        rw [Formula.value, ← hlater]
        simp [Params.push, Params.size]

theorem reads_operand (h : Translates c x b f b') (operand : x.IsOperand i.entity)
    (clause : c.clause = .where) (before : b'.Before last)
    (shown : ∀ label, last.aliases.aliasFor i.entity = .ok (label, last.aliases) →
      Shows row label i) :
    ∃ φ, Reads f [.operand φ] ∧ SameValue i row last.params φ x := by
  cases operand with
  | @field name =>
      obtain ⟨label, field, hfield, registered, reads⟩ := reads_field h clause
      refine ⟨_, reads, fun v log log' hv test => congrArg Except.ok ?_⟩
      have hvalue : i.fieldValue? name = some v := by
        have hscope := Expr.of_evalIn_field hv
        rwa [Instance.scope, Entity.same, EntityName.same_self, if_pos rfl] at hscope
      exact shown label (before.aliases.aliasFor registered) name field v hfield hvalue
  | @literal v scalar =>
      obtain ⟨φ, reads, hvalue⟩ := reads_literal h
      refine ⟨φ, reads, fun w log log' hw test => ?_⟩
      obtain ⟨rfl, -⟩ := Eval.outcome_pure_ok.1 hw
      exact hvalue last.params test before.params

/-- The formula has the truth value of the predicate where a test for NULL gives nothing known.
Where it tests for NULL it may know more, but only if the predicate compares with NULL. -/
structure Agrees (i : Instance) (row : String → String → Value) (p : Params) (φ : Formula)
    (x : Expr) (t u : Option Bool) : Prop where
  compared : φ.value row p comparedWithNull = .ok (.ofTruth t)
  tested : φ.value row p nullTest = .ok (.ofTruth u)
  refines : t = none ∨ t = u
  exact : x.comparesWithNull = false → t = u

theorem Agrees.of_eq {p : Params} {φ : Formula} {t : Option Bool}
    (h : ∀ test, φ.value row p test = .ok (.ofTruth t)) : Agrees i row p φ x t t :=
  ⟨h _, h _, .inr rfl, fun _ => rfl⟩

/-- What is read from a translated predicate agrees with it. -/
def ReadsPredicate (i : Instance) (row : String → String → Value) (p : Params) (f : Fragment)
    (x : Expr) : Prop :=
  ∃ items φ, Reads f items ∧ ofItems? items = some φ ∧
    ∀ v log log', (x.evalIn i.scope).outcome log = (.ok v, log') →
      ∃ t u, v = .ofTruth t ∧ Agrees i row p φ x t u

theorem ofItems?_test {op : BinaryOp} {test : String} (word : nullTest? op = some test)
    (φ : Formula) : Item.ofToken? (.keyword test) = some (.word (.keyword test)) ∧
      ofItems? [.operand φ, .word (.keyword test)] = some (.test (op == .ne) φ) := by
  cases op <;> cases word <;> exact ⟨rfl, rfl⟩

variable {p : Params} {l r y z : Expr} {op : BinaryOp} {g k : Fragment} {φ ψ χ : Formula}

/-- A comparison with NULL is unknown, and the test that it is translated into is known. -/
theorem readsPredicate_test {test : String} (word : nullTest? op = some test)
    (reads : Reads f [.operand φ]) (same : SameValue i row p φ y)
    (compares : (Expr.comparison op l r).comparesWithNull = true)
    (unknown : ∀ v log log', ((Expr.comparison op l r).evalIn i.scope).outcome log = (.ok v, log') →
      v = .null ∧ ∃ w log₁ log₁', (y.evalIn i.scope).outcome log₁ = (.ok w, log₁')) :
    ReadsPredicate i row p (f ++ [.space, .keyword test]) (.comparison op l r) := by
  obtain ⟨hword, hitems⟩ := ofItems?_test word φ
  refine ⟨_, _, reads.append (Reads.space.append (.token hword)), hitems, fun v log log' hv => ?_⟩
  obtain ⟨rfl, w, log₁, log₁', hw⟩ := unknown v log log' hv
  have value (test : NullTest) : (Formula.test (op == .ne) φ).value row p test =
      .ok (test (op == .ne) w) := by
    rw [Formula.value, same w log₁ log₁' hw]
    rfl
  refine ⟨none, some (w.isNull != (op == .ne)), rfl, value _, value _, .inl rfl, fun h => ?_⟩
  rw [compares] at h
  cases h

theorem readsPredicate_comparison (order : op.isComparison = true)
    (left : Reads f [.operand φ] ∧ SameValue i row p φ l)
    (right : Reads g [.operand ψ] ∧ SameValue i row p ψ r) :
    ReadsPredicate i row p (around f (.operator op) g) (.comparison op l r) := by
  refine ⟨_, _, left.1.around rfl right.1, rfl, fun v log log' hv => ?_⟩
  obtain ⟨a, b, middle, ha, hb, hv⟩ := Expr.of_evalIn_comparison hv
  obtain ⟨t, rfl⟩ := Value.exists_ofTruth_of_isTruth (Value.isTruth_of_comparison order hv)
  refine ⟨t, t, rfl, .of_eq fun test => ?_⟩
  rw [Formula.value, left.2 a _ _ ha, right.2 b _ _ hb]
  exact hv

theorem readsPredicate_logical {op : Connective} (left : ReadsPredicate i row p f l)
    (right : ReadsPredicate i row p g r) :
    ReadsPredicate i row p (around (parens f) (.connective op) (parens g)) (.logical op l r) := by
  obtain ⟨items, φ, readsLeft, itemsLeft, agreesLeft⟩ := left
  obtain ⟨others, ψ, readsRight, itemsRight, agreesRight⟩ := right
  refine ⟨_, _, (readsLeft.parens itemsLeft).around rfl (readsRight.parens itemsRight), rfl, ?_⟩
  intro v log log' hv
  obtain ⟨a, b, middle, ha, hb, hv⟩ := Expr.of_evalIn_logical hv
  obtain ⟨t, u, rfl, agreeLeft⟩ := agreesLeft a _ _ ha
  obtain ⟨t', u', rfl, agreeRight⟩ := agreesRight b _ _ hb
  have value {test : NullTest} {q q' : Option Bool}
      (hleft : φ.value row p test = .ok (.ofTruth q))
      (hright : ψ.value row p test = .ok (.ofTruth q')) :
      (Formula.connective op φ ψ).value row p test = .ok (.ofTruth (Value.connect op q q')) := by
    rw [Formula.value, hleft, hright]
    exact Value.applyConnective_ofTruth op q q'
  rw [Value.applyConnective_ofTruth] at hv
  refine ⟨_, Value.connect op u u', (Except.ok.inj hv).symm,
    value agreeLeft.compared agreeRight.compared, value agreeLeft.tested agreeRight.tested,
    Value.connect_refines op agreeLeft.refines agreeRight.refines, fun h => ?_⟩
  obtain ⟨hl, hr⟩ := Bool.or_eq_false_iff.1 h
  rw [agreeLeft.exact hl, agreeRight.exact hr]

theorem readsPredicate_between (target : Reads f [.operand φ] ∧ SameValue i row p φ x)
    (low : Reads g [.operand ψ] ∧ SameValue i row p ψ y)
    (high : Reads k [.operand χ] ∧ SameValue i row p χ z) :
    ReadsPredicate i row p
      (parens (around (around f (.keyword "BETWEEN") g) (.connective .and) k))
      (.call (.helper .between) [x, y, z]) := by
  have reads : Reads (around (around f (.keyword "BETWEEN") g) (.connective .and) k)
      [.operand φ, .word (.keyword "BETWEEN"), .operand ψ, .word (.connective .and), .operand χ] :=
    (target.1.around rfl low.1).around rfl high.1
  refine ⟨_, .between φ ψ χ, reads.parens rfl, rfl, fun v log log' hv => ?_⟩
  obtain ⟨vs, hargs, hv⟩ := Expr.of_evalIn_helper hv
  obtain ⟨a, _, log₁, ha, hrest, rfl⟩ := Expr.of_evalArgs_cons hargs
  obtain ⟨b, _, log₂, hb, hlast, rfl⟩ := Expr.of_evalArgs_cons hrest
  obtain ⟨d, _, log₃, hd, -, rfl⟩ := Expr.of_evalArgs_cons hlast
  change applyHelper .between a b d = .ok v at hv
  rw [Value.applyHelper_between] at hv
  obtain ⟨t, rfl⟩ : ∃ t, v = .ofTruth t := by
    obtain ⟨lower, -, hv⟩ := Outcome.bind_ok.1 hv
    obtain ⟨upper, -, hv⟩ := Outcome.bind_ok.1 hv
    obtain ⟨q, q', -, -, rfl⟩ := Value.applyConnective_ok.1 hv
    exact ⟨_, rfl⟩
  refine ⟨t, t, rfl, .of_eq fun test => ?_⟩
  rw [Formula.value, target.2 a _ _ ha, low.2 b _ _ hb, high.2 d _ _ hd]
  exact hv

theorem readsPredicate_like (target : Reads f [.operand φ] ∧ SameValue i row p φ x)
    (pattern : Reads g [.operand ψ] ∧ SameValue i row p ψ y) :
    ReadsPredicate i row p (parens (around f (.keyword "LIKE") g))
      (.call (.helper .like) [x, y]) := by
  have reads : Reads (around f (.keyword "LIKE") g)
      [.operand φ, .word (.keyword "LIKE"), .operand ψ] := target.1.around rfl pattern.1
  refine ⟨_, .like φ ψ, reads.parens rfl, rfl, fun v log log' hv => ?_⟩
  obtain ⟨vs, hargs, hv⟩ := Expr.of_evalIn_helper hv
  obtain ⟨a, _, log₁, ha, hrest, rfl⟩ := Expr.of_evalArgs_cons hargs
  obtain ⟨b, _, log₂, hb, -, rfl⟩ := Expr.of_evalArgs_cons hrest
  change applyHelper .like a b _ = .ok v at hv
  rw [Value.applyHelper_like] at hv
  obtain ⟨t, rfl⟩ := Value.exists_ofTruth_of_applyLike hv
  refine ⟨t, t, rfl, .of_eq fun test => ?_⟩
  rw [Formula.value, target.2 a _ _ ha, pattern.2 b _ _ hb]
  exact hv

/-- The translation of a predicate is read as a formula that agrees with it. -/
theorem Translates.readsPredicate (predicate : x.IsPredicate i.entity) (h : Translates c x b f b')
    (clause : c.clause = .where) (before : b'.Before last)
    (shown : ∀ label, last.aliases.aliasFor i.entity = .ok (label, last.aliases) →
      Shows row label i) : ReadsPredicate i row last.params f x := by
  induction predicate generalizing b f b' with
  | comparison order left right =>
      cases h with
      | testLeft null word operand =>
          obtain ⟨φ, reads, same⟩ := reads_operand operand left clause before shown
          obtain rfl := eq_null_of_isNullLiteral null
          refine readsPredicate_test word reads same ?_ fun v log log' hv => ?_
          · rw [Expr.comparesWithNull, word, null, Bool.or_true]
            rfl
          · obtain ⟨a, b, middle, ha, hb, hv⟩ := Expr.of_evalIn_comparison hv
            obtain ⟨rfl, -⟩ := Eval.outcome_pure_ok.1 hb
            rw [Value.applyBinary_null_right] at hv
            exact ⟨(Except.ok.inj hv).symm, a, _, _, ha⟩
      | testRight other null word operand =>
          obtain ⟨φ, reads, same⟩ := reads_operand operand right clause before shown
          obtain rfl := eq_null_of_isNullLiteral null
          refine readsPredicate_test word reads same ?_ fun v log log' hv => ?_
          · rw [Expr.comparesWithNull, word, null, Bool.true_or]
            rfl
          · obtain ⟨a, b, middle, ha, hb, hv⟩ := Expr.of_evalIn_comparison hv
            obtain ⟨rfl, -⟩ := Eval.outcome_pure_ok.1 ha
            rw [Value.applyBinary_null_left] at hv
            exact ⟨(Except.ok.inj hv).symm, b, _, _, hb⟩
      | comparison order' noTest first second =>
          obtain ⟨φ, hφ⟩ := reads_operand first left clause (second.before.trans before) shown
          obtain ⟨ψ, hψ⟩ := reads_operand second right clause before shown
          exact readsPredicate_comparison order hφ hψ
      | arithmetic noOrder =>
          rw [order] at noOrder
          cases noOrder
      | constant form =>
          rw [bindsWhole, order] at form
          cases form
  | logical left right ihl ihr =>
      cases h with
      | logical first second =>
          exact readsPredicate_logical (ihl first (second.before.trans before)) (ihr second before)
      | constant form => cases form
  | between target low high =>
      cases h with
      | between _ first second third =>
          obtain ⟨φ, hφ⟩ :=
            reads_operand first target clause (second.before.trans (third.before.trans before)) shown
          obtain ⟨ψ, hψ⟩ := reads_operand second low clause (third.before.trans before) shown
          obtain ⟨χ, hχ⟩ := reads_operand third high clause before shown
          exact readsPredicate_between hφ hψ hχ
      | constant form => cases form
  | like target pattern =>
      cases h with
      | like _ first second =>
          obtain ⟨φ, hφ⟩ := reads_operand first target clause (second.before.trans before) shown
          obtain ⟨ψ, hψ⟩ := reads_operand second pattern clause before shown
          exact readsPredicate_like hφ hψ
      | emptySet _ membership | memberOf _ membership => simp at membership
      | constant form => cases form

end

theorem Formula.holds_iff {φ : Formula} {row : String → String → Value} {p : Params}
    {test : NullTest} {t : Option Bool} (h : φ.value row p test = .ok (.ofTruth t)) :
    φ.Holds row p test ↔ t = some true := by
  rw [Holds, h, Except.ok.injEq]
  rcases t with _ | t <;> simp [Value.ofTruth]

/-- An instance matches a predicate exactly when the translated condition holds in a row that shows
the instance and tests for NULL are read as comparisons with NULL. So a row whose instance matches
satisfies the condition, and without comparisons with NULL it does so only then. -/
theorem satisfies_iff_holds (c : Context) (i : Instance) (x : Expr) (b b' : Binder) (f : Fragment)
    (row : String → String → Value) (log log' : CallLog) (matched : Bool)
    (clause : c.clause = .where) (predicate : x.IsPredicate i.entity)
    (run : (translate c x).run b = (.ok f, b'))
    (shown : ∀ label, b'.aliases.aliasFor i.entity = .ok (label, b'.aliases) → Shows row label i)
    (evaluated : (i.satisfies x).outcome log = (.ok matched, log')) :
    ∃ φ, Formula.read? f = some φ ∧
      (matched = true ↔ φ.Holds row b'.params comparedWithNull) ∧
      (∃ u, φ.value row b'.params nullTest = .ok (.ofTruth u)) ∧
      (matched = true → φ.Holds row b'.params nullTest) ∧
      (x.comparesWithNull = false → (matched = true ↔ φ.Holds row b'.params nullTest)) := by
  have rule := translates_of_run c x run
  obtain ⟨items, φ, reads, hitems, agrees⟩ :=
    rule.readsPredicate predicate clause (.refl _) shown
  obtain ⟨t, hvalue, hmatched⟩ := Expr.of_holdsIn evaluated
  obtain ⟨t', u, heq, agree⟩ := agrees _ _ _ hvalue
  obtain rfl : t = t' := by
    rcases t with _ | t <;> rcases t' with _ | t' <;> cases heq <;> rfl
  refine ⟨φ, reads.read?.trans hitems, ?_, ⟨u, agree.tested⟩, ?_, ?_⟩
  · rw [Formula.holds_iff agree.compared, hmatched]
  · rw [Formula.holds_iff agree.tested, hmatched]
    rintro rfl
    rcases agree.refines with h | h
    · cases h
    · exact h.symm
  · intro h
    rw [Formula.holds_iff agree.tested, hmatched, agree.exact h]

def customerWithEmail (email : Option String) : Instance :=
  .mk Demo.customer
    [⟨Demo.key "id" (.integer .i64), (⟨1, by decide⟩ : { n : Int // IntegerType.i64.Fits n })⟩,
      ⟨Demo.plain "name" .text, ("Ada" : String)⟩,
      ⟨Demo.optional "email" .text, (email : Option String)⟩]
    []

/-- A row of customers; their columns have the names of the fields. -/
def rowOf (i : Instance) : String → String → Value :=
  fun _ column => (i.fieldValue? column).getD .null

theorem shows_rowOf (email : Option String) (label : String) :
    Shows (rowOf (customerWithEmail email)) label (customerWithEmail email) := by
  intro name f v hfield hvalue
  have hcolumn : ∀ f ∈ Demo.customer.fields, f.column = f.name := by
    simp [Demo.customer, Demo.key, Demo.plain, Demo.optional]
  rw [rowOf, hcolumn f (Entity.mem_of_field? hfield), Entity.name_of_field? hfield, hvalue]
  rfl

/-- A query of customers to which nothing is bound. -/
def customers : Binder := ⟨Aliases.rooted "Extend" Demo.customer, .empty "@p", []⟩

/-- Customers with a name that starts with A whose keys are in a range or whose mail is known. -/
def knownCustomers : Expr :=
  .logical .and (.call (.helper .like) [.field Demo.customer "name", .literal (.text "A%")])
    (.logical .or
      (.call (.helper .between) [.field Demo.customer "id", .literal (.int 5), .literal .null])
      (.comparison .gte (.field Demo.customer "email") (.literal (.text ""))))

theorem isPredicate_knownCustomers : knownCustomers.IsPredicate Demo.customer :=
  .logical (.like .field (.literal (by simp)))
    (.logical (.between .field (.literal (by simp)) (.literal (by simp)))
      (.comparison rfl .field (.literal (by simp))))

theorem knownCustomers_iff_holds :
    ∃ f b' φ, knownCustomers.IsPredicate (customerWithEmail (some "x")).entity ∧
      (translate ⟨{}, false, .where⟩ knownCustomers).run customers = (.ok f, b') ∧
      (∀ label, b'.aliases.aliasFor Demo.customer = .ok (label, b'.aliases) →
        Shows (rowOf (customerWithEmail (some "x"))) label (customerWithEmail (some "x"))) ∧
      ((customerWithEmail (some "x")).satisfies knownCustomers).outcome [] = (.ok true, []) ∧
      knownCustomers.comparesWithNull = false ∧
      f.text = "(" ++ "(Extend0.name LIKE @p0)" ++ ") AND (" ++
        "((Extend0.id BETWEEN @p1 AND NULL)) OR (Extend0.email >= @p2)" ++ ")" ∧
      Formula.read? f = some φ ∧ φ.Holds (rowOf (customerWithEmail (some "x"))) b'.params nullTest := by
  have text : ((translate ⟨{}, false, .where⟩ knownCustomers).run customers).1.toOption.map
      Fragment.text = some ("(" ++ "(Extend0.name LIKE @p0)" ++ ") AND (" ++
        "((Extend0.id BETWEEN @p1 AND NULL)) OR (Extend0.email >= @p2)" ++ ")") := by
    decide +kernel
  obtain ⟨f, b', run⟩ := Translation.exists_run_ok
    (x := translate ⟨{}, false, .where⟩ knownCustomers) (b := customers) (by decide +kernel)
  rw [run] at text
  have matched : ((customerWithEmail (some "x")).satisfies knownCustomers).outcome [] =
      (.ok true, []) := by with_unfolding_all rfl
  have shown := fun label (_ : b'.aliases.aliasFor Demo.customer = .ok (label, b'.aliases)) =>
    shows_rowOf (some "x") label
  obtain ⟨φ, reads, -, -, holds, -⟩ := satisfies_iff_holds _ (customerWithEmail (some "x"))
    knownCustomers customers b' f _ [] [] true rfl isPredicate_knownCustomers run shown matched
  exact ⟨f, b', φ, isPredicate_knownCustomers, run, shown, matched, rfl, Option.some.inj text, reads,
    holds rfl⟩

/-- Customers without a mail address. -/
def unmailed : Expr := .comparison .eq (.field Demo.customer "email") (.literal .null)

/-- A customer without a mail address does not match, though the condition holds in its row. -/
theorem unmailed_not_matched :
    ∃ f b' φ, unmailed.IsPredicate (customerWithEmail none).entity ∧
      (translate ⟨{}, false, .where⟩ unmailed).run customers = (.ok f, b') ∧
      f.text = "Extend0.email IS NULL" ∧
      (∀ label, Shows (rowOf (customerWithEmail none)) label (customerWithEmail none)) ∧
      ((customerWithEmail none).satisfies unmailed).outcome [] = (.ok false, []) ∧
      Formula.read? f = some φ ∧ φ.Holds (rowOf (customerWithEmail none)) b'.params nullTest :=
  ⟨[.column "Extend0" "email", .space, .keyword "IS NULL"], customers,
    .test false (.column "Extend0" "email"), .comparison rfl .field (.literal (by simp)), rfl,
    by decide, shows_rowOf none, by with_unfolding_all rfl, rfl, by with_unfolding_all rfl⟩

end Sql

end TypedQuery
