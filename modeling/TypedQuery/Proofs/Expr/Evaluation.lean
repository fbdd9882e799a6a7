import TypedQuery.Expr.Fold
import TypedQuery.Proofs.Outcome

/-!
# What evaluation gives

An evaluation succeeds when its steps do, one after the other. An operator gives NULL exactly when
an operand is NULL; apart from that, comparisons and connectives give truth values, and all other
operators give none and take none.
-/

namespace TypedQuery

namespace Eval

variable {α β : Type} {log log' : CallLog}

theorem outcome_pure_ok {a r : α} :
    (pure a : Eval α).outcome log = (.ok r, log') ↔ a = r ∧ log = log' := by
  show ((.ok a : Except QueryError α), log) = (.ok r, log') ↔ _
  rw [Prod.mk.injEq, Except.ok.injEq]

/-- The second step of a sequence starts with the calls of the first logged. -/
theorem outcome_bind (x : Eval α) (f : α → Eval β) (log : CallLog) :
    (x >>= f).outcome log = match x.outcome log with
      | (.ok a, middle) => (f a).outcome middle
      | (.error e, middle) => (.error e, middle) := by
  show StateT.run (ExceptT.run (x >>= f)) log = _
  rw [ExceptT.run_bind, StateT.run_bind]
  unfold outcome
  rcases StateT.run (ExceptT.run x) log with ⟨_ | a, middle⟩ <;> rfl

/-- A sequence succeeds when both steps do. -/
theorem outcome_bind_ok {x : Eval α} {f : α → Eval β} {r : β} :
    (x >>= f).outcome log = (.ok r, log') ↔
      ∃ a middle, x.outcome log = (.ok a, middle) ∧ (f a).outcome middle = (.ok r, log') := by
  rw [outcome_bind]
  rcases x.outcome log with ⟨_ | a, middle⟩
  · simp
  · constructor
    · intro hf
      exact ⟨a, middle, rfl, hf⟩
    · rintro ⟨a', middle', heq, hf⟩
      obtain ⟨ha, rfl⟩ := Prod.mk.inj heq
      obtain rfl := Except.ok.inj ha
      exact hf

theorem outcome_fail (e : QueryError) {r : α} :
    (fail e : Eval α).outcome log ≠ (.ok r, log') := by
  intro h
  cases h

theorem outcome_ofValue_ok {x : Except EvaluationError α} {r : α} :
    (ofValue x).outcome log = (.ok r, log') ↔ x = .ok r ∧ log = log' := by
  cases x with
  | error e => simpa [ofValue] using outcome_fail _
  | ok a =>
      rw [ofValue, outcome_pure_ok, Except.ok.injEq]

theorem outcome_callAccessor (a : Accessor) (log : CallLog) :
    (callAccessor a).outcome log = (.ok (a.read log), a.name :: log) := rfl

end Eval

namespace Expr

variable {x : Expr} {v : Value} {log log' : CallLog}

/-- An expression folds to a value when it is a constant that has it. -/
theorem outcome_fold_some : x.fold.outcome log = (.ok (some v), log') ↔
    x.foldable = true ∧ x.evalConstant.outcome log = (.ok v, log') := by
  cases hfold : x.foldable with
  | false =>
      rw [fold, if_neg (by simp [hfold]), Eval.outcome_pure_ok]
      simp
  | true =>
      rw [fold, if_pos hfold, map_eq_pure_bind, Eval.outcome_bind_ok]
      constructor
      · rintro ⟨w, middle, hw, hpure⟩
        obtain ⟨hv, rfl⟩ := Eval.outcome_pure_ok.1 hpure
        obtain rfl := Option.some.inj hv
        exact ⟨rfl, hw⟩
      · rintro ⟨-, hv⟩
        exact ⟨v, log', hv, Eval.outcome_pure_ok.2 ⟨rfl, rfl⟩⟩

/-- An expression folds to nothing when it is no constant, and then calls nothing. -/
theorem outcome_fold_none : x.fold.outcome log = (.ok none, log') ↔
    x.foldable = false ∧ log = log' := by
  cases hfold : x.foldable with
  | false =>
      rw [fold, if_neg (by simp [hfold]), Eval.outcome_pure_ok]
      simp
  | true =>
      rw [fold, if_pos hfold, map_eq_pure_bind, Eval.outcome_bind_ok]
      simp [Eval.outcome_pure_ok]

end Expr

namespace Value

open Outcome

variable {a b v : Value}

/-- TRUE, FALSE or the unknown truth value. -/
def isTruth : Value → Bool
  | null | bool _ => true
  | _ => false

theorem eq_ofTruth_of_truth? {op : Connective} {t : Option Bool} (h : truth? op v = .ok t) :
    v = ofTruth t := by
  cases v with
  | null =>
      obtain rfl := Except.ok.inj h
      rfl
  | bool b =>
      obtain rfl := Except.ok.inj h
      rfl
  | _ => cases h

theorem isTruth_ofTruth (t : Option Bool) : (ofTruth t).isTruth = true := by
  cases t <;> rfl

theorem applyConnective_ok {op : Connective} : applyConnective op a b = .ok v ↔
    ∃ p q, a = ofTruth p ∧ b = ofTruth q ∧ v = ofTruth (connect op p q) := by
  have truth (w : Value) (t : Option Bool) : truth? op w = .ok t ↔ w = ofTruth t := by
    refine ⟨eq_ofTruth_of_truth?, ?_⟩
    rintro rfl
    cases t <;> rfl
  rw [applyConnective, bind_ok]
  constructor
  · rintro ⟨p, hp, h⟩
    obtain ⟨q, hq, h⟩ := bind_ok.1 h
    exact ⟨p, q, (truth _ _).1 hp, (truth _ _).1 hq, (Except.ok.inj h).symm⟩
  · rintro ⟨p, q, rfl, rfl, rfl⟩
    exact ⟨p, (truth _ _).2 rfl, bind_ok.2 ⟨q, (truth _ _).2 rfl, rfl⟩⟩

theorem applyConnective_ofTruth (op : Connective) (p q : Option Bool) :
    applyConnective op (ofTruth p) (ofTruth q) = .ok (ofTruth (connect op p q)) :=
  applyConnective_ok.2 ⟨p, q, rfl, rfl, rfl⟩

/-- A comparison gives a truth value, and a known one. -/
theorem exists_bool_of_applyComparison {op : BinaryOp} (h : applyComparison op a b = .ok v) :
    ∃ t, v = bool t := by
  unfold applyComparison at h
  split at h
  · exact ⟨_, (Except.ok.inj h).symm⟩
  · exact ⟨_, (Except.ok.inj h).symm⟩
  · split at h
    · exact ⟨_, (Except.ok.inj h).symm⟩
    · cases h

/-- Arithmetic gives numbers, and no operand of it is a truth value. -/
theorem isTruth_of_applyArithmetic {op : BinaryOp} (h : applyArithmetic op a b = .ok v) :
    a.isTruth = false ∧ b.isTruth = false ∧ v.isTruth = false := by
  have number {w : Value} {x : Double} (hw : w.double? = some x) : w.isTruth = false := by
    cases w <;> first | rfl | cases hw
  unfold applyArithmetic at h
  split at h
  · obtain ⟨n, -, rfl⟩ := map_ok.1 h
    exact ⟨rfl, rfl, rfl⟩
  · split at h
    · cases h
    split at h
    · rename_i hx hy
      obtain ⟨z, -, rfl⟩ := map_ok.1 h
      exact ⟨number hx, number hy, rfl⟩
    · cases h

/-- NULL is the only truth value that arithmetic gives. -/
theorem isNull_of_arithmetic {op : BinaryOp} (hop : op.isComparison = false)
    (h : applyBinary op a b = .ok v) (truth : v.isTruth = true) : v.isNull = true := by
  rw [applyBinary] at h
  split at h
  · obtain rfl := Except.ok.inj h
    rfl
  · rw [if_neg (by simp [hop])] at h
    rw [(isTruth_of_applyArithmetic h).2.2] at truth
    cases truth

/-- NULL comes from NULL, and from nothing else. -/
theorem isNull_of_applyBinary {op : BinaryOp} (h : applyBinary op a b = .ok v) :
    v.isNull = (a.isNull || b.isNull) := by
  unfold applyBinary at h
  split at h
  · rename_i hnull
    obtain rfl := Except.ok.inj h
    exact hnull.symm
  rename_i hnull
  rw [Bool.eq_false_iff.2 hnull]
  split at h
  · obtain ⟨t, rfl⟩ := exists_bool_of_applyComparison h
    rfl
  · cases v with
    | null => cases (isTruth_of_applyArithmetic h).2.2
    | _ => rfl

theorem isTruth_of_comparison {op : BinaryOp} (hop : op.isComparison = true)
    (h : applyBinary op a b = .ok v) : v.isTruth = true := by
  rw [applyBinary, if_pos hop] at h
  split at h
  · obtain rfl := Except.ok.inj h
    rfl
  · obtain ⟨t, rfl⟩ := exists_bool_of_applyComparison h
    rfl

/-- A result of arithmetic that is not NULL comes from operands that are no truth values. -/
theorem not_isTruth_of_arithmetic {op : BinaryOp} (hop : op.isComparison = false)
    (h : applyBinary op a b = .ok v) (hv : v.isNull = false) :
    a.isTruth = false ∧ b.isTruth = false := by
  rw [isNull_of_applyBinary h] at hv
  rw [applyBinary, if_neg (Bool.eq_false_iff.1 hv), if_neg (by simp [hop])] at h
  obtain ⟨ha, hb, -⟩ := isTruth_of_applyArithmetic h
  exact ⟨ha, hb⟩

end Value

namespace Expr

variable {l r : Expr} {v : Value} {log log' : CallLog}

/-- Both operands of a constant are evaluated, from left to right. -/
theorem of_evalConstant_comparison {op : BinaryOp}
    (h : (comparison op l r).evalConstant.outcome log = (.ok v, log')) :
    ∃ a b middle, l.evalConstant.outcome log = (.ok a, middle) ∧
      r.evalConstant.outcome middle = (.ok b, log') ∧ a.applyBinary op b = .ok v := by
  obtain ⟨a, middle, ha, h⟩ := Eval.outcome_bind_ok.1 h
  obtain ⟨b, log₁, hb, h⟩ := Eval.outcome_bind_ok.1 h
  obtain ⟨hv, rfl⟩ := Eval.outcome_ofValue_ok.1 h
  exact ⟨a, b, middle, ha, hb, hv⟩

theorem isTruth_of_evalConstant_logical {op : Connective}
    (h : (logical op l r).evalConstant.outcome log = (.ok v, log')) : v.isTruth = true := by
  obtain ⟨a, middle, -, h⟩ := Eval.outcome_bind_ok.1 h
  obtain ⟨b, log₁, -, h⟩ := Eval.outcome_bind_ok.1 h
  obtain ⟨hv, -⟩ := Eval.outcome_ofValue_ok.1 h
  obtain ⟨p, q, -, -, rfl⟩ := Value.applyConnective_ok.1 hv
  exact Value.isTruth_ofTruth _

variable {scope : Scope}

theorem of_evalIn_field {e : Entity} {name : String}
    (h : ((field e name).evalIn scope).outcome log = (.ok v, log')) : scope e name = some v := by
  rw [field, evalIn] at h
  split at h
  · rename_i w hw
    obtain ⟨rfl, -⟩ := Eval.outcome_pure_ok.1 h
    exact hw
  · exact (Eval.outcome_fail _ h).elim

/-- Both operands are evaluated for a row, from left to right. -/
theorem of_evalIn_comparison {op : BinaryOp}
    (h : ((comparison op l r).evalIn scope).outcome log = (.ok v, log')) :
    ∃ a b middle, (l.evalIn scope).outcome log = (.ok a, middle) ∧
      (r.evalIn scope).outcome middle = (.ok b, log') ∧ a.applyBinary op b = .ok v := by
  obtain ⟨a, middle, ha, h⟩ := Eval.outcome_bind_ok.1 h
  obtain ⟨b, log₁, hb, h⟩ := Eval.outcome_bind_ok.1 h
  obtain ⟨hv, rfl⟩ := Eval.outcome_ofValue_ok.1 h
  exact ⟨a, b, middle, ha, hb, hv⟩

theorem of_evalIn_logical {op : Connective}
    (h : ((logical op l r).evalIn scope).outcome log = (.ok v, log')) :
    ∃ a b middle, (l.evalIn scope).outcome log = (.ok a, middle) ∧
      (r.evalIn scope).outcome middle = (.ok b, log') ∧ a.applyConnective op b = .ok v := by
  obtain ⟨a, middle, ha, h⟩ := Eval.outcome_bind_ok.1 h
  obtain ⟨b, log₁, hb, h⟩ := Eval.outcome_bind_ok.1 h
  obtain ⟨hv, rfl⟩ := Eval.outcome_ofValue_ok.1 h
  exact ⟨a, b, middle, ha, hb, hv⟩

/-- The arguments are evaluated one after the other. -/
theorem of_evalArgs_cons {x : Expr} {xs : List Expr} {vs : List Value}
    (h : (evalArgs scope (x :: xs)).outcome log = (.ok vs, log')) :
    ∃ a as middle, (x.evalIn scope).outcome log = (.ok a, middle) ∧
      (evalArgs scope xs).outcome middle = (.ok as, log') ∧ vs = a :: as := by
  obtain ⟨a, middle, ha, h⟩ := Eval.outcome_bind_ok.1 h
  obtain ⟨as, log₁, has, h⟩ := Eval.outcome_bind_ok.1 h
  obtain ⟨rfl, rfl⟩ := Eval.outcome_pure_ok.1 h
  exact ⟨a, as, middle, ha, has, rfl⟩

theorem of_evalIn_helper {p : PredicateHelper} {args : List Expr}
    (h : ((call (.helper p) args).evalIn scope).outcome log = (.ok v, log')) :
    ∃ vs, (evalArgs scope args).outcome log = (.ok vs, log') ∧
      applyHelper p (vs.getD 0 .null) (vs.getD 1 .null) (vs.getD 2 .null) = .ok v := by
  rw [evalIn] at h
  split at h
  · obtain ⟨vs, middle, hvs, h⟩ := Eval.outcome_bind_ok.1 h
    obtain ⟨hv, rfl⟩ := Eval.outcome_ofValue_ok.1 h
    exact ⟨vs, hvs, hv⟩
  · exact (Eval.outcome_fail _ h).elim

/-- A condition that can be decided has a truth value, and holds when that is TRUE. -/
theorem of_holdsIn {x : Expr} {holds : Bool}
    (h : (x.holdsIn scope).outcome log = (.ok holds, log')) :
    ∃ t, (x.evalIn scope).outcome log = (.ok (.ofTruth t), log') ∧
      (holds = true ↔ t = some true) := by
  obtain ⟨v, middle, hv, h⟩ := Eval.outcome_bind_ok.1 h
  split at h
  · obtain ⟨rfl, rfl⟩ := Eval.outcome_pure_ok.1 h
    exact ⟨some _, hv, by simp⟩
  · obtain ⟨rfl, rfl⟩ := Eval.outcome_pure_ok.1 h
    exact ⟨none, hv, by simp⟩
  · exact (Eval.outcome_fail _ h).elim

theorem eq_of_evalConstant_accessor {a : Accessor} (pure : a.Pure) {args args' : List Expr}
    {w : Value} {log₁ log₁' : CallLog}
    (h : (call (.accessor a) args).evalConstant.outcome log = (.ok v, log'))
    (h' : (call (.accessor a) args').evalConstant.outcome log₁ = (.ok w, log₁')) : v = w := by
  rw [evalConstant, Eval.outcome_callAccessor] at h h'
  obtain ⟨hv, -⟩ := Prod.mk.inj h
  obtain ⟨hw, -⟩ := Prod.mk.inj h'
  rw [← Except.ok.inj hv, ← Except.ok.inj hw]
  exact pure _ _

end Expr

end TypedQuery
