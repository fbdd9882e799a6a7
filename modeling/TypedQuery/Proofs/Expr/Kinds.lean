import TypedQuery.Demo
import TypedQuery.Expr.OutputKind
import TypedQuery.Proofs.Expr.Evaluation

/-!
# Kinds of values

The kind that can be told from an expression is the kind of its values. Where fields hold what
they declare, an evaluation gives NULL or a value of that kind.

Two integers are computed as an integer and any other numbers in floating point, for kinds and for
values alike. What is no number has no arithmetic, so it does not matter that a kind is told for
that, too.
-/

namespace TypedQuery

namespace Expr

variable {k l m : Kind}

theorem arithmeticKind_of_ne (h : k = .int → l = .int → False) :
    arithmeticKind (some k) (some l) = some .float := by
  unfold arithmeticKind
  split
  · rename_i hk hl
    exact (h (Option.some.inj hk) (Option.some.inj hl)).elim
  · rfl
  · rename_i notBoth
    exact (notBoth k l rfl rfl).elim

theorem exists_of_arithmeticKind {p q : Option Kind} (h : arithmeticKind p q = some m) :
    ∃ k l, p = some k ∧ q = some l := by
  unfold arithmeticKind at h
  split at h
  · exact ⟨_, _, rfl, rfl⟩
  · exact ⟨_, _, rfl, rfl⟩
  · cases h

end Expr

namespace Value

variable {a b v : Value} {k l m : Kind}

/-- Is the value NULL or of the kind? -/
def Inhabits (v : Value) (k : Kind) : Prop := v.isNull = true ∨ v.kind? = some k

theorem inhabits_of_isTruth (h : v.isTruth = true) : v.Inhabits .bool := by
  cases v with
  | null => exact .inl rfl
  | bool t => exact .inr rfl
  | _ => cases h

theorem exists_int_of_kind (h : v.kind? = some .int) : ∃ n, v = int n := by
  cases v with
  | int n => exact ⟨n, rfl⟩
  | _ => cases h

/-- Arithmetic on values of two kinds gives one of the kind that is told from these. -/
theorem kind?_of_applyArithmetic {op : BinaryOp} (ha : a.kind? = some k) (hb : b.kind? = some l)
    (h : applyArithmetic op a b = .ok v) : v.kind? = Expr.arithmeticKind (some k) (some l) := by
  unfold applyArithmetic at h
  split at h
  · obtain rfl := Option.some.inj ha
    obtain rfl := Option.some.inj hb
    obtain ⟨n, -, rfl⟩ := Outcome.map_ok.1 h
    rfl
  · rename_i notWhole
    have notIntegers (hk : k = .int) (hl : l = .int) : False := by
      obtain ⟨m, rfl⟩ := exists_int_of_kind (hk ▸ ha)
      obtain ⟨n, rfl⟩ := exists_int_of_kind (hl ▸ hb)
      exact notWhole m n rfl rfl
    split at h
    · cases h
    split at h
    · obtain ⟨x, -, rfl⟩ := Outcome.map_ok.1 h
      exact (Expr.arithmeticKind_of_ne notIntegers).symm
    · cases h

/-- An operation whose operands inhabit the kinds that are told of them inhabits its own. -/
theorem inhabits_of_applyBinary {op : BinaryOp} {p q : Option Kind} (hop : op.isComparison = false)
    (ha : ∀ k, p = some k → a.Inhabits k) (hb : ∀ l, q = some l → b.Inhabits l)
    (kind : Expr.arithmeticKind p q = some m) (h : a.applyBinary op b = .ok v) : v.Inhabits m := by
  cases hv : v.isNull with
  | true => exact .inl hv
  | false =>
      have known := hv
      rw [isNull_of_applyBinary h] at known
      obtain ⟨knownLeft, knownRight⟩ := Bool.or_eq_false_iff.1 known
      rw [applyBinary, if_neg (Bool.eq_false_iff.1 known), if_neg (by simp [hop])] at h
      obtain ⟨k, l, rfl, rfl⟩ := Expr.exists_of_arithmeticKind kind
      have left := (ha k rfl).resolve_left (Bool.eq_false_iff.1 knownLeft)
      have right := (hb l rfl).resolve_left (Bool.eq_false_iff.1 knownRight)
      exact .inr ((kind?_of_applyArithmetic left right h).trans kind)

/-- All predicate helpers give truth values. -/
theorem isTruth_of_applyHelper {h : PredicateHelper} {target first second : Value}
    (value : applyHelper h target first second = .ok v) : v.isTruth = true := by
  unfold applyHelper at value
  split at value
  · obtain rfl := Except.ok.inj value
    rfl
  split at value
  · obtain ⟨lower, -, value⟩ := Outcome.bind_ok.1 value
    obtain ⟨upper, -, value⟩ := Outcome.bind_ok.1 value
    obtain ⟨p, q, -, -, rfl⟩ := applyConnective_ok.1 value
    exact isTruth_ofTruth _
  · obtain rfl := Except.ok.inj value
    rfl
  · obtain rfl := Except.ok.inj value
    rfl
  · split at value
    · obtain rfl := Except.ok.inj value
      rfl
    · obtain rfl := Except.ok.inj value
      rfl
    · cases value

end Value

/-- The fields that entities declare hold values of their kinds, or NULL. -/
def Scope.HoldsKinds (scope : Scope) : Prop :=
  ∀ e name f v, e.field? name = some f → scope e name = some v → v.Inhabits f.kind

namespace Expr

variable {scope : Scope}

theorem inhabits_of_evalIn_field (kinds : scope.HoldsKinds) {t : Expr} {name : String} {k : Kind}
    {v : Value} {log log' : CallLog} (kind : (member t name).outputKind = some k)
    (h : ((member t name).evalIn scope).outcome log = (.ok v, log')) : v.Inhabits k := by
  obtain ⟨f, hfield, rfl⟩ := Option.map_eq_some_iff.1 kind
  obtain ⟨⟨e, source⟩, hsource, hfield⟩ := Option.bind_eq_some_iff.1 hfield
  have heq := eq_field_of_asField? hsource
  rw [heq] at h
  exact kinds e source f v hfield (of_evalIn_field h)

/-- Whatever an evaluation gives is NULL or of the kind that the tree tells. The cases are those of
the tree; what has no kind, or no value for a row, needs nothing. -/
theorem inhabits_of_evalIn (kinds : scope.HoldsKinds) : (x : Expr) → ∀ {k : Kind} {v : Value}
    {log log' : CallLog}, x.outputKind = some k → (x.evalIn scope).outcome log = (.ok v, log') →
      v.Inhabits k
  | .literal w, k, v, log, log', kind, h => by
      obtain ⟨rfl, -⟩ := Eval.outcome_pure_ok.1 h
      exact .inr kind
  | .member t name, k, v, log, log', kind, h => inhabits_of_evalIn_field kinds kind h
  | .comparison op l r, k, v, log, log', kind, h => by
      obtain ⟨a, b, middle, ha, hb, hv⟩ := of_evalIn_comparison h
      rw [outputKind] at kind
      split at kind
      · rename_i order
        obtain rfl := Option.some.inj kind
        exact Value.inhabits_of_isTruth (Value.isTruth_of_comparison order hv)
      · rename_i noOrder
        exact Value.inhabits_of_applyBinary (Bool.eq_false_iff.2 noOrder)
          (fun k hk => inhabits_of_evalIn kinds l hk ha)
          (fun k hk => inhabits_of_evalIn kinds r hk hb) kind hv
  | .logical op l r, k, v, log, log', kind, h => by
      obtain rfl := Option.some.inj kind
      obtain ⟨a, b, middle, -, -, hv⟩ := of_evalIn_logical h
      obtain ⟨p, q, -, -, rfl⟩ := Value.applyConnective_ok.1 hv
      exact Value.inhabits_of_isTruth (Value.isTruth_ofTruth _)
  | .call (.helper p) args, k, v, log, log', kind, h => by
      obtain rfl := Option.some.inj kind
      obtain ⟨vs, -, hv⟩ := of_evalIn_helper h
      exact Value.inhabits_of_isTruth (Value.isTruth_of_applyHelper hv)
  | .call (.aggregate a) args, _, _, _, _, _, h => (Eval.outcome_fail _ h).elim
  | .call (.accessor a) args, _, _, _, _, kind, _ => by cases kind
  | .call (.named name) args, _, _, _, _, kind, _ => by cases kind
  | .construct target bs, _, _, _, _, kind, _ => by cases kind
  | .row e, _, _, _, _, kind, _ => by cases kind

/-- The kind that is told from an expression is the kind of each value that it has for a row, unless
that is NULL. -/
theorem kind?_of_evalIn (x : Expr) (scope : Scope) (kinds : scope.HoldsKinds) (k : Kind)
    (told : x.outputKind = some k) (log log' : CallLog) (v : Value)
    (value : (x.evalIn scope).outcome log = (.ok v, log')) (known : v.isNull = false) :
    v.kind? = some k :=
  (inhabits_of_evalIn kinds x told value).resolve_left (Bool.eq_false_iff.1 known)

/-- A number and an amount; nothing is known of other kinds. -/
def sampleValue : Kind → Value
  | .int => .int 7
  | .float => .float (.ofRatio false 5 2)
  | _ => .null

theorem inhabits_sampleValue (k : Kind) : (sampleValue k).Inhabits k := by
  cases k with
  | int | float => exact .inr rfl
  | _ => exact .inl rfl

/-- Rows with one value in all fields of a kind. -/
def sampleRow : Scope := fun e name => (e.field? name).map fun f => sampleValue f.kind

theorem holdsKinds_sampleRow : sampleRow.HoldsKinds := by
  intro e name f v hfield hv
  rw [sampleRow, hfield] at hv
  obtain rfl := Option.some.inj hv
  exact inhabits_sampleValue f.kind

/-- Twice the number of an order, and its total. -/
def weight : Expr :=
  .comparison .add (.comparison .mul (.field Demo.order "id") (.literal (.int 2))) Demo.total

theorem weight_kind :
    sampleRow.HoldsKinds ∧ weight.outputKind = some .float ∧
      (weight.evalIn sampleRow).outcome [] = (.ok (.float (.ofRatio false 33 2)), []) ∧
      (Value.float (.ofRatio false 33 2)).kind? = some .float := by
  have kinds := holdsKinds_sampleRow
  have sum : (Double.ofInt 14).add (.ofRatio false 5 2) = .ofRatio false 33 2 := by
    decide +kernel
  have value : (weight.evalIn sampleRow).outcome [] =
      (.ok (.float (.ofRatio false 33 2)), []) := by
    rw [← sum]
    rfl
  exact ⟨kinds, rfl, value, kind?_of_evalIn weight sampleRow kinds .float rfl [] [] _ value rfl⟩

end Expr

end TypedQuery
