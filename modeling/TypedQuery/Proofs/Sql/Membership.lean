import TypedQuery.Demo
import TypedQuery.Proofs.Sql.Rules

/-!
# Membership in sets

In SQL a value is in a set when it equals some item: the equations are connected by OR, and their
negations by AND for the opposite test. An equation with NULL is unknown, so NULL among the items
leaves open what no other item decides, and of the empty set nothing is a member, not even NULL.
Evaluation answers at once for a NULL target and skips NULL items, so it agrees as long as these two
do not matter.
-/

namespace TypedQuery

namespace Value

/-- The comparisons of a value with all items, connected one after the other. -/
def compareAll (op : Connective) (start : Bool) (comparison : BinaryOp) (target : Value)
    (items : List Value) : Except EvaluationError Value :=
  items.foldlM (fun truth item => do
    applyConnective op truth (← applyBinary comparison target item)) (.bool start)

/-- Does the value equal some item? -/
def isAnyOf (target : Value) (items : List Value) : Except EvaluationError Value :=
  compareAll .or false .eq target items

/-- Does the value differ from all items? -/
def isNoneOf (target : Value) (items : List Value) : Except EvaluationError Value :=
  compareAll .and true .ne target items

/-- The membership of the value does not depend on how NULL is treated. -/
structure Decided (target : Value) (items : List Value) : Prop where
  ofNull : target.isNull = true → items ≠ []
  ofValue : target.isNull = false →
    (∃ item ∈ items, item.isNull = false ∧ target.equals item = true) ∨
      ∀ item ∈ items, item.isNull = false

theorem decided_of_isNull {target : Value} {items : List Value} (h : target.isNull = true) :
    Decided target items ↔ items ≠ [] :=
  ⟨fun decided => decided.ofNull h, fun hne => ⟨fun _ => hne, fun h' => by simp [h] at h'⟩⟩

theorem decided_of_not_isNull {target : Value} {items : List Value} (h : target.isNull = false) :
    Decided target items ↔
      (∃ item ∈ items, item.isNull = false ∧ target.equals item = true) ∨
        ∀ item ∈ items, item.isNull = false :=
  ⟨fun decided => decided.ofValue h, fun hitems => ⟨fun h' => by simp [h] at h', fun _ => hitems⟩⟩

/-- The truth value that decides a connective. -/
def decisive : Connective → Bool
  | .and => false
  | .or => true

theorem ofTruth_injective {p q : Option Bool} (h : ofTruth p = ofTruth q) : p = q := by
  cases p <;> cases q <;> first | rfl | cases h; rfl | cases h

theorem connect_eq (op : Connective) (p q : Option Bool) :
    connect op p q =
      if p = some (decisive op) ∨ q = some (decisive op) then some (decisive op)
      else if p = none ∨ q = none then none else some (!decisive op) := by
  rcases op <;> rcases p with _ | _ | _ <;> rcases q with _ | _ | _ <;> rfl

/-- Of many truth values one that decides wins, then one that is unknown. -/
theorem foldl_connect (op : Connective) (ts : List (Option Bool)) (p : Option Bool) :
    ts.foldl (connect op) p =
      if some (decisive op) ∈ p :: ts then some (decisive op)
      else if none ∈ p :: ts then none else some (!decisive op) := by
  induction ts generalizing p with
  | nil => rcases op <;> rcases p with _ | _ | _ <;> rfl
  | cons t ts ih =>
      rw [List.foldl_cons, ih, connect_eq]
      rcases op <;> rcases p with _ | _ | _ <;> rcases t with _ | _ | _ <;> simp [decisive]

variable {comparison : BinaryOp} {target item : Value} {items : List Value} {positive : Bool}

/-- The truth value of a comparison that holds of equal values, or of different ones. -/
def test (positive : Bool) (target item : Value) : Option Bool :=
  if target.isNull || item.isNull then none else some (target.equals item == positive)

theorem test_eq_none :
    test positive target item = none ↔ target.isNull = true ∨ item.isNull = true := by
  cases htarget : target.isNull <;> cases hitem : item.isNull <;> simp [test, htarget, hitem]

theorem test_eq_positive :
    test positive target item = some positive ↔
      target.isNull = false ∧ item.isNull = false ∧ target.equals item = true := by
  cases htarget : target.isNull <;> cases hitem : item.isNull <;> cases positive <;>
    simp [test, htarget, hitem]

theorem applyBinary_eq (target item : Value) :
    applyBinary .eq target item = .ok (ofTruth (test true target item)) := by
  unfold applyBinary test
  split
  · rfl
  · simp [BinaryOp.isComparison, applyComparison, ofTruth]

theorem applyBinary_ne (target item : Value) :
    applyBinary .ne target item = .ok (ofTruth (test false target item)) := by
  unfold applyBinary test
  split
  · rfl
  · simp [BinaryOp.isComparison, applyComparison, ofTruth]

/-- The truth value of all comparisons with the items together. -/
def verdict (positive : Bool) (target : Value) (items : List Value) : Option Bool :=
  if some positive ∈ items.map (test positive target) then some positive
  else if none ∈ items.map (test positive target) then none else some (!positive)

theorem compareAll_eq {op : Connective} (hop : decisive op = positive)
    (each : ∀ item, applyBinary comparison target item = .ok (ofTruth (test positive target item))) :
    compareAll op (!positive) comparison target items =
      .ok (ofTruth (verdict positive target items)) := by
  have run (p : Option Bool) :
      items.foldlM (fun truth item => do
          applyConnective op truth (← applyBinary comparison target item)) (ofTruth p) =
        .ok (ofTruth ((items.map (test positive target)).foldl (connect op) p)) := by
    induction items generalizing p with
    | nil => rfl
    | cons item items ih =>
        rw [List.foldlM_cons, each, List.map_cons, List.foldl_cons, ← ih]
        exact congrArg (· >>= _) (applyConnective_ofTruth op p _)
  refine (run (some !positive)).trans ?_
  rw [foldl_connect, hop, verdict]
  simp

theorem isAnyOf_eq (target : Value) (items : List Value) :
    isAnyOf target items = .ok (ofTruth (verdict true target items)) :=
  compareAll_eq rfl (applyBinary_eq target)

theorem isNoneOf_eq (target : Value) (items : List Value) :
    isNoneOf target items = .ok (ofTruth (verdict false target items)) :=
  compareAll_eq rfl (applyBinary_ne target)

/-- What evaluation answers instead: nothing about NULL, and only what equal items say. -/
def shortVerdict (positive : Bool) (target : Value) (items : List Value) : Option Bool :=
  if target.isNull then none
  else some ((items.any fun item => !item.isNull && target.equals item) == positive)

theorem none_mem_tests : none ∈ items.map (test positive target) ↔
    ∃ item ∈ items, target.isNull = true ∨ item.isNull = true := by
  simp only [List.mem_map, test_eq_none]

theorem positive_mem_tests : some positive ∈ items.map (test positive target) ↔
    target.isNull = false ∧ ∃ item ∈ items, item.isNull = false ∧ target.equals item = true := by
  simp only [List.mem_map, test_eq_positive]
  exact ⟨fun ⟨item, hmem, hnull, hitem⟩ => ⟨hnull, item, hmem, hitem⟩,
    fun ⟨hnull, item, hmem, hitem⟩ => ⟨item, hmem, hnull, hitem⟩⟩

theorem shortVerdict_eq_iff_of_isNull (hnull : target.isNull = true) :
    shortVerdict positive target items = verdict positive target items ↔ items ≠ [] := by
  have hnone : some positive ∉ items.map (test positive target) := by
    simp [positive_mem_tests, hnull]
  rw [shortVerdict, verdict, if_pos hnull, if_neg hnone]
  cases items with
  | nil => simp
  | cons item items =>
      rw [if_pos (none_mem_tests.2 ⟨item, List.mem_cons_self, .inl hnull⟩)]
      simp

theorem shortVerdict_eq_iff_of_not_isNull (hnull : target.isNull = false) :
    shortVerdict positive target items = verdict positive target items ↔
      (∃ item ∈ items, item.isNull = false ∧ target.equals item = true) ∨
        ∀ item ∈ items, item.isNull = false := by
  have hfound : (items.any fun item => !item.isNull && target.equals item) = true ↔
      ∃ item ∈ items, item.isNull = false ∧ target.equals item = true := by
    simp only [List.any_eq_true, Bool.and_eq_true, Bool.not_eq_true']
  rw [shortVerdict, verdict, if_neg (by simp [hnull])]
  by_cases hequal : ∃ item ∈ items, item.isNull = false ∧ target.equals item = true
  · rw [if_pos (positive_mem_tests.2 ⟨hnull, hequal⟩), hfound.2 hequal, Bool.true_beq]
    exact iff_of_true rfl (.inl hequal)
  · rw [if_neg fun h => hequal (positive_mem_tests.1 h).2, Bool.eq_false_iff.2 (hfound.not.2 hequal),
      Bool.false_beq, or_iff_right hequal]
    -- no item is equal, so an item that is NULL makes the difference
    by_cases hunknown : ∃ item ∈ items, item.isNull = true
    · obtain ⟨item, hmem, hitem⟩ := hunknown
      rw [if_pos (none_mem_tests.2 ⟨item, hmem, .inr hitem⟩)]
      exact iff_of_false nofun fun h => by simp [h item hmem] at hitem
    · rw [if_neg fun h => hunknown (by simpa [hnull] using none_mem_tests.1 h)]
      exact iff_of_true rfl fun item hmem =>
        Bool.eq_false_iff.2 fun hitem => hunknown ⟨item, hmem, hitem⟩

/-- The answers are the same where neither a NULL target nor a NULL item matters. -/
theorem shortVerdict_eq_iff :
    shortVerdict positive target items = verdict positive target items ↔ Decided target items := by
  cases hnull : target.isNull with
  | true => rw [shortVerdict_eq_iff_of_isNull hnull, decided_of_isNull hnull]
  | false => rw [shortVerdict_eq_iff_of_not_isNull hnull, decided_of_not_isNull hnull]

end Value

open TypedQuery.Sql

theorem isMember_eq (target v : Value) :
    applyHelper.isMember target v =
      (membersOf v).any fun item => !item.isNull && target.equals item := by
  cases v <;> rfl

theorem applyHelper_isIn (target v other : Value) :
    applyHelper .isIn target v other =
      .ok (.ofTruth (Value.shortVerdict true target (membersOf v))) := by
  rw [applyHelper, Value.shortVerdict]
  split
  · rfl
  · simp [isMember_eq, Value.ofTruth]

theorem applyHelper_notIn (target v other : Value) :
    applyHelper .notIn target v other =
      .ok (.ofTruth (Value.shortVerdict false target (membersOf v))) := by
  rw [applyHelper, Value.shortVerdict]
  split
  · rfl
  · simp [isMember_eq, Value.ofTruth]

namespace Expr

variable {scope : Scope} {log log' log'' : CallLog} {target set : Expr} {t v : Value}

/-- A test with two arguments is decided by their values. -/
theorem outcome_helper {h : PredicateHelper} (two : h.arity = 2)
    (ht : (target.evalIn scope).outcome log = (.ok t, log'))
    (hv : (set.evalIn scope).outcome log' = (.ok v, log'')) :
    ((call (.helper h) [target, set]).evalIn scope).outcome log =
      (Eval.ofValue (applyHelper h t v .null)).outcome log'' := by
  have hargs : (evalArgs scope [target, set]).outcome log = (.ok [t, v], log'') :=
    Eval.outcome_bind_ok.2 ⟨t, log', ht, Eval.outcome_bind_ok.2 ⟨[v], log'',
      Eval.outcome_bind_ok.2 ⟨v, log'', hv, Eval.outcome_bind_ok.2 ⟨[], log'', rfl, rfl⟩⟩, rfl⟩⟩
  rw [evalIn, if_pos (show [target, set].length = h.arity from two.symm), Eval.outcome_bind, hargs]
  rfl

/-- Tests for membership have the truth value that SQL gives them exactly when the set is not empty
for a NULL target, and has an equal item or no NULL for another target. -/
theorem membership_eq_iff_decided
    (ht : (target.evalIn scope).outcome log = (.ok t, log'))
    (hv : (set.evalIn scope).outcome log' = (.ok v, log'')) :
    (((call (.helper .isIn) [target, set]).evalIn scope).outcome log =
        (Eval.ofValue (t.isAnyOf (membersOf v))).outcome log'' ↔ t.Decided (membersOf v)) ∧
    (((call (.helper .notIn) [target, set]).evalIn scope).outcome log =
        (Eval.ofValue (t.isNoneOf (membersOf v))).outcome log'' ↔ t.Decided (membersOf v)) := by
  have compared (p q : Option Bool) :
      (Eval.ofValue (.ok (Value.ofTruth p))).outcome log'' =
        (Eval.ofValue (.ok (Value.ofTruth q))).outcome log'' ↔ p = q := by
    refine ⟨fun h => ?_, fun h => h ▸ rfl⟩
    obtain ⟨h, -⟩ := Prod.mk.inj h
    exact Value.ofTruth_injective (Except.ok.inj h)
  rw [outcome_helper rfl ht hv, outcome_helper rfl ht hv, applyHelper_isIn, applyHelper_notIn,
    Value.isAnyOf_eq, Value.isNoneOf_eq, compared, compared]
  exact ⟨Value.shortVerdict_eq_iff, Value.shortVerdict_eq_iff⟩

/-- The row of an order that is paid. -/
def paidRow : Scope := fun _ _ => some (.text "paid")

def status : Expr := field Demo.order "status"

/-- An equal item decides, with NULL beside it too. -/
theorem paidOrNull_decided :
    (status.evalIn paidRow).outcome [] = (.ok (.text "paid"), []) ∧
    ((call (.helper .isIn) [status, .literal (.list [.null, .text "paid"])]).evalIn paidRow).outcome []
      = (Eval.ofValue ((Value.text "paid").isAnyOf [.null, .text "paid"])).outcome [] := by
  have ht : (status.evalIn paidRow).outcome [] = (.ok (.text "paid"), []) := rfl
  have hv : ((literal (.list [.null, .text "paid"])).evalIn paidRow).outcome [] =
      (.ok (.list [.null, .text "paid"]), []) := rfl
  refine ⟨ht, (membership_eq_iff_decided ht hv).1.2 ⟨nofun, fun _ => .inl ?_⟩⟩
  exact ⟨.text "paid", by simp [membersOf], rfl, by decide⟩

/-- With NULL among the items it is unknown whether a status differs from all of them, but evaluation
says that it does. Nothing is in the empty set, but evaluation leaves that open for NULL. -/
theorem unlisted_not_decided :
    ((call (.helper .notIn) [status, .literal (.list [.text "open", .null])]).evalIn paidRow).outcome []
      = (.ok (.bool true), []) ∧
    (Value.text "paid").isNoneOf [.text "open", .null] = .ok .null ∧
    ((call (.helper .notIn) [.literal .null, .literal (.list [])]).evalIn paidRow).outcome [] =
      (.ok .null, []) ∧
    Value.null.isNoneOf [] = .ok (.bool true) :=
  ⟨rfl, rfl, rfl, rfl⟩

end Expr

end TypedQuery
