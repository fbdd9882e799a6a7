import Mathlib.Data.List.Forall2
import TypedQuery.Demo
import TypedQuery.Proofs.Sql.TwoRuns

/-!
# Constants and their values

A constant may be replaced by its value wherever it stands, and translation does not tell the
difference: it fails for both, or gives one fragment and binds the same values. What encloses the
constant cannot tell it either, whether it is folded with the constant or written around it.

One place is different. A comparison with the constant NULL is written as a test for NULL, which
takes a literal: a constant that happens to have the value NULL is compared with as any other value.
The fragments are then the same but for that comparison, and the parameters are the same.
-/

namespace TypedQuery

theorem forall₂_modify {α : Type} {R : α → α → Prop} {f : α → α} {xs : List α} {i : Nat} {x : α}
    (same : ∀ z ∈ xs, R z z) (hx : xs[i]? = some x) (changed : R x (f x)) :
    List.Forall₂ R xs (xs.modify i f) := by
  induction xs generalizing i with
  | nil => cases hx
  | cons z zs ih =>
      obtain ⟨hz, hzs⟩ := List.forall_mem_cons.1 same
      cases i with
      | zero =>
          obtain rfl := Option.some.inj hx
          exact .cons changed (List.forall₂_same.2 hzs)
      | succ i => exact .cons hz (ih hzs hx)

namespace Expr

/-- The node with another expression as the child at a position. -/
def withChild : Expr → Nat → Expr → Expr
  | comparison op _ r, 0, y => comparison op y r
  | comparison op l _, 1, y => comparison op l y
  | logical op _ r, 0, y => logical op y r
  | logical op l _, 1, y => logical op l y
  | member _ name, 0, y => member y name
  | call f args, i, y => call f (args.modify i fun _ => y)
  | construct target bs, i, y => construct target (bs.modify i fun b => (b.1, y))
  | x, _, _ => x

/-- The tree with another expression in place of the node at a path. -/
def replace (root : Expr) : NodePath → Expr → Expr
  | [], y => y
  | i :: path, y =>
    match root.node? path with
    | some parent => root.replace path (parent.withChild i y)
    | none => root

/-- Is a node written around the fragment of its child at a position, if it can be written? A node
that is bound whole is not, and sets are bound. -/
def WritesChild : Expr → Nat → Prop
  -- A test leaves the literal NULL out, but nothing stands below that.
  | comparison op l r, _ => op.isComparison = true ∨ (comparison op l r).foldable = false
  | logical .., _ => True
  | call (.helper h) args, i => (h = .isIn ∨ h = .notIn) →
    i = 0 ∧ ∀ target set, args = [target, set] → set.constant ≠ .ok (.list [])
  | call (.aggregate _) _, _ => True
  | _, _ => False

/-- Is the fragment of the tree written around that of the node at a path? -/
def Writes (root : Expr) : NodePath → Prop
  | [] => True
  | i :: path => root.Writes path ∧ ∃ parent, root.node? path = some parent ∧ parent.WritesChild i

/-- Is the node at a path an operand of a comparison that is written and would be a test for NULL,
were it the constant NULL itself, and is no such test without it? -/
def DecidesTest (root : Expr) : NodePath → Prop
  | [] => False
  | i :: path => root.Writes path ∧ ∃ op l r, root.node? path = some (.comparison op l r) ∧
    (Sql.nullTest? op).isSome = true ∧ Sql.isNullLiteral (if i = 0 then r else l) = false

/-- Is the constant at a path NULL without being the literal, where the literal is tested for? -/
def ComparesNull (root : Expr) (path : NodePath) (s : Expr) (v : Value) : Prop :=
  v.isNull = true ∧ Sql.isNullLiteral s = false ∧ root.DecidesTest path

theorem gives_fold {x : Expr} {r : Except QueryError Value} (constant : x.foldable = true)
    (h : x.evalConstant.Gives r) : x.fold.Gives (r.map some) := by
  rw [fold, if_pos constant, map_eq_pure_bind,
    show r.map some = r >>= fun v => .ok (some v) from by cases r <;> rfl]
  exact h.bind fun v _ => rfl

theorem gives_fold_none {x : Expr} (reads : x.foldable = false) : x.fold.Gives (.ok none) := by
  intro log
  rw [fold, if_neg (Bool.eq_false_iff.1 reads)]
  rfl

theorem asField?_of_foldable {x : Expr} (constant : x.foldable = true) : x.asField? = none := by
  unfold asField?
  split
  · cases constant
  · rfl

theorem asField?_member_of_ne {x : Expr} (name : String) (h : ∀ e, x ≠ row e) :
    (member x name).asField? = none := by
  cases x with
  | row e => exact (h e rfl).elim
  | _ => rfl

end Expr

namespace Sql

open TypedQuery.Sql.Fragment Translation

/-- A test of an operand for NULL. -/
def tested (c : Context) (x : Expr) (test : String) : Translation Fragment := do
  let f ← translate c x
  return f ++ [.space, .keyword test]

/-- Two operands around an operator. -/
def compared (c : Context) (op : BinaryOp) (l r : Expr) : Translation Fragment := do
  let f ← translate c l
  let g ← translate c r
  return around f (.operator op) g

section

variable {c : Context} {op : BinaryOp} {l r : Expr}

theorem translate_member {t : Expr} (name : String) (h : ∀ e, t ≠ .row e) :
    translate c (.member t name) = (do
      match ← evaluate (Expr.member t name).fold with
      | some v => bindScalar v
      | none => refuse (.unreadableMember name)) := by
  cases t with
  | row e => exact (h e rfl).elim
  | _ => rfl

theorem translate_order (order : op.isComparison = true) :
    translate c (.comparison op l r) = match nullTest? op, isNullLiteral r, isNullLiteral l with
      | some test, true, _ => tested c l test
      | some test, false, true => tested c r test
      | _, _, _ => compared c op l r := by
  rw [translate, if_pos order]
  simp only [pure_bind, order, if_true]
  cases nullTest? op <;> cases isNullLiteral r <;> cases isNullLiteral l <;> rfl

theorem translate_arithmetic (arithmetic : op.isComparison = false) :
    translate c (.comparison op l r) = (do
      match ← evaluate (Expr.comparison op l r).fold with
      | some v => bindScalar v
      | none => parens <$> compared c op l r) := by
  rw [translate, if_neg (Bool.eq_false_iff.1 arithmetic), nullTest?_of_not_isComparison arithmetic]
  refine bind_congr fun constant => ?_
  cases constant <;> simp [compared, arithmetic]

/-- A form that is bound whole is evaluated first, and what it is evaluated to is bound. -/
theorem exists_translate_of_bindsWhole {x : Expr} (form : bindsWhole x) :
    ∃ next, translate c x = evaluate x.fold >>= next ∧ ∀ v, next (some v) = bindScalar v := by
  cases x with
  | member t name =>
      cases t with
      | row e => cases form
      | _ => exact ⟨_, rfl, fun _ => rfl⟩
  | comparison op l r => exact ⟨_, translate_arithmetic form, fun _ => rfl⟩
  | call f args =>
      cases f with
      | accessor a => exact ⟨_, rfl, fun _ => rfl⟩
      | _ => cases form
  | _ => cases form

end

/-- A comparison of an operand with NULL, and the test of that operand for NULL. The operand stands
beside the node at a path. -/
inductive TestedInstead (c : Context) (root : Expr) : NodePath → Fragment → Fragment → Prop
  | right {path op s x test b f} (parent : root.node? path = some (.comparison op s x))
      (word : nullTest? op = some test) (operand : ((translate c x).run b).1 = .ok f) :
      TestedInstead c root (0 :: path) (around [.keyword "NULL"] (.operator op) f)
        (f ++ [.space, .keyword test])
  | left {path op s x test b f} (parent : root.node? path = some (.comparison op x s))
      (word : nullTest? op = some test) (operand : ((translate c x).run b).1 = .ok f) :
      TestedInstead c root (1 :: path) (around f (.operator op) [.keyword "NULL"])
        (f ++ [.space, .keyword test])

/-- The test is shorter. -/
theorem TestedInstead.length {c : Context} {root : Expr} {path : NodePath} {f g : Fragment}
    (h : TestedInstead c root path f g) : f.length = g.length + 2 := by
  cases h <;> simp [around]

theorem ne_of_apartOnce {c : Context} {root : Expr} {path : NodePath} {f g : Fragment}
    (h : ApartOnce (TestedInstead c root path) f g) : f ≠ g := by
  obtain ⟨before, p, q, after, test, rfl, rfl⟩ := h
  intro heq
  have length := congrArg List.length heq
  simp only [List.length_append, test.length] at length
  omega

variable {c : Context} {R : Fragment → Fragment → Prop} {k m n : Nat} {op : BinaryOp}
variable {x y l l' r r' : Expr}

/-- Both expressions are constants with one value, or one fault, or neither is a constant. -/
structure FoldAlike (x y : Expr) : Prop where
  foldable : x.foldable = y.foldable
  constant : x.foldable = true → ∃ r, x.evalConstant.Gives r ∧ y.evalConstant.Gives r

namespace FoldAlike

theorem folds (h : FoldAlike x y) : ∃ r, x.fold.Gives r ∧ y.fold.Gives r := by
  cases hx : x.foldable with
  | false => exact ⟨_, Expr.gives_fold_none hx, Expr.gives_fold_none (h.foldable ▸ hx)⟩
  | true =>
      obtain ⟨r, gx, gy⟩ := h.constant hx
      exact ⟨_, Expr.gives_fold hx gx, Expr.gives_fold (h.foldable ▸ hx) gy⟩

/-- Neither is a constant. -/
theorem ofReads (hx : x.foldable = false) (hy : y.foldable = false) : FoldAlike x y where
  foldable := hx.trans hy.symm
  constant h := by
    rw [hx] at h
    cases h

theorem member (h : FoldAlike x y) (name : String) :
    FoldAlike (.member x name) (.member y name) where
  foldable := h.foldable
  constant hx := by
    obtain ⟨r, gx, gy⟩ := h.constant hx
    have step (v : Value) := Eval.gives_ofValue (v.member name)
    exact ⟨_, gx.bind step, gy.bind step⟩

/-- Nodes with two operands that are evaluated in turn. -/
theorem operands {f g : Expr} {apply : Value → Value → Except EvaluationError Value}
    (hl : FoldAlike l l') (hr : FoldAlike r r') (foldF : f.foldable = (l.foldable && r.foldable))
    (foldG : g.foldable = (l'.foldable && r'.foldable))
    (evalF : f.evalConstant = do
      let a ← l.evalConstant
      let b ← r.evalConstant
      Eval.ofValue (apply a b))
    (evalG : g.evalConstant = do
      let a ← l'.evalConstant
      let b ← r'.evalConstant
      Eval.ofValue (apply a b)) : FoldAlike f g where
  foldable := by rw [foldF, foldG, hl.foldable, hr.foldable]
  constant h := by
    obtain ⟨constantLeft, constantRight⟩ := Bool.and_eq_true_iff.1 (foldF ▸ h)
    obtain ⟨p, gl, gl'⟩ := hl.constant constantLeft
    obtain ⟨q, gr, gr'⟩ := hr.constant constantRight
    have step (a b : Value) := Eval.gives_ofValue (apply a b)
    rw [evalF, evalG]
    exact ⟨_, gl.bind fun a => gr.bind (step a), gl'.bind fun a => gr'.bind (step a)⟩

theorem comparison (op : BinaryOp) (hl : FoldAlike l l') (hr : FoldAlike r r') :
    FoldAlike (.comparison op l r) (.comparison op l' r') :=
  operands hl hr rfl rfl rfl rfl

theorem logical (op : Connective) (hl : FoldAlike l l') (hr : FoldAlike r r') :
    FoldAlike (.logical op l r) (.logical op l' r') :=
  operands hl hr rfl rfl rfl rfl

/-- An accessor with arguments is no constant, one without is called. -/
theorem accessor {a : Accessor} (pure : a.Pure) {xs ys : List Expr}
    (empty : xs.isEmpty = ys.isEmpty) :
    FoldAlike (.call (.accessor a) xs) (.call (.accessor a) ys) where
  foldable := empty
  constant _ :=
    have answer (log : CallLog) : ((Eval.callAccessor a).outcome log).1 = .ok (a.read []) :=
      congrArg Except.ok (pure log [])
    ⟨_, answer, answer⟩

/-- What is bound whole is bound to one value for both. -/
theorem matches_whole (h : FoldAlike x y) (cause cause' : Unsupported) :
    Matches Eq
      (do match ← evaluate x.fold with
          | some v => bindScalar v
          | none => refuse cause)
      (do match ← evaluate y.fold with
          | some v => bindScalar v
          | none => refuse cause') := by
  obtain ⟨r, gx, gy⟩ := h.folds
  refine (matches_evaluate gx gy).bind ?_
  rintro v _ ⟨rfl, -⟩
  cases v with
  | none => exact matches_refuse _ _
  | some v => exact matches_bindScalar v

/-- Sets with one value have the same items, and none of them when the value is the empty list. -/
theorem matches_setItems (h : FoldAlike x y) (pure : x.Pure) :
    Matches (fun vs ws => vs = ws ∧ (vs = [] ↔ x.constant = .ok (.list [])))
      (Context.setItems x) (Context.setItems y) := by
  unfold Context.setItems
  obtain ⟨r, gx, gy⟩ := h.folds
  refine (matches_evaluate gx gy).bind ?_
  rintro found _ ⟨rfl, value⟩
  cases found with
  | none => exact matches_refuse _ _
  | some v =>
      have constant : x.constant = .ok v := by
        have hfold := gx []
        rw [value] at hfold
        obtain ⟨-, hv⟩ := Expr.outcome_fold_some.1 (Prod.ext hfold rfl : x.fold.outcome [] = (_, _))
        rw [← Expr.gives_evalConstant x pure [], hv]
      cases v with
      | list items => exact matches_pure ⟨rfl, by simp [constant]⟩
      | _ => exact matches_pure ⟨rfl, by simp [constant]⟩

end FoldAlike

/-- The expressions fold alike and are translated alike. The fragments differ in a number of places
only. -/
structure Exchanges (c : Context) (R : Fragment → Fragment → Prop) (n : Nat) (x y : Expr) : Prop
    extends FoldAlike x y where
  row : ∀ e, x = .row e ↔ y = .row e
  field : x.asField? = y.asField?
  fragment : Matches (Places R n) (translate c x) (translate c y)

/-- Both are the literal NULL, which has no place to differ in, or neither is. -/
structure NullAlike (n : Nat) (x y : Expr) : Prop where
  literal : isNullLiteral x = isNullLiteral y
  places : isNullLiteral x = true → n = 0

theorem isNullLiteral_literal (v : Value) : isNullLiteral (.literal v) = v.isNull := by
  cases v <;> rfl

theorem NullAlike.refl (x : Expr) : NullAlike 0 x x := ⟨rfl, fun _ => rfl⟩

/-- What has operands is no literal. -/
theorem nullAlike_withChild {parent : Expr} {i : Nat} (hx : parent.children[i]? = some x)
    (y : Expr) : NullAlike n parent (parent.withChild i y) := by
  cases parent with
  | literal v | row e => cases hx
  | comparison op l r | logical op l r =>
      refine ⟨?_, fun null => by cases null⟩
      rcases i with _ | _ | i <;> rfl
  | member t name =>
      refine ⟨?_, fun null => by cases null⟩
      rcases i with _ | i <;> rfl
  | call f args | construct target bs => exact ⟨rfl, fun null => by cases null⟩

namespace Exchanges

theorem count (h : Exchanges c R m x y) (heq : n = m) : Exchanges c R n x y := heq ▸ h

theorem member (h : Exchanges c R n x y) (name : String) :
    Exchanges c R 0 (.member x name) (.member y name) := by
  have fold := h.toFoldAlike.member name
  by_cases hx : ∃ e, x = .row e
  · obtain ⟨e, rfl⟩ := hx
    obtain rfl := (h.row e).1 rfl
    exact ⟨fold, fun _ => Iff.rfl, rfl, (matches_column c e name).same⟩
  · have left : ∀ e, x ≠ .row e := fun e he => hx ⟨e, he⟩
    have right : ∀ e, y ≠ .row e := fun e he => hx ⟨e, (h.row e).2 he⟩
    refine ⟨fold, fun _ => by simp, ?_, ?_⟩
    · rw [Expr.asField?_member_of_ne name left, Expr.asField?_member_of_ne name right]
    · rw [translate_member name left, translate_member name right]
      exact (fold.matches_whole _ _).same

theorem logical (op : Connective) (hl : Exchanges c R m l l') (hr : Exchanges c R n r r') :
    Exchanges c R (m + n) (.logical op l r) (.logical op l' r') where
  toFoldAlike := hl.toFoldAlike.logical op hr.toFoldAlike
  row _ := by simp
  field := rfl
  fragment := hl.fragment.bind fun _ _ hf => hr.fragment.bind fun _ _ hg =>
    matches_pure (hf.parens.around _ hg.parens)

theorem compared (op : BinaryOp) (hl : Exchanges c R m l l') (hr : Exchanges c R n r r') :
    Matches (Places R (m + n)) (compared c op l r) (Sql.compared c op l' r') :=
  hl.fragment.bind fun _ _ hf => hr.fragment.bind fun _ _ hg => matches_pure (hf.around _ hg)

theorem tested (h : Exchanges c R n x y) (test : String) :
    Matches (Places R n) (tested c x test) (Sql.tested c y test) :=
  h.fragment.bind fun _ _ hf => matches_pure (hf.append .same)

/-- The same test is written for both, or none. -/
theorem order (order : op.isComparison = true) (hl : Exchanges c R m l l')
    (hr : Exchanges c R n r r')
    (nulls : nullTest? op = none ∨ NullAlike m l l' ∧ NullAlike n r r') :
    Exchanges c R (m + n) (.comparison op l r) (.comparison op l' r') where
  toFoldAlike := hl.toFoldAlike.comparison op hr.toFoldAlike
  row _ := by simp
  field := rfl
  fragment := by
    rw [translate_order order, translate_order order]
    have whole := compared op hl hr
    rcases nulls with noTest | ⟨left, right⟩
    · rw [noTest]
      exact whole
    rw [← left.literal, ← right.literal]
    rcases nullTest? op with _ | test
    · exact whole
    cases nullRight : isNullLiteral r with
    | true =>
        obtain rfl := right.places nullRight
        exact hl.tested test
    | false =>
        cases nullLeft : isNullLiteral l with
        | true =>
            obtain rfl := left.places nullLeft
            rw [Nat.zero_add]
            exact hr.tested test
        | false => exact whole

/-- Where an operation is a constant its operands are not written. -/
theorem arithmetic (arithmetic : op.isComparison = false) (hl : Exchanges c R m l l')
    (hr : Exchanges c R n r r') (reads : (Expr.comparison op l r).foldable = false → k = m + n)
    (constant : (Expr.comparison op l r).foldable = true → k = 0) :
    Exchanges c R k (.comparison op l r) (.comparison op l' r') := by
  have fold := hl.toFoldAlike.comparison op hr.toFoldAlike
  refine ⟨fold, fun _ => by simp, rfl, ?_⟩
  rw [translate_arithmetic arithmetic, translate_arithmetic arithmetic]
  obtain ⟨p, gx, gy⟩ := fold.folds
  refine (matches_evaluate gx gy).bind ?_
  rintro found _ ⟨rfl, rfl⟩
  have outcome : (Expr.comparison op l r).fold.outcome [] = (.ok found, _) := Prod.ext (gx []) rfl
  cases found with
  | some v =>
      obtain rfl := constant (Expr.outcome_fold_some.1 outcome).1
      exact (matches_bindScalar v).same
  | none =>
      obtain rfl := reads (Expr.outcome_fold_none.1 outcome).1
      simp only [map_eq_pure_bind]
      exact (compared op hl hr).bind fun _ _ h => matches_pure h.parens

/-- Forms that are no constants and read no field. -/
theorem ofReads (fold : FoldAlike x y) (hx : x.asField? = none ∧ ∀ e, x ≠ .row e)
    (hy : y.asField? = none ∧ ∀ e, y ≠ .row e)
    (fragment : Matches (Places R n) (translate c x) (translate c y)) :
    Exchanges c R n x y where
  toFoldAlike := fold
  row e := ⟨fun h => (hx.2 e h).elim, fun h => (hy.2 e h).elim⟩
  field := hx.1.trans hy.1.symm
  fragment := fragment

variable {xs ys : List Expr} {t t' u u' v v' : Expr} {h : PredicateHelper} {i : Nat}

/-- A call of a helper that has too few or too many arguments is refused. -/
theorem matches_arity {T : Fragment → Fragment → Prop} (h : PredicateHelper)
    (left : xs.length ≠ h.arity) (right : ys.length ≠ h.arity) :
    Matches T (translate c (.call (.helper h) xs)) (translate c (.call (.helper h) ys)) := by
  intro b b' _
  rcases first : (translate c (.call (.helper h) xs)).run b with ⟨e | f, b₁⟩
  · rcases second : (translate c (.call (.helper h) ys)).run b' with ⟨e' | g, b₁'⟩
    · exact .error
    · exact (right (length_of_run_helper second)).elim
  · exact (left (length_of_run_helper first)).elim

theorem matches_between (ht : Exchanges c R k t t') (hu : Exchanges c R m u u')
    (hv : Exchanges c R n v v') : Matches (Places R (k + m + n))
      (translate c (.call (.helper .between) [t, u, v]))
      (translate c (.call (.helper .between) [t', u', v'])) := by
  refine (matches_checkHelper c .between rfl).after fun _ => ?_
  refine ht.fragment.bind fun _ _ hf => hu.fragment.bind fun _ _ hg => ?_
  exact hv.fragment.bind fun _ _ hk => matches_pure ((hf.around _ hg).around _ hk).parens

theorem matches_like (ht : Exchanges c R m t t') (hu : Exchanges c R n u u') :
    Matches (Places R (m + n)) (translate c (.call (.helper .like) [t, u]))
      (translate c (.call (.helper .like) [t', u'])) := by
  refine (matches_checkHelper c .like rfl).after fun _ => ?_
  exact ht.fragment.bind fun _ _ hf => hu.fragment.bind fun _ _ hg =>
    matches_pure (hf.around _ hg).parens

/-- The set is bound, and the target is not written beside an empty one. -/
theorem matches_membership (membership : h = .isIn ∨ h = .notIn) (pure : u.Pure)
    (empty : u.constant = .ok (.list []) → n = 0)
    (filled : u.constant ≠ .ok (.list []) → Exchanges c R n t t') (set : FoldAlike u u') :
    Matches (Places R n) (translate c (.call (.helper h) [t, u]))
      (translate c (.call (.helper h) [t', u'])) := by
  rw [translate_membership membership, translate_membership membership]
  refine (matches_checkHelper c h rfl).after fun _ => ?_
  refine (set.matches_setItems pure).bind ?_
  rintro items _ ⟨rfl, none⟩
  split
  · rename_i noItem
    obtain rfl := empty (none.1 (List.isEmpty_iff.1 noItem))
    exact matches_pure .same
  · rename_i some
    have ht := filled fun noItem => some (List.isEmpty_iff.2 (none.2 noItem))
    refine ht.fragment.bind fun _ _ hf => (matches_bindAll items).after fun gs => ?_
    exact matches_pure ((hf.around _ .same).append .same).parens

/-- Arguments exchange where they are written, and only one of them has places to differ in. -/
theorem matches_helper (h : PredicateHelper) (sets : ∀ x ∈ xs, x.Pure)
    (fold : List.Forall₂ FoldAlike xs ys) (outside : xs.length ≤ i → n = 0)
    (each : ∀ (j : Nat) x y, xs[j]? = some x → ys[j]? = some y →
      (Expr.call (.helper h) xs).WritesChild j → Exchanges c R (if j = i then n else 0) x y)
    (written : (Expr.call (.helper h) xs).WritesChild i → k = n)
    (bound : ¬ (Expr.call (.helper h) xs).WritesChild i → k = 0) :
    Matches (Places R k) (translate c (.call (.helper h) xs))
      (translate c (.call (.helper h) ys)) := by
  by_cases arity : xs.length = h.arity
  swap
  · exact matches_arity h arity (fold.length_eq ▸ arity)
  rw [arity] at outside
  cases h with
  | between =>
      obtain ⟨t, u, v, rfl⟩ := List.length_eq_three.1 arity
      obtain ⟨t', u', v', rfl⟩ := List.length_eq_three.1 (fold.length_eq ▸ arity)
      have noSet {i : Nat} : (Expr.call (.helper .between) [t, u, v]).WritesChild i :=
        fun membership => by simp at membership
      have ht := each 0 t t' rfl rfl noSet
      have hu := each 1 u u' rfl rfl noSet
      have hv := each 2 v v' rfl rfl noSet
      have total : k = (if 0 = i then n else 0) + (if 1 = i then n else 0) +
          if 2 = i then n else 0 := by
        have whole : k = n := written noSet
        have outside : 3 ≤ i → n = 0 := outside
        split_ifs <;> omega
      exact total ▸ matches_between ht hu hv
  | like =>
      obtain ⟨t, u, rfl⟩ := List.length_eq_two.1 arity
      obtain ⟨t', u', rfl⟩ := List.length_eq_two.1 (fold.length_eq ▸ arity)
      have noSet {i : Nat} : (Expr.call (.helper .like) [t, u]).WritesChild i :=
        fun membership => by simp at membership
      have total : k = (if 0 = i then n else 0) + if 1 = i then n else 0 := by
        have whole : k = n := written noSet
        have outside : 2 ≤ i → n = 0 := outside
        split_ifs <;> omega
      exact total ▸ matches_like (each 0 t t' rfl rfl noSet) (each 1 u u' rfl rfl noSet)
  | isIn | notIn =>
      obtain ⟨t, u, rfl⟩ := List.length_eq_two.1 arity
      obtain ⟨t', u', rfl⟩ := List.length_eq_two.1 (fold.length_eq ▸ arity)
      obtain _ | ⟨-, _ | ⟨set, -⟩⟩ := fold
      have target (nonempty : u.constant ≠ .ok (.list [])) (target set : Expr)
          (heq : [t, u] = [target, set]) : set.constant ≠ .ok (.list []) := by
        obtain ⟨rfl, rfl⟩ : t = target ∧ u = set := by simpa using heq
        exact nonempty
      refine matches_membership (by simp) (sets u (by simp)) ?_ ?_ set
      · exact fun empty => bound fun writes => (writes (by simp)).2 t u rfl empty
      · intro nonempty
        have ht := each 0 t t' rfl rfl fun _ => ⟨rfl, target nonempty⟩
        by_cases first : 0 = i
        · rw [if_pos first] at ht
          exact ht.count (written fun _ => ⟨first.symm, target nonempty⟩)
        · rw [if_neg first] at ht
          exact ht.count (bound fun writes => first (writes (by simp)).1.symm)

theorem matches_aggregate (a : Aggregate) (fold : List.Forall₂ FoldAlike xs ys)
    (outside : xs.length ≤ i → n = 0)
    (each : ∀ (j : Nat) x y, xs[j]? = some x → ys[j]? = some y →
      Exchanges c R (if j = i then n else 0) x y) :
    Matches (Places R n) (translate c (.call (.aggregate a) xs))
      (translate c (.call (.aggregate a) ys)) := by
  cases fold with
  | nil =>
      obtain rfl := outside (Nat.zero_le _)
      cases a with
      | count =>
          rw [translate]
          split
          · exact matches_refuse _ _
          · exact matches_pure .same
      | _ =>
          rw [translate.eq_14 c _ _ (by simp) (by simp)]
          split <;> exact matches_refuse _ _
  | cons _ rest =>
      cases rest with
      | nil =>
          rw [translate, translate]
          split
          · exact matches_refuse _ _
          · have total : n = if 0 = i then n else 0 := by
              have outside : 1 ≤ i → n = 0 := outside
              split_ifs <;> omega
            have argument := (each 0 _ _ rfl rfl).count total
            exact argument.fragment.bind fun _ _ hf => matches_pure (.aggregateOf a hf)
      | cons _ _ =>
          rw [translate.eq_14 c _ _ (by simp) (by simp), translate.eq_14 c _ _ (by simp) (by simp)]
          split <;> exact matches_refuse _ _

theorem call (f : Function) (pure : (Expr.call f xs).Pure) (fold : List.Forall₂ FoldAlike xs ys)
    (outside : xs.length ≤ i → n = 0)
    (each : ∀ (j : Nat) x y, xs[j]? = some x → ys[j]? = some y → (Expr.call f xs).WritesChild j →
      Exchanges c R (if j = i then n else 0) x y)
    (written : (Expr.call f xs).WritesChild i → k = n)
    (bound : ¬ (Expr.call f xs).WritesChild i → k = 0) :
    Exchanges c R k (.call f xs) (.call f ys) := by
  have shape (zs : List Expr) :
      (Expr.call f zs).asField? = none ∧ ∀ e, Expr.call f zs ≠ .row e := ⟨rfl, fun _ => by simp⟩
  have empty : xs.isEmpty = ys.isEmpty := by cases fold <;> rfl
  cases f with
  | helper h =>
      refine .ofReads (.ofReads rfl rfl) (shape xs) (shape ys) ?_
      exact matches_helper h (fun x hx => pure.child hx) fold outside each written bound
  | aggregate a =>
      obtain rfl := written trivial
      refine .ofReads (.ofReads rfl rfl) (shape xs) (shape ys) ?_
      exact matches_aggregate a fold outside fun j x y hx hy => each j x y hx hy trivial
  | accessor a =>
      obtain rfl := bound id
      have accessor := FoldAlike.accessor (pure a xs (Expr.self_mem_nodes _)) empty
      refine .ofReads accessor (shape xs) (shape ys) ?_
      exact (accessor.matches_whole _ _).same
  | named name =>
      exact .ofReads (.ofReads rfl rfl) (shape xs) (shape ys) (matches_refuse _ _)

theorem construct (target : Entity) {bs bs' : List (String × Expr)}
    (sources : List.Forall₂ (fun p q => p.1 = q.1 ∧ p.2.asField? = q.2.asField?) bs bs') :
    Exchanges c R 0 (.construct target bs) (.construct target bs') := by
  refine .ofReads (.ofReads rfl rfl) ⟨rfl, fun _ => by simp⟩ ⟨rfl, fun _ => by simp⟩ ?_
  exact (matches_projection c target sources).same

theorem literal (v : Value) : Exchanges c R 0 (.literal v) (.literal v) := by
  have fold : FoldAlike (.literal v) (.literal v) :=
    ⟨rfl, fun _ => ⟨.ok v, fun _ => rfl, fun _ => rfl⟩⟩
  refine .ofReads fold ⟨rfl, fun _ => by simp⟩ ⟨rfl, fun _ => by simp⟩ ?_
  cases v with
  | list items => exact matches_refuse _ _
  | _ => exact (matches_bind _).same

mutual

/-- The log does not matter to an expression whose accessors are pure. -/
theorem refl (c : Context) : (x : Expr) → x.Pure → Exchanges c R 0 x x
  | .literal v, _ => literal v
  | .row e, _ => ⟨.ofReads rfl rfl, fun _ => Iff.rfl, rfl, matches_refuse _ _⟩
  | .member t name, pure => (refl c t (pure.child (by simp [Expr.children]))).member name
  | .comparison op l r, pure => by
      have hl := refl c l (pure.child (by simp [Expr.children]))
      have hr := refl c r (pure.child (by simp [Expr.children]))
      cases hop : op.isComparison with
      | true => exact order hop hl hr (.inr ⟨.refl l, .refl r⟩)
      | false => exact arithmetic hop hl hr (fun _ => rfl) fun _ => rfl
  | .logical op l r, pure =>
      logical op (refl c l (pure.child (by simp [Expr.children])))
        (refl c r (pure.child (by simp [Expr.children])))
  | .call f args, pure => by
      have each := refl_args c args fun x hx => pure.child hx
      have fold := List.forall₂_same.2 fun x hx => (each x hx).toFoldAlike
      refine call (i := 0) (n := 0) f pure fold (fun _ => rfl) ?_ (fun _ => rfl) fun _ => rfl
      intro j x y hx hy _
      obtain rfl := Option.some.inj (hx.symm.trans hy)
      exact (each x (List.mem_of_getElem? hx)).count (ite_self 0)
  | .construct target bs, _ => construct target (List.forall₂_same.2 fun _ _ => ⟨rfl, rfl⟩)

theorem refl_args (c : Context) : (xs : List Expr) → (∀ x ∈ xs, x.Pure) →
    ∀ x ∈ xs, Exchanges c R 0 x x
  | [], _ => by simp
  | x :: xs, pure => by
      obtain ⟨hx, hxs⟩ := List.forall_mem_cons.1 pure
      exact List.forall_mem_cons.2 ⟨refl c x hx, refl_args c xs hxs⟩

end

/-- A constant exchanges with its value. A list is refused for both. -/
theorem ofConstant (pure : x.Pure) (form : (∃ v, x = .literal v) ∨ bindsWhole x)
    (constant : x.foldable = true) {v : Value} (value : x.constant = .ok v) :
    Exchanges c R 0 x (.literal v) := by
  rcases form with ⟨w, rfl⟩ | form
  · obtain rfl := Except.ok.inj value
    exact literal w
  have gives := Expr.gives_evalConstant x pure
  rw [value] at gives
  refine .ofReads ⟨constant, fun _ => ⟨.ok v, gives, fun _ => rfl⟩⟩ ⟨?_, ?_⟩ ⟨rfl, by simp⟩ ?_
  · exact Expr.asField?_of_foldable constant
  · rintro e rfl
    cases constant
  · obtain ⟨next, htranslate, bound⟩ := exists_translate_of_bindsWhole (c := c) form
    rw [htranslate]
    refine Matches.evaluated (Expr.gives_fold constant gives) ?_
    rw [bound]
    cases v with
    | list items => exact matches_refuse _ _
    | _ => exact (matches_bind _).same

/-- What encloses an expression exchanges when the expression does. It differs in as many places
where it is written around the expression, and in none elsewhere. A comparison must not become a
test for NULL, or stop being one. -/
theorem withChild {parent : Expr} {i : Nat} (pure : parent.Pure)
    (hx : parent.children[i]? = some x) (h : Exchanges c R n x y)
    (nulls : NullAlike n x y ∨ ∀ op l r, parent = .comparison op l r → nullTest? op = none)
    (written : parent.WritesChild i → k = n) (bound : ¬ parent.WritesChild i → k = 0) :
    Exchanges c R k parent (parent.withChild i y) := by
  have child {z : Expr} (hz : z ∈ parent.children) : Exchanges c R 0 z z :=
    refl c z (pure.child hz)
  cases parent with
  | literal v | row e => cases hx
  | member t name =>
      obtain ⟨rfl, rfl⟩ : i = 0 ∧ t = x := by
        rcases i with _ | i
        · exact ⟨rfl, Option.some.inj hx⟩
        · cases hx
      exact (h.member name).count (bound id)
  | logical op l r =>
      have hl : Exchanges c R 0 l l := child (by simp [Expr.children])
      have hr : Exchanges c R 0 r r := child (by simp [Expr.children])
      have whole : k = n := written trivial
      rcases i with _ | _ | i
      · obtain rfl := Option.some.inj hx
        exact (logical op h hr).count whole
      · obtain rfl := Option.some.inj hx
        exact (logical op hl h).count (whole.trans (Nat.zero_add n).symm)
      · cases hx
  | comparison op l r =>
      have hl : Exchanges c R 0 l l := child (by simp [Expr.children])
      have hr : Exchanges c R 0 r r := child (by simp [Expr.children])
      have operands {p q : Nat} {l' r' : Expr} (total : n = p + q) (hl' : Exchanges c R p l l')
          (hr' : Exchanges c R q r r')
          (alike : nullTest? op = none ∨ NullAlike p l l' ∧ NullAlike q r r') :
          Exchanges c R k (.comparison op l r) (.comparison op l' r') := by
        cases hop : op.isComparison with
        | true => exact (order hop hl' hr' alike).count ((written (.inl hop)).trans total)
        | false =>
            refine arithmetic hop hl' hr' (fun reads => (written (.inr reads)).trans total) ?_
            intro constant
            refine bound ?_
            rintro (order | reads)
            · rw [hop] at order
              cases order
            · rw [constant] at reads
              cases reads
      have noTest := nulls.symm.imp_left fun none => none op l r rfl
      rcases i with _ | _ | i
      · obtain rfl := Option.some.inj hx
        exact operands rfl h hr (noTest.imp_right fun alike => ⟨alike, .refl r⟩)
      · obtain rfl := Option.some.inj hx
        exact operands (Nat.zero_add n).symm hl h (noTest.imp_right fun alike => ⟨.refl l, alike⟩)
      · cases hx
  | call f args =>
      have each : ∀ z ∈ args, Exchanges c R 0 z z := fun z hz => child hz
      have fold := forall₂_modify (f := fun _ => y) (fun z hz => (each z hz).toFoldAlike) hx
        h.toFoldAlike
      have present : i < args.length := (List.getElem?_eq_some_iff.1 hx).1
      refine call f pure fold (fun outside => absurd present (Nat.not_lt_of_le outside)) ?_
        written bound
      intro j z w hz hw _
      rw [List.getElem?_modify, hz] at hw
      obtain rfl : (if i = j then y else z) = w := Option.some.inj hw
      by_cases heq : i = j
      · subst heq
        obtain rfl := Option.some.inj (hx.symm.trans hz)
        rw [if_pos rfl, if_pos rfl]
        exact h
      · rw [if_neg heq, if_neg (Ne.symm heq)]
        exact each z (List.mem_of_getElem? hz)
  | construct target bs =>
      rw [Expr.children, List.getElem?_map] at hx
      obtain ⟨⟨name, z⟩, hz, rfl⟩ := Option.map_eq_some_iff.1 hx
      refine count ?_ (bound id)
      exact construct target (forall₂_modify (fun _ _ => ⟨rfl, rfl⟩) hz ⟨rfl, h.field⟩)

/-- What folds to NULL is written as the keyword. -/
theorem matches_null (h : Exchanges c R 0 x (.literal .null)) :
    Matches (fun f _ => f = [.keyword "NULL"]) (translate c x) (pure [.keyword "NULL"]) := by
  intro b b' start
  have ends : EndAlike (Places R 0) ((translate c x).run b) (.ok [.keyword "NULL"], b') :=
    h.fragment start
  generalize (translate c x).run b = out at ends ⊢
  cases ends with
  | ok same states => exact .ok (same.eq rfl) states

/-- On the left of a comparison NULL makes a test of it, unless it is one without. -/
theorem nullLeft {test : String} (word : nullTest? op = some test)
    (h : Exchanges c R 0 x (.literal .null)) (constant : isNullLiteral x = false)
    (hr : Exchanges c R 0 r r) (null : isNullLiteral r = true → n = 0)
    (other : isNullLiteral r = false → n = 1)
    (apart : ∀ b f, ((translate c r).run b).1 = .ok f →
      R (around [.keyword "NULL"] (.operator op) f) (f ++ [.space, .keyword test])) :
    Exchanges c R n (.comparison op x r) (.comparison op (.literal .null) r) where
  toFoldAlike := h.toFoldAlike.comparison op hr.toFoldAlike
  row _ := by simp
  field := rfl
  fragment := by
    have order := isComparison_of_nullTest word
    rw [translate_order order, translate_order order, word, constant,
      show isNullLiteral (.literal .null) = true from rfl]
    cases literal : isNullLiteral r with
    | true =>
        obtain rfl := null literal
        exact h.tested test
    | false =>
        obtain rfl := other literal
        show Matches _ (Sql.compared c op x r)
          ((pure [.keyword "NULL"] : Translation Fragment) >>= fun _ => Sql.tested c r test)
        refine h.matches_null.bind fun f _ hf => hr.fragment.told.bind fun g g' told => ?_
        obtain ⟨same, b, operand⟩ := told
        obtain rfl := same.eq rfl
        subst hf
        exact matches_pure (.place (apart b g operand))

theorem nullRight {test : String} (word : nullTest? op = some test)
    (h : Exchanges c R 0 x (.literal .null)) (constant : isNullLiteral x = false)
    (hl : Exchanges c R 0 l l) (null : isNullLiteral l = true → n = 0)
    (other : isNullLiteral l = false → n = 1)
    (apart : ∀ b f, ((translate c l).run b).1 = .ok f →
      R (around f (.operator op) [.keyword "NULL"]) (f ++ [.space, .keyword test])) :
    Exchanges c R n (.comparison op l x) (.comparison op l (.literal .null)) where
  toFoldAlike := hl.toFoldAlike.comparison op h.toFoldAlike
  row _ := by simp
  field := rfl
  fragment := by
    have order := isComparison_of_nullTest word
    rw [translate_order order, translate_order order, word, constant,
      show isNullLiteral (.literal .null) = true from rfl]
    cases literal : isNullLiteral l with
    | true =>
        obtain rfl := null literal
        obtain rfl := eq_null_of_isNullLiteral literal
        exact h.tested test
    | false =>
        obtain rfl := other literal
        refine hl.fragment.told.bind fun g g' told => ?_
        obtain ⟨same, b, operand⟩ := told
        obtain rfl := same.eq rfl
        show Matches _ _ ((pure [.keyword "NULL"] : Translation Fragment) >>= fun _ =>
          pure (g ++ [.space, .keyword test]))
        refine h.matches_null.bind fun f _ hf => ?_
        subst hf
        exact matches_pure (.place (apart b g operand))

/-- A constant NULL and the literal as operands of a comparison that would be a test of the literal.
Beside the literal itself nothing changes. -/
theorem withNull {root : Expr} {path : NodePath} {i : Nat} {test : String}
    (hparent : root.node? path = some (.comparison op l r)) (pure : (Expr.comparison op l r).Pure)
    (word : nullTest? op = some test) (hx : (Expr.comparison op l r).children[i]? = some x)
    (constant : isNullLiteral x = false)
    (h : Exchanges c (TestedInstead c root (i :: path)) 0 x (.literal .null))
    (null : isNullLiteral (if i = 0 then r else l) = true → n = 0)
    (other : isNullLiteral (if i = 0 then r else l) = false → n = 1) :
    Exchanges c (TestedInstead c root (i :: path)) n (.comparison op l r)
      ((Expr.comparison op l r).withChild i (.literal .null)) := by
  have refl {z : Expr} (hz : z ∈ (Expr.comparison op l r).children) :
      Exchanges c (TestedInstead c root (i :: path)) 0 z z := refl c z (pure.child hz)
  rcases i with _ | _ | i
  · obtain rfl := Option.some.inj hx
    have hr := refl (z := r) (by simp [Expr.children])
    exact nullLeft word h constant hr null other fun b f => .right hparent word
  · obtain rfl := Option.some.inj hx
    have hl := refl (z := l) (by simp [Expr.children])
    exact nullRight word h constant hl null other fun b f => .left hparent word
  · cases hx

/-- A tree exchanges when the expression at a path does. -/
theorem replace {root : Expr} (pure : root.Pure) {path : NodePath}
    (hx : root.node? path = some x) (nulls : NullAlike n x y) (h : Exchanges c R n x y)
    (written : root.Writes path → k = n) (bound : ¬ root.Writes path → k = 0) :
    Exchanges c R k root (root.replace path y) := by
  induction path generalizing x y n with
  | nil =>
      obtain rfl := Option.some.inj hx
      exact h.count (written trivial)
  | cons i path ih =>
      obtain ⟨parent, hparent, hx⟩ := Option.bind_eq_some_iff.1 hx
      rw [Expr.replace, hparent]
      have pureParent := pure.mono (Expr.nodes_subset_of_node? hparent)
      by_cases child : parent.WritesChild i
      · have step := withChild (k := n) pureParent hx h (.inl nulls) (fun _ => rfl) (absurd child)
        refine ih hparent (nullAlike_withChild hx y) step ?_ ?_
        · exact fun writes => written ⟨writes, parent, hparent, child⟩
        · exact fun bare => bound fun writes => bare writes.1
      · have step := withChild (k := 0) pureParent hx h (.inl nulls) (absurd · child) fun _ => rfl
        have none : k = 0 := by
          refine bound ?_
          rintro ⟨-, parent', hparent', child'⟩
          obtain rfl := Option.some.inj (hparent.symm.trans hparent')
          exact child child'
        exact ih hparent (nullAlike_withChild hx y) step (fun _ => none) fun _ => none

/-- A constant exchanges with its value. Only where it is compared with as NULL is there a place in
which the fragments differ. -/
theorem replaceConstant {root : Expr} (pure : root.Pure) {path : NodePath}
    (hx : root.node? path = some x) (form : (∃ v, x = .literal v) ∨ bindsWhole x)
    (constant : x.foldable = true) {v : Value} (value : x.constant = .ok v)
    (compares : root.ComparesNull path x v → k = 1)
    (same : ¬ root.ComparesNull path x v → k = 0) :
    Exchanges c (TestedInstead c root path) k root (root.replace path (.literal v)) := by
  have h : Exchanges c (TestedInstead c root path) 0 x (.literal v) :=
    ofConstant (pure.mono (Expr.nodes_subset_of_node? hx)) form constant value
  by_cases nulls : isNullLiteral x = v.isNull
  · have none : k = 0 := by
      refine same ?_
      rintro ⟨null, other, -⟩
      rw [null, other] at nulls
      cases nulls
    have alike : NullAlike 0 x (.literal v) :=
      ⟨nulls.trans (isNullLiteral_literal v).symm, fun _ => rfl⟩
    exact h.replace pure hx alike (fun _ => none) fun _ => none
  have other : isNullLiteral x = false := by
    refine Bool.eq_false_iff.2 fun null => nulls ?_
    obtain rfl := eq_null_of_isNullLiteral null
    obtain rfl := Except.ok.inj value
    rfl
  obtain rfl : v = .null := by
    rw [other, ← isNullLiteral_literal] at nulls
    have null : isNullLiteral (.literal v) = true := by simpa using nulls
    exact Expr.literal.inj (eq_null_of_isNullLiteral null)
  cases path with
  | nil =>
      obtain rfl := Option.some.inj hx
      exact h.count (same fun decides => decides.2.2)
  | cons i path =>
      obtain ⟨parent, hparent, hx⟩ := Option.bind_eq_some_iff.1 hx
      have pureParent := pure.mono (Expr.nodes_subset_of_node? hparent)
      have nulls' {m : Nat} := nullAlike_withChild (n := m) hx (.literal .null)
      rw [Expr.replace, hparent]
      by_cases test : ∃ op l r, parent = .comparison op l r ∧ (nullTest? op).isSome = true
      · obtain ⟨op, l, r, rfl, hsome⟩ := test
        obtain ⟨test, word⟩ := Option.isSome_iff_exists.1 hsome
        cases null : isNullLiteral (if i = 0 then r else l) with
        | true =>
            have none : k = 0 := by
              refine same ?_
              rintro ⟨-, -, -, op', l', r', hparent', -, noLiteral⟩
              obtain ⟨rfl, rfl, rfl⟩ :=
                Expr.comparison.inj (Option.some.inj (hparent.symm.trans hparent'))
              rw [null] at noLiteral
              cases noLiteral
            have step := withNull hparent pureParent word hx other h (fun _ => rfl) (by simp [null])
            exact step.replace pure hparent nulls' (fun _ => none) fun _ => none
        | false =>
            have step := withNull hparent pureParent word hx other h (by simp [null]) fun _ => rfl
            refine step.replace pure hparent nulls' ?_ ?_
            · exact fun writes =>
                compares ⟨rfl, other, writes, op, l, r, hparent, hsome, null⟩
            · exact fun bare => same fun decides => bare decides.2.2.1
      · have noTest : ∀ op l r, parent = .comparison op l r → nullTest? op = none :=
          fun op l r heq => Option.not_isSome_iff_eq_none.1 fun hsome => test ⟨op, l, r, heq, hsome⟩
        have none : k = 0 := by
          refine same ?_
          rintro ⟨-, -, -, op, l, r, hparent', hsome, -⟩
          obtain rfl := Option.some.inj (hparent.symm.trans hparent')
          exact test ⟨op, l, r, rfl, hsome⟩
        have step := withChild (k := 0) pureParent hx h (.inr noTest) (fun _ => rfl) fun _ => rfl
        exact step.replace pure hparent nulls' (fun _ => none) fun _ => none

end Exchanges

/-- A constant that is no condition is a literal, or bound whole where it is written. -/
theorem exists_literal_or_bindsWhole {s : Expr} (constant : s.foldable = true)
    (connective : ∀ op l r, s ≠ .logical op l r)
    (order : ∀ op l r, s = .comparison op l r → op.isComparison = false) :
    (∃ v, s = .literal v) ∨ bindsWhole s := by
  cases s with
  | literal v => exact .inl ⟨v, rfl⟩
  | logical op l r => exact (connective op l r rfl).elim
  | comparison op l r => exact .inr (order op l r rfl)
  | member t name =>
      cases t with
      | row e => cases constant
      | _ => exact .inr trivial
  | call f args =>
      cases f with
      | accessor a => exact .inr trivial
      | _ => cases constant
  | row e | construct target bs => cases constant

/-- Constants are interchangeable with their values. An expression with a constant at a path, other
than a comparison or a connective, and the expression with the value in its place are translated
from one state alike: both fail, or both succeed with the same parameters and aliases. The fragments
are the same, too, unless the constant is a NULL that is no literal, compared with where the literal
would be tested for. Then they differ in that place: the first compares the other operand with NULL,
and the second tests it for NULL. -/
theorem translate_replace (c : Context) (root : Expr) (pure : root.Pure) (path : NodePath)
    (s : Expr) (hs : root.node? path = some s) (connective : ∀ op l r, s ≠ .logical op l r)
    (order : ∀ op l r, s = .comparison op l r → op.isComparison = false) (v : Value) (b : Binder)
    (value : (s.fold.outcome b.log).1 = .ok (some v)) :
    let out := (translate c root).run b
    let out' := (translate c (root.replace path (.literal v))).run b
    (∃ e e', out.1 = .error e ∧ out'.1 = .error e') ∨
      ∃ f g, out.1 = .ok f ∧ out'.1 = .ok g ∧ out.2.params = out'.2.params ∧
        out.2.aliases = out'.2.aliases ∧ (f = g ↔ ¬ root.ComparesNull path s v) ∧
        (root.ComparesNull path s v → ApartOnce (TestedInstead c root path) f g) := by
  intro out out'
  have pureConstant : s.Pure := pure.mono (Expr.nodes_subset_of_node? hs)
  obtain ⟨constant, heval⟩ :=
    Expr.outcome_fold_some.1 (Prod.ext value rfl : s.fold.outcome b.log = (.ok (some v), _))
  have hvalue : s.constant = .ok v := by
    rw [← Expr.gives_evalConstant s pureConstant b.log, heval]
  have form := exists_literal_or_bindsWhole constant connective order
  have exchanges {k : Nat} (compares : root.ComparesNull path s v → k = 1)
      (same : ¬ root.ComparesNull path s v → k = 0) : EndAlike _ out out' :=
    (Exchanges.replaceConstant pure hs form constant hvalue compares same).fragment (.refl b)
  generalize out = out at exchanges ⊢
  generalize out' = out' at exchanges ⊢
  by_cases compares : root.ComparesNull path s v
  · cases exchanges (fun _ => rfl) (absurd compares) with
    | error => exact .inl ⟨_, _, rfl, rfl⟩
    | ok results states =>
        have apart := results.apartOnce rfl
        refine .inr ⟨_, _, rfl, rfl, states.params, states.aliases, ?_, fun _ => apart⟩
        exact iff_of_false (ne_of_apartOnce apart) (not_not_intro compares)
  · cases exchanges (absurd · compares) fun _ => rfl with
    | error => exact .inl ⟨_, _, rfl, rfl⟩
    | ok results states =>
        refine .inr ⟨_, _, rfl, rfl, states.params, states.aliases, ?_, (absurd · compares)⟩
        exact iff_of_true (results.eq rfl) compares

/-- The floor in the settings and the condition on the total are folded before they are written. -/
theorem largeOrder_replaced :
    let c : Context := ⟨{}, false, .where⟩
    let b := (Plan.new Demo.order {} []).binder
    Analyzer.largeOrder.Pure ∧ Analyzer.largeOrder.node? [1] = some Analyzer.aboveFloor ∧
      (Analyzer.aboveFloor.fold.outcome b.log).1 = .ok (some (.int 101)) ∧
      Analyzer.largeOrder.replace [1] (.literal (.int 101)) =
        .comparison .gt Demo.total (.literal (.int 101)) ∧
      ∃ f g, ((translate c Analyzer.largeOrder).run b).1 = .ok f ∧
        ((translate c (Analyzer.largeOrder.replace [1] (.literal (.int 101)))).run b).1 = .ok g ∧
        f = g ∧ f.text = "Extend0.total > @p0" := by
  intro c b
  have value : (Analyzer.aboveFloor.fold.outcome b.log).1 = .ok (some (.int 101)) := rfl
  have alike := translate_replace c Analyzer.largeOrder Analyzer.pure_largeOrder [1]
    Analyzer.aboveFloor rfl (by simp [Analyzer.aboveFloor])
    (by rintro op l r ⟨⟩; rfl) (.int 101) b value
  refine ⟨Analyzer.pure_largeOrder, rfl, value, rfl, ?_⟩
  rcases alike with ⟨e, e', failed, -⟩ | ⟨f, g, first, second, -, -, same, -⟩
  · cases failed
  · have heq : f = g := same.2 fun compares => by cases compares.1
    have written : ((translate c Analyzer.largeOrder).run b).1.toOption.map Fragment.text =
        some "Extend0.total > @p0" := by decide +kernel
    rw [first] at written
    exact ⟨f, g, first, second, heq, Option.some.inj written⟩

/-- An accessor that has nothing to give. -/
def nothing : Accessor := ⟨"nothing", fun _ => .null⟩

/-- The status is compared with NULL, though not with the literal. -/
def noStatus : Expr :=
  .comparison .eq (.field Demo.order "status") (.call (.accessor nothing) [])

theorem noStatus_apart :
    let c : Context := ⟨{}, false, .where⟩
    let b := (Plan.new Demo.order {} []).binder
    noStatus.Pure ∧ noStatus.node? [1] = some (.call (.accessor nothing) []) ∧
      ((Expr.call (.accessor nothing) []).fold.outcome b.log).1 = .ok (some .null) ∧
      ((translate c noStatus).run b).1.map Fragment.text = .ok "Extend0.status = NULL" ∧
      ((translate c (noStatus.replace [1] (.literal .null))).run b).1.map Fragment.text =
        .ok "Extend0.status IS NULL" := by
  have pure : noStatus.Pure := by
    intro a args h
    have hcall : a = nothing := by
      simp only [noStatus, Expr.field, Expr.nodes, Expr.nodesOfArgs, List.mem_append, List.mem_cons,
        reduceCtorEq, Expr.call.injEq, Function.accessor.injEq, List.not_mem_nil, false_or,
        or_false] at h
      exact h.1
    rw [hcall]
    exact fun _ _ => rfl
  exact ⟨pure, rfl, rfl, rfl, rfl⟩

end Sql

end TypedQuery
