import TypedQuery.Demo
import TypedQuery.Proofs.Expr.Evaluation
import TypedQuery.Proofs.Expr.Nodes

/-!
# Folding agrees with evaluation

An analyzer answers from what it remembers. Whatever it was asked before about the nodes of a tree,
it takes a node for a constant when all nodes below are of the forms of constants, and the value it
gives for one, or the error, is that of evaluation for a row, for every row.

The accessors of the tree have to be pure: an analyzer calls one once for a node, evaluation for a
row each time.
-/

namespace TypedQuery

namespace Eval

variable {α β : Type}

/-- Does an evaluation have this outcome whatever was called before? -/
def Gives (x : Eval α) (r : Except QueryError α) : Prop := ∀ log, (x.outcome log).1 = r

theorem Gives.bind {x : Eval α} {f : α → Eval β} {r : Except QueryError α}
    {g : α → Except QueryError β} (hx : x.Gives r) (hf : ∀ v, (f v).Gives (g v)) :
    (x >>= f).Gives (r >>= g) := by
  intro log
  rw [outcome_bind, ← hx log]
  rcases x.outcome log with ⟨e | v, middle⟩
  · rfl
  · exact hf v middle

theorem gives_ofValue (r : Except EvaluationError α) : (ofValue r).Gives (r.mapError .evaluation) := by
  intro log
  cases r <;> rfl

end Eval

namespace Expr

variable {x : Expr} {scope : Scope}

/-- The node at a path of a tree. -/
def node? (root : Expr) : NodePath → Option Expr
  | [] => some root
  | i :: path => (root.node? path).bind fun x => x.children[i]?

/-- May a node of this form stand in a constant? -/
def isConstantForm : Expr → Bool
  | literal _ | member .. | comparison .. | logical .. => true
  | call (.accessor _) args => args.isEmpty
  | _ => false

/-- All accessors of a tree are pure. -/
def Pure (x : Expr) : Prop := ∀ a args, .call (.accessor a) args ∈ x.nodes → a.Pure

/-- The value of a constant whose accessors are pure, told without any calls. -/
def constant : Expr → Except QueryError Value
  | literal v => .ok v
  | call (.accessor a) _ => .ok (a.read [])
  | member target name => do
    let v ← target.constant
    (v.member name).mapError .evaluation
  | comparison op l r => do
    let a ← l.constant
    let b ← r.constant
    (a.applyBinary op b).mapError .evaluation
  | logical op l r => do
    let a ← l.constant
    let b ← r.constant
    (a.applyConnective op b).mapError .evaluation
  | x => .error (.unsupported (.notConstant x.kind))

theorem node?_cons {root : Expr} {path : NodePath} (h : root.node? path = some x) (i : Nat) :
    root.node? (i :: path) = x.children[i]? := by
  rw [node?, h, Option.bind_some]

theorem nodes_subset_of_node? {root : Expr} {path : NodePath} (h : root.node? path = some x) :
    x.nodes ⊆ root.nodes := by
  induction path generalizing x with
  | nil =>
      obtain rfl := Option.some.inj h
      exact List.Subset.refl _
  | cons i path ih =>
      obtain ⟨parent, hparent, hx⟩ := Option.bind_eq_some_iff.1 h
      have hchild := nodes_subset_of_mem_children (List.mem_of_getElem? hx)
      exact List.Subset.trans hchild (ih hparent)

theorem Pure.mono {y : Expr} (h : x.Pure) (hnodes : y.nodes ⊆ x.nodes) : y.Pure :=
  fun a args hcall => h a args (hnodes hcall)

theorem Pure.child {y : Expr} (h : x.Pure) (hy : y ∈ x.children) : y.Pure :=
  h.mono (nodes_subset_of_mem_children hy)

/-- A constant is one whose nodes all have the form of one. -/
theorem foldable_iff : (x : Expr) → (x.foldable = true ↔ ∀ y ∈ x.nodes, y.isConstantForm = true)
  | .literal v => by simp [foldable, nodes, isConstantForm]
  | .row e => by simp [foldable, nodes, isConstantForm]
  | .member t name => by
      rw [foldable, foldable_iff t, nodes, List.forall_mem_cons]
      simp [isConstantForm]
  | .comparison op l r => by
      rw [foldable, Bool.and_eq_true, foldable_iff l, foldable_iff r, nodes, List.forall_mem_cons,
        List.forall_mem_append]
      simp [isConstantForm]
  | .logical op l r => by
      rw [foldable, Bool.and_eq_true, foldable_iff l, foldable_iff r, nodes, List.forall_mem_cons,
        List.forall_mem_append]
      simp [isConstantForm]
  | .construct target bindings => by simp [foldable, nodes, isConstantForm]
  | .call (.accessor a) args => by
      cases args with
      | nil => simp [foldable, nodes, nodesOfArgs, isConstantForm]
      | cons x xs => simp [foldable, nodes, isConstantForm]
  | .call (.helper _) args => by simp [foldable, nodes, isConstantForm]
  | .call (.aggregate _) args => by simp [foldable, nodes, isConstantForm]
  | .call (.named _) args => by simp [foldable, nodes, isConstantForm]

/-- A constant is evaluated for a row as it is without one. -/
theorem evalIn_of_foldable : (x : Expr) → x.foldable = true → x.evalIn scope = x.evalConstant
  | .literal v, _ => rfl
  | .member t name, h => by
      have ht : t.evalIn scope = t.evalConstant := evalIn_of_foldable t h
      rw [evalConstant, ← ht]
      cases t with
      | row e => cases h
      | _ => rfl
  | .comparison op l r, h => by
      obtain ⟨hl, hr⟩ := Bool.and_eq_true_iff.1 h
      rw [evalIn, evalConstant, evalIn_of_foldable l hl, evalIn_of_foldable r hr]
  | .logical op l r, h => by
      obtain ⟨hl, hr⟩ := Bool.and_eq_true_iff.1 h
      rw [evalIn, evalConstant, evalIn_of_foldable l hl, evalIn_of_foldable r hr]
  | .call (.accessor a) args, h => by
      obtain rfl := List.isEmpty_iff.1 h
      rfl

/-- With pure accessors the value of a constant does not depend on the calls before. -/
theorem gives_evalConstant : (x : Expr) → x.Pure → x.evalConstant.Gives x.constant
  | .literal v, _ => fun _ => rfl
  | .row e, _ => fun _ => rfl
  | .construct target bindings, _ => fun _ => rfl
  | .call (.accessor a) args, h => fun log => by
      have heq : a.read log = a.read [] := h a args (self_mem_nodes _) log []
      rw [evalConstant, constant, Eval.outcome_callAccessor, heq]
  | .call (.helper _) args, _ => fun _ => rfl
  | .call (.aggregate _) args, _ => fun _ => rfl
  | .call (.named _) args, _ => fun _ => rfl
  | .member t name, h => by
      have ht := gives_evalConstant t (h.child (by simp [children]))
      exact ht.bind fun v => Eval.gives_ofValue _
  | .comparison op l r, h => by
      have hl := gives_evalConstant l (h.child (by simp [children]))
      have hr := gives_evalConstant r (h.child (by simp [children]))
      exact hl.bind fun a => hr.bind fun b => Eval.gives_ofValue _
  | .logical op l r, h => by
      have hl := gives_evalConstant l (h.child (by simp [children]))
      have hr := gives_evalConstant r (h.child (by simp [children]))
      exact hl.bind fun a => hr.bind fun b => Eval.gives_ofValue _

end Expr

namespace Analyzer

open TypedQuery.Expr

/-- Is what an analyzer remembers about the nodes of a tree true of them? -/
structure Coherent (root : Expr) (a : Analyzer) : Prop where
  classes : ∀ path x c, root.node? path = some x → a.classes.lookup path = some c → c = x.foldable
  values : ∀ path x v, root.node? path = some x → a.values.lookup path = some v →
    x.constant = .ok v

/-- Does a step from an analyzer have this outcome, what is remembered afterwards being true? -/
def Gives (root : Expr) (a : Analyzer) {α : Type} (s : StateM Analyzer α) (r : α) : Prop :=
  ∃ b, s.run a = (r, b) ∧ Coherent root b

section

variable {root x : Expr} {a : Analyzer} {path : NodePath} {α β : Type}

theorem Coherent.new (root : Expr) (log : CallLog) : Coherent root (new log) :=
  ⟨fun _ _ _ _ h => (by cases h), fun _ _ _ _ h => (by cases h)⟩

theorem Gives.bind {s : StateM Analyzer α} {f : α → StateM Analyzer β} {r : α} {t : β}
    (hs : Gives root a s r) (hf : ∀ b, Coherent root b → Gives root b (f r) t) :
    Gives root a (s >>= f) t := by
  obtain ⟨b, hrun, hb⟩ := hs
  obtain ⟨c, hrest, hc⟩ := hf b hb
  refine ⟨c, ?_, hc⟩
  rw [StateT.run_bind, hrun]
  exact hrest

/-- After a failed step nothing else is done. -/
theorem Gives.bindStep {s : Step α} {f : α → Step β} {r : Except QueryError α}
    {g : α → Except QueryError β} (hs : Gives root a s r)
    (hf : ∀ v b, r = .ok v → Coherent root b → Gives root b (f v) (g v)) :
    Gives root a (s >>= f : Step β) (r >>= g) := by
  show Gives root a (StateT.bind s.run (ExceptT.bindCont f)) (r >>= g)
  refine Gives.bind hs fun b hb => ?_
  cases r with
  | error e => exact ⟨b, rfl, hb⟩
  | ok v => exact hf v b rfl hb

theorem gives_pure (ha : Coherent root a) (v : α) : Gives root a (pure v) v := ⟨a, rfl, ha⟩

theorem gives_callAccessor (ha : Coherent root a) (accessor : Accessor) (h : accessor.Pure) :
    Gives root a (callAccessor accessor) (.ok (accessor.read [])) := by
  rw [h [] a.log]
  exact ⟨_, rfl, ha.classes, ha.values⟩

theorem gives_remember (ha : Coherent root a) (hx : root.node? path = some x) {v : Value}
    (hv : x.constant = .ok v) : Gives root a (remember path v) (.ok v) := by
  refine ⟨_, rfl, ha.classes, fun p y w hy hlookup => ?_⟩
  by_cases hp : p = path
  · obtain rfl := hp
    obtain rfl := Option.some.inj (hx.symm.trans hy)
    rw [List.lookup_cons_self] at hlookup
    obtain rfl := Option.some.inj hlookup
    exact hv
  · rw [List.lookup_cons, beq_false_of_ne hp] at hlookup
    exact ha.values p y w hy hlookup

theorem Gives.classified {s : StateM Analyzer α} {f : α → Step β} {r : α} {t : Except QueryError β}
    (hs : Gives root a s r) (hf : ∀ b, Coherent root b → Gives root b (f r) t) :
    Gives root a (liftM s >>= f : Step β) t := by
  have hlift : Gives root a (liftM s : Step α) (Except.ok r) := by
    obtain ⟨b, hrun, hb⟩ := hs
    refine ⟨b, ?_, hb⟩
    show (Except.ok (s.run a).1, (s.run a).2) = _
    rw [hrun]
  show Gives root a (liftM s >>= f : Step β) (Except.ok r >>= fun _ => t)
  refine hlift.bindStep fun v b hv hb => ?_
  obtain rfl := Except.ok.inj hv
  exact hf b hb

/-- A value computed from those of the operands is remembered, a fault is not. -/
theorem gives_computed (ha : Coherent root a) (hx : root.node? path = some x)
    {r : Except EvaluationError Value} (hr : x.constant = r.mapError .evaluation) :
    Gives root a (ofValue r >>= remember path : Step Value) (r.mapError .evaluation) := by
  cases r with
  | error e => exact ⟨a, rfl, ha⟩
  | ok v => exact gives_remember ha hx hr

theorem Gives.readStep {f : Analyzer → Step β} {t : Except QueryError β}
    (h : Gives root a (f a) t) : Gives root a (get >>= f : Step β) t := h

end

/-- Is what is remembered about the classes of the nodes true of them? -/
def ClassesHold (root : Expr) (classes : List (NodePath × Bool)) : Prop :=
  ∀ path x c, root.node? path = some x → classes.lookup path = some c → c = x.foldable

/-- Does a step from an analyzer have this outcome, classifying nodes and nothing else? -/
def Classifies (root : Expr) (a : Analyzer) {α : Type} (s : StateM Analyzer α) (r : α) : Prop :=
  ∃ classes, s.run a = (r, { a with classes := classes }) ∧ ClassesHold root classes

section

variable {root x : Expr} {a : Analyzer} {path : NodePath} {α β : Type}

theorem classifies_pure (ha : ClassesHold root a.classes) (v : α) : Classifies root a (pure v) v :=
  ⟨a.classes, rfl, ha⟩

theorem Classifies.bind {s : StateM Analyzer α} {f : α → StateM Analyzer β} {r : α} {t : β}
    (hs : Classifies root a s r)
    (hf : ∀ b : Analyzer, ClassesHold root b.classes → Classifies root b (f r) t) :
    Classifies root a (s >>= f) t := by
  obtain ⟨classes, hrun, hclasses⟩ := hs
  obtain ⟨classes', hrest, hclasses'⟩ := hf { a with classes := classes } hclasses
  refine ⟨classes', ?_, hclasses'⟩
  rw [StateT.run_bind, hrun]
  exact hrest

theorem classifies_mark (ha : ClassesHold root a.classes) (hx : root.node? path = some x) {c : Bool}
    (hc : c = x.foldable) : Classifies root a (mark path c) c := by
  refine ⟨(path, c) :: a.classes, rfl, fun p y d hy hlookup => ?_⟩
  by_cases hp : p = path
  · obtain rfl := hp
    obtain rfl := Option.some.inj (hx.symm.trans hy)
    rw [List.lookup_cons_self] at hlookup
    exact (Option.some.inj hlookup).symm.trans hc
  · rw [List.lookup_cons, beq_false_of_ne hp] at hlookup
    exact ha p y d hy hlookup

theorem Classifies.read {f : Analyzer → StateM Analyzer β} {t : β}
    (h : Classifies root a (f a) t) : Classifies root a (get >>= f) t := h

end

section

variable {root : Expr}

mutual

/-- A node is classified rightly whatever is remembered, and so are all below it. -/
theorem classifies_classify : (x : Expr) → ∀ {a : Analyzer} {path : NodePath},
    ClassesHold root a.classes → root.node? path = some x →
    Classifies root a (classify path x) x.foldable := by
  intro x a path ha hx
  have below (i : Nat) {y : Expr} (hy : x.children[i]? = some y) :
      root.node? (i :: path) = some y := (node?_cons hx i).trans hy
  unfold classify
  refine Classifies.read ?_
  split
  · rename_i c hlookup
    rw [ha path x c hx hlookup]
    exact classifies_pure ha _
  cases x with
  | literal v => exact classifies_mark ha hx rfl
  | row e => exact classifies_mark ha hx rfl
  | member t name =>
      have ht := classifies_classify t ha (below 0 rfl)
      exact ht.bind fun b hb => classifies_mark hb hx rfl
  | comparison op l r | logical op l r =>
      have hl := classifies_classify l ha (below 0 rfl)
      refine hl.bind fun b hb => ?_
      have hr := classifies_classify r hb (below 1 rfl)
      exact hr.bind fun c hc => classifies_mark hc hx rfl
  | call f args =>
      have hargs := classifies_args args ha fun i y hy => by
        rw [Nat.zero_add]
        exact below i hy
      refine hargs.bind fun b hb => ?_
      cases f <;> exact classifies_mark hb hx rfl
  | construct target bindings =>
      have hbindings := classifies_bindings bindings ha fun i y hy => by
        rw [Nat.zero_add]
        exact below i hy
      exact hbindings.bind fun b hb => classifies_mark hb hx rfl

theorem classifies_args : (xs : List Expr) → ∀ {a : Analyzer} {path : NodePath} {i : Nat},
    ClassesHold root a.classes →
    (∀ j y, xs[j]? = some y → root.node? ((i + j) :: path) = some y) →
    Classifies root a (classifyArgs path i xs) ()
  | [], _, _, _, ha, _ => classifies_pure ha ()
  | x :: xs, a, path, i, ha, hxs => by
      have hx := classifies_classify x ha (hxs 0 x rfl)
      refine hx.bind fun b hb => classifies_args xs hb fun j y hy => ?_
      rw [Nat.add_right_comm, Nat.add_assoc]
      exact hxs (j + 1) y hy

theorem classifies_bindings : (bs : List (String × Expr)) →
    ∀ {a : Analyzer} {path : NodePath} {i : Nat}, ClassesHold root a.classes →
    (∀ j y, (bs.map Prod.snd)[j]? = some y → root.node? ((i + j) :: path) = some y) →
    Classifies root a (classifyBindings path i bs) ()
  | [], _, _, _, ha, _ => classifies_pure ha ()
  | (_, x) :: bs, a, path, i, ha, hbs => by
      have hx := classifies_classify x ha (hbs 0 x rfl)
      refine hx.bind fun b hb => classifies_bindings bs hb fun j y hy => ?_
      rw [Nat.add_right_comm, Nat.add_assoc]
      exact hbs (j + 1) y hy

end

theorem gives_classify (x : Expr) {a : Analyzer} {path : NodePath} (ha : Coherent root a)
    (hx : root.node? path = some x) : Gives root a (classify path x) x.foldable := by
  obtain ⟨classes, hrun, hclasses⟩ := classifies_classify x ha.classes hx
  exact ⟨_, hrun, hclasses, ha.values⟩

/-- A constant is evaluated to its value whatever is remembered. Only successes are remembered, so a
failure comes again from the operands, and is the same. -/
theorem gives_evaluate : (x : Expr) → ∀ {a : Analyzer} {path : NodePath}, x.Pure →
    Coherent root a → root.node? path = some x → Gives root a (evaluate path x) x.constant := by
  intro x a path pure ha hx
  have below (i : Nat) {y : Expr} (hy : x.children[i]? = some y) :
      root.node? (i :: path) = some y := (node?_cons hx i).trans hy
  unfold evaluate
  refine Gives.readStep ?_
  split
  · rename_i v hlookup
    rw [ha.values path x v hx hlookup]
    exact gives_pure ha _
  cases x with
  | literal v => exact gives_remember ha hx rfl
  | row e => exact gives_pure ha _
  | construct target bindings => exact gives_pure ha _
  | call f args =>
      cases f with
      | accessor accessor =>
          have hcall := gives_callAccessor ha accessor (pure accessor args (self_mem_nodes _))
          exact hcall.bindStep fun v b hv hb => gives_remember hb hx hv
      | _ => exact gives_pure ha _
  | member t name =>
      have ht := gives_evaluate t (pure.child (by simp [children])) ha (below 0 rfl)
      refine ht.bindStep fun v b hv hb => ?_
      exact gives_computed hb hx (by rw [constant, hv]; rfl)
  | comparison op l r | logical op l r =>
      have hl := gives_evaluate l (pure.child (by simp [children])) ha (below 0 rfl)
      refine hl.bindStep fun v b hv hb => ?_
      have hr := gives_evaluate r (pure.child (by simp [children])) hb (below 1 rfl)
      refine hr.bindStep fun w c hw hc => ?_
      exact gives_computed hc hx (by rw [constant, hv, hw]; rfl)

/-- A node that is no constant folds to nothing, a constant to its value. -/
theorem gives_fold {x : Expr} {a : Analyzer} {path : NodePath} (pure : x.Pure)
    (ha : Coherent root a) (hx : root.node? path = some x) :
    Gives root a (fold path x) (if x.foldable then x.constant.map some else .ok none) := by
  refine (gives_classify x ha hx).classified fun b hb => ?_
  split
  · have hvalue := gives_evaluate x pure hb hx
    rw [map_eq_pure_bind, show x.constant.map some = x.constant >>= fun v => .ok (some v) from rfl]
    exact hvalue.bindStep fun v c _ hc => gives_pure hc _
  · exact gives_pure hb _

end

/-- What an analyzer is asked about the node at a path. -/
inductive Call where
  | classify (path : NodePath)
  | fold (path : NodePath)

/-- The analyzer of a tree after a call; there is nothing to ask where there is no node. -/
def after (root : Expr) (a : Analyzer) : Call → Analyzer
  | .classify path =>
    match root.node? path with
    | some x => ((classify path x).run a).2
    | none => a
  | .fold path =>
    match root.node? path with
    | some x => (a.run (fold path x)).2
    | none => a

section

variable {root : Expr} {a : Analyzer}

theorem Coherent.after (pure : root.Pure) (ha : Coherent root a) (c : Call) :
    Coherent root (after root a c) := by
  cases c with
  | classify path =>
      cases hx : root.node? path with
      | none => simpa [Analyzer.after, hx] using ha
      | some x =>
          obtain ⟨b, hrun, hb⟩ := gives_classify x ha hx
          simpa [Analyzer.after, hx, hrun] using hb
  | fold path =>
      cases hx : root.node? path with
      | none => simpa [Analyzer.after, hx] using ha
      | some x =>
          obtain ⟨b, hrun, hb⟩ := gives_fold (pure.mono (nodes_subset_of_node? hx)) ha hx
          have hafter : a.run (fold path x) = _ := hrun
          simpa [Analyzer.after, hx, hafter] using hb

theorem Coherent.afterAll (pure : root.Pure) (calls : List Call) (ha : Coherent root a) :
    Coherent root (calls.foldl (Analyzer.after root) a) := by
  induction calls generalizing a with
  | nil => exact ha
  | cons c calls ih => exact ih (ha.after pure c)

end

/-- Folding agrees with evaluation for a row. However often an analyzer was asked about nodes of
a tree, it takes a node for a constant exactly when all nodes below have the form of one; a node
that it does not take for one folds to nothing, and one that it does to its value for any row,
whatever was called before, or to the error of it. -/
theorem fold_eq_evalIn (root : Expr) (pure : root.Pure) (log : CallLog) (calls : List Call)
    (path : NodePath) (x : Expr) (hx : root.node? path = some x) :
    let a := calls.foldl (after root) (new log)
    (((classify path x).run a).1 = true ↔ ∀ y ∈ x.nodes, y.isConstantForm = true) ∧
      ((a.run (fold path x)).1 = .ok none ↔ ((classify path x).run a).1 = false) ∧
      (((classify path x).run a).1 = true → ∀ (scope : Scope) (log' : CallLog),
        (a.run (fold path x)).1 = ((x.evalIn scope).outcome log').1.map some) := by
  intro a
  have ha : Coherent root a := (Coherent.new root log).afterAll pure calls
  have hpure : x.Pure := pure.mono (nodes_subset_of_node? hx)
  obtain ⟨b, hclass, -⟩ := gives_classify x ha hx
  obtain ⟨c, hfold, -⟩ := gives_fold hpure ha hx
  have hrun : a.run (fold path x) = _ := hfold
  rw [hclass, hrun]
  refine ⟨foldable_iff x, ?_, fun hconstant scope log' => ?_⟩
  · cases x.foldable with
    | false => simp
    | true => cases x.constant <;> simp [Except.map]
  · rw [evalIn_of_foldable x hconstant, gives_evalConstant x hpure log', if_pos hconstant]

/-- The settings of a shop, in which an order counts from a total of 100. -/
def settings : Accessor :=
  ⟨"settings", fun _ => .json (.object [("floor", .number (.whole 100))])⟩

/-- One more than the total in the settings. -/
def aboveFloor : Expr :=
  .comparison .add (.member (.call (.accessor settings) []) "floor") (.literal (.int 1))

def largeOrder : Expr := .comparison .gt Demo.total aboveFloor

theorem pure_largeOrder : largeOrder.Pure := by
  intro a args h
  have hcall : a = settings := by
    simp only [largeOrder, aboveFloor, Demo.total, Expr.field, nodes, nodesOfArgs, List.mem_append,
      List.mem_cons, reduceCtorEq, Expr.call.injEq, Function.accessor.injEq, List.not_mem_nil,
      false_or, or_false] at h
    exact h.1
  rw [hcall]
  exact fun _ _ => rfl

/-- The member of the settings is asked for first, then the whole comparison. -/
theorem largeOrder_folds :
    let a := [.fold [0, 1], .classify [], .fold []].foldl (after largeOrder) (new ["today"])
    largeOrder.Pure ∧ largeOrder.node? [1] = some aboveFloor ∧
      (∀ y ∈ aboveFloor.nodes, y.isConstantForm = true) ∧
      (a.run (fold [1] aboveFloor)).1 = .ok (some (.int 101)) ∧
      ∀ (scope : Scope) (log : CallLog), (a.run (fold [1] aboveFloor)).1 =
        ((aboveFloor.evalIn scope).outcome log).1.map some := by
  intro a
  obtain ⟨hconstant, -, hvalue⟩ :=
    fold_eq_evalIn largeOrder pure_largeOrder ["today"] _ [1] aboveFloor rfl
  have hforms : ∀ y ∈ aboveFloor.nodes, y.isConstantForm = true := (foldable_iff _).1 rfl
  have hvalue := hvalue (hconstant.2 hforms)
  refine ⟨pure_largeOrder, rfl, hforms, ?_, hvalue⟩
  rw [hvalue (fun _ _ => none) []]
  rfl

end Analyzer

end TypedQuery
