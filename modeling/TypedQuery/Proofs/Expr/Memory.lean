import TypedQuery.Proofs.Expr.Folding

/-!
# What an analyzer remembers

Accessors may answer otherwise each time, but an analyzer does not call one twice for a node: the
answer is remembered at once, also where the evaluation around it fails. Only such answers matter to
what it says later. With one answer fixed for each accessor of a tree every constant of it has one
value, or one error, and every request gives that, so requests agree with each other.

The answers need not be known in advance. An analyzer never forgets any, so those that it has in the
end are the ones that it used all the time.
-/

namespace TypedQuery

namespace Expr

/-- The value of the constant at a path, told from the answers of the accessors at their paths. -/
def valueFrom (answers : NodePath → Value) (path : NodePath) : Expr → Except QueryError Value
  | literal v => .ok v
  | call (.accessor _) _ => .ok (answers path)
  | member target name => do
    let v ← target.valueFrom answers (0 :: path)
    (v.member name).mapError .evaluation
  | comparison op l r => do
    let a ← l.valueFrom answers (0 :: path)
    let b ← r.valueFrom answers (1 :: path)
    (a.applyBinary op b).mapError .evaluation
  | logical op l r => do
    let a ← l.valueFrom answers (0 :: path)
    let b ← r.valueFrom answers (1 :: path)
    (a.applyConnective op b).mapError .evaluation
  | x => .error (.unsupported (.notConstant x.kind))

end Expr

namespace Analyzer

open TypedQuery.Expr

/-- A call of an accessor for the node at a path. -/
structure Invocation where
  path : NodePath
  accessor : Accessor

/-- The accessors that are called while the node at a path is evaluated, in turn. -/
def invoked (a : Analyzer) (path : NodePath) (x : Expr) : List Invocation :=
  match a.values.lookup path with
  | some _ => []
  | none =>
    match x with
    | .call (.accessor accessor) _ => [⟨path, accessor⟩]
    | .member target _ => invoked a (0 :: path) target
    | .comparison _ l r | .logical _ l r =>
      invoked a (0 :: path) l ++
        match a.run (evaluate (0 :: path) l) with
        | (.ok _, b) => invoked b (1 :: path) r
        | (.error _, _) => []
    | _ => []
termination_by structural x

/-- The accessors that a call of the analyzer of a tree calls. -/
def invokedBy (root : Expr) (a : Analyzer) : Call → List Invocation
  | .classify _ => []
  | .fold path =>
    match root.node? path with
    | some x =>
      let (constant, b) := (classify path x).run a
      if constant then invoked b path x else []
    | none => []

def invokedByAll (root : Expr) (a : Analyzer) : List Call → List Invocation
  | [] => []
  | c :: calls => invokedBy root a c ++ invokedByAll root (after root a c) calls

section

variable {a b c : Analyzer} {path : NodePath} {α β : Type}

theorem run_bind (s : Step α) (f : α → Step β) :
    a.run (s >>= f) = match a.run s with
      | (.ok v, b) => b.run (f v)
      | (.error e, b) => (.error e, b) := by
  show StateT.run (ExceptT.run (s >>= f)) a = _
  rw [ExceptT.run_bind, StateT.run_bind]
  unfold run
  rcases StateT.run (ExceptT.run s) a with ⟨_ | v, b⟩ <;> rfl

theorem run_read {f : Analyzer → Step β} : a.run (get >>= f) = a.run (f a) := rfl

theorem run_classified (s : StateM Analyzer α) (f : α → Step β) :
    a.run (liftM s >>= f : Step β) = (s.run a).2.run (f (s.run a).1) := rfl

theorem lookup_remembered {p : NodePath} {v : Value} (hp : p ≠ path) :
    ((path, v) :: a.values).lookup p = a.values.lookup p := by
  rw [List.lookup_cons, beq_false_of_ne hp]

theorem ne_of_lookup {p : NodePath} {v : Value} (new : a.values.lookup path = none)
    (h : a.values.lookup p = some v) : p ≠ path := by
  rintro rfl
  rw [new] at h
  cases h

end

/-- Are these the answers of the accessors whose nodes have a value? -/
def Answered (root : Expr) (answers : NodePath → Value) (a : Analyzer) : Prop :=
  ∀ path accessor args v, root.node? path = some (.call (.accessor accessor) args) →
    a.values.lookup path = some v → answers path = v

/-- Are the values that are remembered those that the answers tell? -/
def Told (root : Expr) (answers : NodePath → Value) (a : Analyzer) : Prop :=
  ∀ path x v, root.node? path = some x → a.values.lookup path = some v →
    x.valueFrom answers path = .ok v

/-- From one state of an analyzer to a later one accessors of the tree were called, each for a node
that had no value before and has one afterwards. -/
structure Leads (root : Expr) (a : Analyzer) (is : List Invocation) (b : Analyzer) : Prop where
  classes : ClassesHold root a.classes → ClassesHold root b.classes
  kept : ∀ p v, a.values.lookup p = some v → b.values.lookup p = some v
  unknown : ∀ i ∈ is, a.values.lookup i.path = none
  known : ∀ i ∈ is, b.values.lookup i.path ≠ none
  once : (is.map Invocation.path).Nodup
  called : ∀ i ∈ is, ∃ args, root.node? i.path = some (.call (.accessor i.accessor) args)
  log : b.log = (is.map (·.accessor.name)).reverse ++ a.log
  told : ∀ answers, Answered root answers b → Told root answers a → Told root answers b

section

variable {root x : Expr} {answers : NodePath → Value} {a b c : Analyzer} {is js : List Invocation}
  {path : NodePath}

theorem Answered.before (h : Answered root answers b) (leads : Leads root a is b) :
    Answered root answers a :=
  fun p accessor args v hp hv => h p accessor args v hp (leads.kept p v hv)

/-- The value of a node that calls no accessor is no answer. -/
theorem Answered.forget {v : Value}
    (h : Answered root answers { b with values := (path, v) :: b.values })
    (hx : root.node? path = some x) (silent : ∀ accessor args, x ≠ .call (.accessor accessor) args) :
    Answered root answers b := by
  intro p accessor args w hp hw
  have hne : p ≠ path := by
    rintro rfl
    exact silent accessor args (Option.some.inj (hx.symm.trans hp))
  exact h p accessor args w hp ((lookup_remembered hne).trans hw)

theorem Told.remember {v : Value} (h : Told root answers b) (hx : root.node? path = some x)
    (hv : x.valueFrom answers path = .ok v) :
    Told root answers { b with values := (path, v) :: b.values } := by
  intro p y w hy hw
  by_cases hp : p = path
  · obtain rfl := hp
    obtain rfl := Option.some.inj (hx.symm.trans hy)
    obtain rfl := Option.some.inj (List.lookup_cons_self.symm.trans hw)
    exact hv
  · exact h p y w hy ((lookup_remembered hp).symm.trans hw)

theorem Leads.refl (root : Expr) (a : Analyzer) : Leads root a [] a where
  classes h := h
  kept _ _ h := h
  unknown := by simp
  known := by simp
  once := .nil
  called := by simp
  log := rfl
  told _ _ h := h

/-- Nodes of the second part had no value in between, those of the first part had. -/
theorem Leads.trans (first : Leads root a is b) (second : Leads root b js c) :
    Leads root a (is ++ js) c := by
  have forgotten {p : NodePath} (h : b.values.lookup p = none) : a.values.lookup p = none := by
    by_contra hne
    obtain ⟨v, hv⟩ := Option.ne_none_iff_exists'.1 hne
    rw [first.kept p v hv] at h
    cases h
  have persists {p : NodePath} (h : b.values.lookup p ≠ none) : c.values.lookup p ≠ none := by
    obtain ⟨v, hv⟩ := Option.ne_none_iff_exists'.1 h
    rw [second.kept p v hv]
    exact Option.some_ne_none v
  refine ⟨fun h => second.classes (first.classes h),
    fun p v h => second.kept p v (first.kept p v h), ?_, ?_, ?_,
    List.forall_mem_append.2 ⟨first.called, second.called⟩, ?_, ?_⟩
  · exact List.forall_mem_append.2 ⟨first.unknown, fun i hi => forgotten (second.unknown i hi)⟩
  · exact List.forall_mem_append.2 ⟨fun i hi => persists (first.known i hi), second.known⟩
  · rw [List.map_append]
    refine List.nodup_append.2 ⟨first.once, second.once, ?_⟩
    rintro p hp q hq rfl
    obtain ⟨i, hi, rfl⟩ := List.mem_map.1 hp
    obtain ⟨j, hj, heq⟩ := List.mem_map.1 hq
    exact first.known i hi (heq ▸ second.unknown j hj)
  · rw [second.log, first.log]
    simp
  · intro answers hc ha
    have hb := first.told answers (hc.before second) ha
    exact second.told answers hc hb

/-- The value of a node that had none at first may be remembered in the end. -/
theorem Leads.remember {v : Value} (h : Leads root a is b) (new : a.values.lookup path = none)
    (hx : root.node? path = some x) (silent : ∀ accessor args, x ≠ .call (.accessor accessor) args)
    (hv : ∀ answers, Answered root answers b → Told root answers a →
      x.valueFrom answers path = .ok v) :
    Leads root a is { b with values := (path, v) :: b.values } := by
  refine { h with
    kept := fun p w hw => ?_
    known := fun i hi => ?_
    told := fun answers hc ha => ?_ }
  · exact (lookup_remembered (ne_of_lookup new hw)).trans (h.kept p w hw)
  · by_cases hp : i.path = path
    · simp [hp]
    · rw [lookup_remembered hp]
      exact h.known i hi
  · have hb := hc.forget hx silent
    exact (h.told answers hb ha).remember hx (hv answers hb ha)

end

/-- An evaluation of the node at a path calls these accessors and has the outcome that their answers
tell. -/
structure Evaluates (root : Expr) (a : Analyzer) (path : NodePath) (x : Expr)
    (is : List Invocation) (out : Except QueryError Value × Analyzer) : Prop where
  leads : Leads root a is out.2
  value : ∀ answers, Answered root answers out.2 → Told root answers a →
    out.1 = x.valueFrom answers path

namespace Evaluates

variable {root x : Expr} {a b : Analyzer} {is : List Invocation} {path : NodePath}

theorem remembered {v : Value} (hx : root.node? path = some x)
    (known : a.values.lookup path = some v) : Evaluates root a path x [] (.ok v, a) :=
  ⟨.refl root a, fun _ _ ha => (ha path x v hx known).symm⟩

theorem refused {e : QueryError} (h : ∀ answers, x.valueFrom answers path = .error e) :
    Evaluates root a path x [] (.error e, a) :=
  ⟨.refl root a, fun answers _ _ => (h answers).symm⟩

theorem remember {v : Value} (h : Leads root a is b) (new : a.values.lookup path = none)
    (hx : root.node? path = some x) (silent : ∀ accessor args, x ≠ .call (.accessor accessor) args)
    (hv : ∀ answers, Answered root answers b → Told root answers a →
      x.valueFrom answers path = .ok v) :
    Evaluates root a path x is (b.run (Analyzer.remember path v)) :=
  ⟨h.remember new hx silent hv, fun answers hc ha => (hv answers (hc.forget hx silent) ha).symm⟩

/-- A value computed from those of the operands is remembered, a fault is not. -/
theorem settle {r : Except EvaluationError Value} (h : Leads root a is b)
    (new : a.values.lookup path = none) (hx : root.node? path = some x)
    (silent : ∀ accessor args, x ≠ .call (.accessor accessor) args)
    (hr : ∀ answers, Answered root answers b → Told root answers a →
      x.valueFrom answers path = r.mapError .evaluation) :
    Evaluates root a path x is (b.run (ofValue r >>= Analyzer.remember path : Step Value)) := by
  cases r with
  | error e => exact ⟨h, fun answers hb ha => (hr answers hb ha).symm⟩
  | ok v => exact remember h new hx silent hr

/-- An accessor is called where its node has no value, and its answer is remembered. -/
theorem call {accessor : Accessor} {args : List Expr} (new : a.values.lookup path = none)
    (hx : root.node? path = some (.call (.accessor accessor) args)) :
    Evaluates root a path (.call (.accessor accessor) args) [⟨path, accessor⟩]
      (a.run (callAccessor accessor >>= Analyzer.remember path : Step Value)) := by
  have answer {answers : NodePath → Value}
      (h : Answered root answers (a.run (callAccessor accessor >>= Analyzer.remember path)).2) :
      answers path = accessor.read a.log :=
    h path accessor args _ hx List.lookup_cons_self
  refine ⟨?_, fun answers hc _ => ?_⟩
  · exact {
      classes := id
      kept := fun p v hv => (lookup_remembered (a := a) (ne_of_lookup new hv)).trans hv
      unknown := by simpa using new
      known := List.forall_mem_singleton.2 (by
        show List.lookup path ((path, _) :: a.values) ≠ none
        simp)
      once := by simp
      called := List.forall_mem_singleton.2 ⟨args, hx⟩
      log := rfl
      told := fun answers hc ha => Told.remember ha hx (congrArg Except.ok (answer hc)) }
  · exact congrArg Except.ok (answer hc).symm

end Evaluates

section

variable {root : Expr}

theorem evaluates_evaluate : (x : Expr) → ∀ {a : Analyzer} {path : NodePath},
    root.node? path = some x →
    Evaluates root a path x (invoked a path x) (a.run (evaluate path x)) := by
  intro x a path hx
  have below (i : Nat) {y : Expr} (hy : x.children[i]? = some y) :
      root.node? (i :: path) = some y := (node?_cons hx i).trans hy
  unfold evaluate invoked
  rw [run_read]
  cases new : a.values.lookup path with
  | some v => exact .remembered hx new
  | none =>
      cases x with
      | literal v => exact .remember (.refl root a) new hx (by simp) fun _ _ _ => rfl
      | row e => exact .refused fun _ => rfl
      | construct target bindings => exact .refused fun _ => rfl
      | call f args =>
          cases f with
          | accessor accessor => exact .call new hx
          | _ => exact .refused fun _ => rfl
      | member t name =>
          have ht := evaluates_evaluate t (a := a) (below 0 rfl)
          simp only [run_bind (evaluate _ _)]
          generalize a.run (evaluate (0 :: path) t) = out at ht ⊢
          obtain ⟨e | v, b⟩ := out
          · exact ⟨ht.leads, fun answers hb ha => by
              rw [valueFrom, ← ht.value answers hb ha]
              rfl⟩
          · refine .settle ht.leads new hx (by simp) fun answers hb ha => ?_
            rw [valueFrom, ← ht.value answers hb ha]
            rfl
      | comparison op l r | logical op l r =>
          have hl := evaluates_evaluate l (a := a) (below 0 rfl)
          simp only [run_bind (evaluate _ _)]
          generalize a.run (evaluate (0 :: path) l) = out at hl ⊢
          obtain ⟨e | v, b⟩ := out
          · refine ⟨(List.append_nil _).symm ▸ hl.leads, fun answers hb ha => ?_⟩
            rw [valueFrom, ← hl.value answers hb ha]
            rfl
          have hr := evaluates_evaluate r (a := b) (below 1 rfl)
          dsimp only at hr ⊢
          generalize b.run (evaluate (1 :: path) r) = out at hr ⊢
          have value (answers) (hc : Answered root answers out.2) (ha : Told root answers a) :
              l.valueFrom answers (0 :: path) = .ok v ∧
                r.valueFrom answers (1 :: path) = out.1 := by
            have hb := hc.before hr.leads
            exact ⟨(hl.value answers hb ha).symm,
              (hr.value answers hc (hl.leads.told answers hb ha)).symm⟩
          have both := hl.leads.trans hr.leads
          obtain ⟨e | w, c⟩ := out
          · refine ⟨both, fun answers hc ha => ?_⟩
            rw [valueFrom, (value answers hc ha).1, (value answers hc ha).2]
            rfl
          · refine .settle both new hx (by simp) fun answers hc ha => ?_
            rw [valueFrom, (value answers hc ha).1, (value answers hc ha).2]
            rfl

/-- Classes are no values, so nothing was called. -/
theorem Leads.classified {a : Analyzer} {classes : List (NodePath × Bool)}
    (h : ClassesHold root classes) : Leads root a [] { a with classes := classes } where
  classes _ := h
  kept _ _ h := h
  unknown := by simp
  known := by simp
  once := .nil
  called := by simp
  log := rfl
  told _ _ h := h

/-- A request for the value of a node calls accessors of nodes that have no value yet. The answers of
accessors tell what it gives. -/
theorem leads_fold {x : Expr} {a : Analyzer} {path : NodePath} (ha : ClassesHold root a.classes)
    (hx : root.node? path = some x) :
    let out := a.run (fold path x)
    Leads root a (invokedBy root a (.fold path)) out.2 ∧
      ∀ answers, Answered root answers out.2 → Told root answers a →
        out.1 = if x.foldable then (x.valueFrom answers path).map some else .ok none := by
  obtain ⟨classes, hrun, hclasses⟩ := classifies_classify x ha hx
  have classified := Leads.classified (a := a) hclasses
  simp only [fold, invokedBy, hx, run_classified, hrun]
  cases x.foldable with
  | false => exact ⟨classified, fun _ _ _ => rfl⟩
  | true =>
      have value := evaluates_evaluate x (a := { a with classes := classes }) hx
      simp only [if_true, map_eq_pure_bind, run_bind (evaluate _ _)]
      generalize Analyzer.run _ (evaluate path x) = out at value ⊢
      have leads := classified.trans value.leads
      obtain ⟨e | v, b⟩ := out
      all_goals
        refine ⟨leads, fun answers hb ha => ?_⟩
        rw [← value.value answers hb ha]
        rfl

theorem leads_after {a : Analyzer} (ha : ClassesHold root a.classes) (c : Call) :
    Leads root a (invokedBy root a c) (after root a c) := by
  cases c with
  | classify path =>
      cases hx : root.node? path with
      | none => simpa only [after, invokedBy, hx] using Leads.refl root a
      | some x =>
          obtain ⟨classes, hrun, hclasses⟩ := classifies_classify x ha hx
          simpa only [after, invokedBy, hx, hrun] using Leads.classified hclasses
  | fold path =>
      cases hx : root.node? path with
      | none => simpa only [after, invokedBy, hx] using Leads.refl root a
      | some x => simpa only [after, hx] using (leads_fold ha hx).1

theorem leads_afterAll {a : Analyzer} (ha : ClassesHold root a.classes) (calls : List Call) :
    Leads root a (invokedByAll root a calls) (calls.foldl (after root) a) := by
  induction calls generalizing a with
  | nil => exact .refl root a
  | cons c calls ih =>
      have first := leads_after ha c
      exact first.trans (ih (first.classes ha))

end

/-- Whatever an analyzer is asked about the nodes of a tree, each accessor is called for a node of its
own, and no other calls are in the log. What a node folds to, or fails with, is what it folded to, or
failed with, before, whatever was asked in between. -/
theorem fold_again (root : Expr) (log : CallLog) :
    (∀ calls : List Call,
      let is := invokedByAll root (new log) calls
      (is.map Invocation.path).Nodup ∧
        (∀ i ∈ is, ∃ args, root.node? i.path = some (.call (.accessor i.accessor) args)) ∧
        (calls.foldl (after root) (new log)).log = (is.map (·.accessor.name)).reverse ++ log) ∧
      ∀ (before between : List Call) (path : NodePath) (x : Expr), root.node? path = some x →
        let a := before.foldl (after root) (new log)
        let b := between.foldl (after root) (a.run (fold path x)).2
        (b.run (fold path x)).1 = (a.run (fold path x)).1 := by
  have start : ClassesHold root (new log).classes := fun _ _ _ _ h => by cases h
  refine ⟨fun calls => ?_, fun before between path x hx => ?_⟩
  · have leads := leads_afterAll start calls
    exact ⟨leads.once, leads.called, leads.log⟩
  intro a b
  have toFirst : Leads root (new log) _ a := leads_afterAll start before
  have ha := toFirst.classes start
  obtain ⟨first, firstValue⟩ := leads_fold ha hx
  have toSecond : Leads root (a.run (fold path x)).2 _ b :=
    leads_afterAll (first.classes ha) between
  have hb := toSecond.classes (first.classes ha)
  obtain ⟨second, secondValue⟩ := leads_fold hb hx
  -- What is remembered in the end answers for all accessors called so far.
  let answers : NodePath → Value := fun p =>
    ((b.run (fold path x)).2.values.lookup p).getD .null
  have atEnd : Answered root answers (b.run (fold path x)).2 := by
    intro p accessor args v _ hv
    show (List.lookup p _).getD .null = v
    rw [hv, Option.getD_some]
  have atSecond := atEnd.before second
  have afterFirst := atSecond.before toSecond
  have told : Told root answers a :=
    toFirst.told answers (afterFirst.before first) fun _ _ _ _ h => by cases h
  have toldLater := toSecond.told answers atSecond (first.told answers afterFirst told)
  rw [firstValue answers afterFirst told, secondValue answers atEnd toldLater]

/-- Lists the accessors called before. -/
def history : Accessor := ⟨"history", fun log => .list (log.map .text)⟩

/-- A list and a member of another; no list has members. -/
def misread : Expr :=
  .comparison .add (.call (.accessor history) [])
    (.member (.call (.accessor history) []) "day")

/-- The sum fails as often as it is asked for. Each list is made once, the second one first. -/
theorem misread_folds :
    let calls := [.fold [0, 1], .fold [], .classify [1], .fold [0], .fold [0, 1], .fold []]
    let a := [.fold [0, 1]].foldl (after misread) (new ["now"])
    let b := calls.foldl (after misread) (a.run (fold [] misread)).2
    (invokedByAll misread (new ["now"]) calls).map Invocation.path = [[0, 1], [0]] ∧
      (calls.foldl (after misread) (new ["now"])).log = ["history", "history", "now"] ∧
      misread.node? [] = some misread ∧
      (a.run (fold [] misread)).1 = .error (.evaluation (.notObject "day" "list")) ∧
      (b.run (fold [] misread)).1 = (a.run (fold [] misread)).1 := by
  intro calls a b
  obtain ⟨-, again⟩ := fold_again misread ["now"]
  have failed : ((a.run (fold [] misread)).1.map fun _ => ()) =
      .error (.evaluation (.notObject "day" "list")) := by decide +kernel
  refine ⟨by decide +kernel, by decide +kernel, rfl, ?_, again [.fold [0, 1]] calls [] misread rfl⟩
  generalize (a.run (fold [] misread)).1 = r at failed ⊢
  cases r with
  | error e => exact congrArg Except.error (Except.error.inj failed)
  | ok v => cases failed

end Analyzer

end TypedQuery
