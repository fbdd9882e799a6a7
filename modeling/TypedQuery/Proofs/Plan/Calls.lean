import TypedQuery.Proofs.Plan.Building

/-!
# Calls and the steps they make

An accepted call makes one step of its plan and appends one fragment to it. Here the step knows its
call: which expression was translated and for which clause, which entity was joined, what was
projected. Statements that do not depend on the calls forget them and are about steps of any kind.
-/

namespace TypedQuery

open TypedQuery.Sql TypedQuery.Sql.Fragment

namespace Plan

/-- What a call asks for. -/
inductive Action where
  | condition (c : Clause) (x : Expr)
  | order (x : Expr) (o : SortOrder)
  | join (type : JoinType) (related : Entity) (leftKey rightKey : Expr)
  | projection (target : Entity) (x : Expr)
  | aggregate (name : String) (x : Expr)
  | limit (n : Nat)
  | offset (n : Nat)

namespace Action

/-- The clause that gets a fragment. -/
def clause : Action → Clause
  | condition c _ => c
  | order .. => .orderBy
  | join .. => .join
  | projection .. => .select
  | aggregate .. => .selectAggregate
  | limit _ => .limit
  | offset _ => .offset

/-- The expression that the fragment is written for. -/
def expr? : Action → Option Expr
  | condition _ x | order x _ | projection _ x | aggregate _ x => some x
  | join _ _ l r => some (.comparison .eq l r)
  | limit _ | offset _ => none

/-- The entities that are read or joined. -/
def entities : Action → List Entity
  | condition _ x | order x _ | projection _ x | aggregate _ x => x.entities
  | join _ related l r => related :: (l.entities ++ r.entities)
  | limit _ | offset _ => []

theorem entities_of_expr? {a : Action} {x : Expr} (h : a.expr? = some x) :
    ∀ E ∈ x.entities, E ∈ a.entities := by
  intro E hE
  cases a with
  | condition c y | order y o | projection target y | aggregate name y =>
      obtain rfl := Option.some.inj h
      exact hE
  | join type related l r =>
      obtain rfl := Option.some.inj h
      rw [Expr.entities_comparison] at hE
      exact List.mem_cons_of_mem _ hE
  | limit n | offset n => cases h

end Action

/-- The action is taken: what was checked, what was translated and what the plan has got. -/
inductive Takes (p : Plan) : Action → Plan → Prop
  | condition {c x f q} (clause : c = .where ∨ c = .having ∧ p.grouped = true)
      (reads : p.checkParticipants x = .ok ()) (translated : p.Translated c x f q) :
      Takes p (.condition c x) (q.push c f)
  | order {x o f q} (reads : p.checkParticipants x = .ok ())
      (translated : p.Translated .orderBy x f q) :
      Takes p (.order x o) (q.push .orderBy (f ++ [.space, .keyword (SortOrder.symbol o)]))
  | join {type left right related l r label f q} (fresh : p.participates related = false)
      (leftKey : joinKeyEntity l = .ok left) (old : p.participates left = true)
      (rightKey : joinKeyEntity r = .ok right) (new : right.same related = true)
      (translated : p.Translated .join (.comparison .eq l r) f q)
      (registered : q.aliases.lookup? related = some label)
      (apart : q.collision? (.full related label) = none) :
      Takes p (.join type related l r) (q.addJoin ⟨type, left, .full related label, f⟩)
  | projection {target constructed bindings label fields f q}
      (constructs : constructed.same target = true)
      (projected : projectedFields target bindings = .ok fields)
      (reads : p.checkParticipants (.construct constructed bindings) = .ok ())
      (translated : p.Translated .select (.construct constructed bindings) f q)
      (registered : q.aliases.lookup? target = some label) :
      Takes p (.projection target (.construct constructed bindings))
        (q.setProjection ⟨target, label, fields⟩ f)
  | aggregate {name x f q} (grouped : p.grouped = true) (named : p.checkOutputName name = .ok ())
      (reads : p.checkParticipants x = .ok ()) (translated : p.Translated .selectAggregate x f q) :
      Takes p (.aggregate name x) (q.addAggregationKey ⟨name, x.outputKind⟩ f)
  | limit (n : Nat) : Takes p (.limit n) (p.push .limit [.number n])
  | offset (n : Nat) : Takes p (.offset n) (p.push .offset [.number n])

/-- Some actions are taken one after the other. -/
inductive Runs : Plan → List Action → Plan → Prop
  | nil {p} : Runs p [] p
  | cons {p q r a as} (first : Takes p a q) (rest : Runs q as r) : Runs p (a :: as) r

variable {Known : Entity → Prop} {p q r : Plan} {c : Clause} {x : Expr} {f : Fragment} {a : Action}
  {as : List Action}

/-- An action is a step of the plan. -/
theorem Takes.step (h : Takes p a q) (known : ∀ E ∈ a.entities, Known E) : Step Known p q := by
  cases h with
  | condition clause reads translated => exact .condition clause known reads translated
  | order reads translated => exact .order known reads translated
  | join fresh leftKey old rightKey new translated registered apart =>
      exact .join known fresh leftKey old rightKey new translated registered apart
  | projection constructs projected reads translated registered =>
      exact .projection known reads translated registered
  | aggregate grouped named reads translated =>
      exact .aggregationKey grouped known named reads translated
  | limit n => exact .limit n
  | offset n => exact .offset n

/-- An action appends one fragment, to its clause. -/
theorem Takes.fragments (h : Takes p a q) : ∃ f, q.fragments = p.fragments ++ [(a.clause, f)] := by
  cases h with
  | condition clause reads translated | order reads translated
  | join fresh leftKey old rightKey new translated registered apart
  | projection constructs projected reads translated registered
  | aggregate grouped named reads translated =>
      obtain ⟨b, -, rfl⟩ := translated
      exact ⟨_, rfl⟩
  | limit n | offset n => exact ⟨_, rfl⟩

theorem Takes.fragmentsOf_of_ne (h : Takes p a q) (hc : a.clause ≠ c) :
    q.fragmentsOf c = p.fragmentsOf c := by
  obtain ⟨f, hf⟩ := h.fragments
  simp [fragmentsOf, hf, hc]

theorem Runs.induction {motive : Plan → Prop} (h : Runs p as q) (first : motive p)
    (step : ∀ a ∈ as, ∀ p q, motive p → Takes p a q → motive q) : motive q := by
  induction h with
  | nil => exact first
  | cons next rest ih =>
      obtain ⟨hnext, hrest⟩ := List.forall_mem_cons.1 step
      exact ih (hnext _ _ first next) hrest

theorem Runs.steps (h : Runs p as q) (known : ∀ a ∈ as, ∀ E ∈ a.entities, Known E) :
    Steps Known p q :=
  h.induction (motive := fun q => Steps Known p q) .refl
    fun a ha _ _ steps taken => steps.tail (taken.step (known a ha))

/-- Every action appends one fragment, in the order of the actions. -/
theorem Runs.clauses (h : Runs p as q) :
    q.fragments.map Prod.fst = p.fragments.map Prod.fst ++ as.map Action.clause := by
  induction h with
  | nil => simp
  | cons first rest ih =>
      obtain ⟨f, hf⟩ := first.fragments
      rw [ih, hf]
      simp

theorem takes_of_addPredicate (clause : c = .where ∨ c = .having ∧ p.grouped = true)
    (h : p.addPredicate c x = .ok q) : Takes p (.condition c x) q := by
  obtain ⟨⟨f, r⟩, hfragment, hpush⟩ := Outcome.bind_ok.1 h
  obtain ⟨hreads, htranslated⟩ := checkedFragment_ok hfragment
  obtain rfl := Except.ok.inj hpush
  exact .condition clause hreads htranslated

theorem takes_of_addOrder {o : SortOrder} (h : p.addOrder x o = .ok q) :
    Takes p (.order x o) q := by
  obtain ⟨⟨f, r⟩, hfragment, hpush⟩ := Outcome.bind_ok.1 h
  obtain ⟨hreads, htranslated⟩ := checkedFragment_ok hfragment
  obtain rfl := Except.ok.inj hpush
  exact .order hreads htranslated

theorem takes_of_addJoinOn {type : JoinType} {related : Entity} {l r : Expr}
    (h : p.addJoinOn type related l r = .ok q) : Takes p (.join type related l r) q := by
  unfold addJoinOn at h
  split at h
  · cases h
  rename_i hfresh
  obtain ⟨left, hleft, h⟩ := Outcome.bind_ok.1 h
  split at h
  · cases h
  rename_i hold
  obtain ⟨right, hright, h⟩ := Outcome.bind_ok.1 h
  split at h
  · cases h
  rename_i hnew
  obtain ⟨⟨f, s⟩, htranslated, h⟩ := Outcome.bind_ok.1 h
  dsimp only at h
  split at h
  · cases h
  rename_i label hlabel
  split at h
  · cases h
  rename_i hapart
  obtain rfl := Except.ok.inj h
  exact .join (by simpa using hfresh) hleft (by simpa using hold) hright (by simpa using hnew)
    (translated_ok htranslated) hlabel hapart

theorem steps_of_addGroupingKeys {keys : List (String × Expr)} (grouped : p.grouped = true)
    (known : ∀ key ∈ keys, ∀ E ∈ key.2.entities, Known E) (h : p.addGroupingKeys keys = .ok q) :
    KeySteps Known keys p q := by
  induction keys generalizing p with
  | nil =>
      obtain rfl := Except.ok.inj h
      exact .nil
  | cons key rest ih =>
      obtain ⟨name, x⟩ := key
      obtain ⟨_, hnamed, h⟩ := Outcome.bind_ok.1 h
      obtain ⟨⟨f, r⟩, hfragment, h⟩ := Outcome.bind_ok.1 h
      obtain ⟨hreads, htranslated⟩ := checkedFragment_ok hfragment
      have first : KeyStep Known p (name, x) (r.addGroupingKey ⟨name, x.outputKind⟩ f) :=
        .add grouped (known (name, x) (by simp)) hnamed hreads htranslated
      exact .cons first (ih first.grouped (fun key hkey => known key (by simp [hkey])) h)

end Plan

namespace Query

open Plan

variable {q q' : Query}

def Call.action : Call → Action
  | .filter x => .condition .where x
  | .join type related l r => .join type related l r
  | .orderBy x o => .order x o
  | .limit n => .limit n
  | .offset n => .offset n
  | .select target x => .projection target x

theorem Call.entities_action (c : Call) : c.action.entities = c.entities := by
  cases c <;> rfl

theorem takes_of_select {target : Entity} {x : Expr} (h : q.select target x = .ok q') :
    Takes q.plan (.projection target x) q'.plan ∧ q'.ordered = q.ordered ∧
      q'.result = target := by
  unfold select at h
  dsimp only at h
  split at h
  · rename_i constructed bindings
    split at h
    · cases h
    rename_i hconstructs
    obtain ⟨fields, hfields, h⟩ := Outcome.bind_ok.1 h
    obtain ⟨⟨f, p⟩, hfragment, h⟩ := Outcome.bind_ok.1 h
    obtain ⟨hreads, htranslated⟩ := checkedFragment_ok hfragment
    dsimp only at h
    split at h
    · cases h
    rename_i label hlabel
    obtain rfl := Except.ok.inj h
    exact ⟨.projection (by simpa using hconstructs) hfields hreads htranslated hlabel, rfl, rfl⟩
  · cases h

/-- An accepted call takes its action, and a call that sorts is remembered. -/
theorem takes_of_call {c : Call} (h : q.call c = .ok q') :
    Takes q.plan c.action q'.plan ∧
      q'.ordered = (q.ordered || c.action.clause == .orderBy) := by
  cases c with
  | filter x =>
      obtain ⟨p, hplan, hquery⟩ := Outcome.bind_ok.1 h
      obtain rfl := Except.ok.inj hquery
      exact ⟨takes_of_addPredicate (.inl rfl) hplan, (Bool.or_false _).symm⟩
  | join type related l r =>
      obtain ⟨p, hplan, hquery⟩ := Outcome.bind_ok.1 h
      obtain rfl := Except.ok.inj hquery
      exact ⟨takes_of_addJoinOn hplan, (Bool.or_false _).symm⟩
  | orderBy x o =>
      obtain ⟨p, hplan, hquery⟩ := Outcome.bind_ok.1 h
      obtain rfl := Except.ok.inj hquery
      exact ⟨takes_of_addOrder hplan, (Bool.or_true _).symm⟩
  | limit n =>
      obtain rfl := Except.ok.inj h
      exact ⟨.limit n, (Bool.or_false _).symm⟩
  | offset n =>
      obtain rfl := Except.ok.inj h
      exact ⟨.offset n, (Bool.or_false _).symm⟩
  | select target x =>
      obtain ⟨taken, hordered, -⟩ := takes_of_select h
      exact ⟨taken, hordered.trans (Bool.or_false _).symm⟩

/-- The entity that a call makes the results of the query. -/
def Call.target? : Call → Option Entity
  | .select target _ => some target
  | _ => none

theorem result_of_call {c : Call} (h : q.call c = .ok q') :
    q'.result = c.target?.getD q.result := by
  cases c with
  | filter x | join type related l r | orderBy x o =>
      obtain ⟨p, -, hquery⟩ := Outcome.bind_ok.1 h
      obtain rfl := Except.ok.inj hquery
      rfl
  | limit n | offset n =>
      obtain rfl := Except.ok.inj h
      rfl
  | select target x => exact (takes_of_select h).2.2

theorem runs_of_calls {calls : List Call} (h : calls.foldlM call q = .ok q') :
    Runs q.plan (calls.map Call.action) q'.plan := by
  induction calls generalizing q with
  | nil =>
      obtain rfl := Except.ok.inj h
      exact .nil
  | cons c rest ih =>
      rw [List.foldlM_cons] at h
      obtain ⟨middle, hcall, hrest⟩ := Outcome.bind_ok.1 h
      exact .cons (takes_of_call hcall).1 (ih hrest)

/-- A query that is not sorted has no sort key. -/
theorem fragmentsOf_orderBy_of_calls {calls : List Call} (h : calls.foldlM call q = .ok q')
    (start : q.plan.fragmentsOf .orderBy = []) (unsorted : q'.ordered = false) :
    q'.plan.fragmentsOf .orderBy = [] := by
  refine Outcome.foldlM_induction
    (motive := fun q => q.ordered = false → q.plan.fragmentsOf .orderBy = []) h (fun _ => start)
    (fun c _ a b old hcall hb => ?_) unsorted
  obtain ⟨taken, hordered⟩ := takes_of_call hcall
  obtain ⟨ha, hclause⟩ := Bool.or_eq_false_iff.1 (hordered.symm.trans hb)
  rw [taken.fragmentsOf_of_ne (by simpa using hclause)]
  exact old ha

theorem steps_of_groupBy {Known : Entity → Prop} {keys : List (String × Expr)} {g : GroupedQuery}
    (known : ∀ key ∈ keys, ∀ E ∈ key.2.entities, Known E) (h : q.groupBy keys = .ok g) :
    q.ordered = false ∧ KeySteps Known keys q.plan.beginGrouping g.plan ∧
      g.plan.groupingKeys ≠ [] := by
  unfold groupBy at h
  split at h
  · cases h
  rename_i unsorted
  obtain ⟨p, hkeys, h⟩ := Outcome.bind_ok.1 h
  split at h
  · cases h
  rename_i keyed
  obtain rfl := Except.ok.inj h
  exact ⟨by simpa using unsorted, steps_of_addGroupingKeys rfl known hkeys, by simpa using keyed⟩

end Query

namespace GroupedQuery

open Plan

variable {q q' : GroupedQuery}

def Call.action : Call → Action
  | .filter x => .condition .where x
  | .join type related l r => .join type related l r
  | .aggregate name x => .aggregate name x
  | .having x => .condition .having x
  | .orderBy x o => .order x o
  | .limit n => .limit n
  | .offset n => .offset n

theorem Call.entities_action (c : Call) : c.action.entities = c.entities := by
  cases c <;> rfl

theorem takes_of_aggregate {name : String} {x : Expr} (grouped : q.plan.grouped = true)
    (h : q.aggregate name x = .ok q') : Takes q.plan (.aggregate name x) q'.plan := by
  unfold aggregate at h
  split at h
  · obtain ⟨_, hnamed, h⟩ := Outcome.bind_ok.1 h
    obtain ⟨⟨f, p⟩, hfragment, h⟩ := Outcome.bind_ok.1 h
    obtain ⟨hreads, htranslated⟩ := checkedFragment_ok hfragment
    obtain rfl := Except.ok.inj h
    exact .aggregate grouped hnamed hreads htranslated
  · cases h

theorem takes_of_call {c : Call} (grouped : q.plan.grouped = true) (h : q.call c = .ok q') :
    Takes q.plan c.action q'.plan := by
  cases c with
  | filter x | join type related l r | having x | orderBy x o =>
      obtain ⟨p, hplan, hquery⟩ := Outcome.bind_ok.1 h
      obtain rfl := Except.ok.inj hquery
      first
        | exact takes_of_addPredicate (.inl rfl) hplan
        | exact takes_of_addPredicate (.inr ⟨rfl, grouped⟩) hplan
        | exact takes_of_addJoinOn hplan
        | exact takes_of_addOrder hplan
  | limit n =>
      obtain rfl := Except.ok.inj h
      exact .limit n
  | offset n =>
      obtain rfl := Except.ok.inj h
      exact .offset n
  | aggregate name x => exact takes_of_aggregate grouped h

theorem runs_of_calls {calls : List Call} (grouped : q.plan.grouped = true)
    (h : calls.foldlM call q = .ok q') : Runs q.plan (calls.map Call.action) q'.plan := by
  induction calls generalizing q with
  | nil =>
      obtain rfl := Except.ok.inj h
      exact .nil
  | cons c rest ih =>
      rw [List.foldlM_cons] at h
      obtain ⟨middle, hcall, hrest⟩ := Outcome.bind_ok.1 h
      have taken := takes_of_call grouped hcall
      exact .cons taken (ih ((taken.step fun _ _ => trivial).grouped.trans grouped) hrest)

end GroupedQuery

namespace Build

open Plan

variable {Known : Entity → Prop} {d : Build} {naming : Naming} {log : CallLog} {start p : Plan}

/-- The actions after grouping. -/
def Grouping.actions (g : Grouping) : List Action := g.calls.map GroupedQuery.Call.action

/-- The actions of all calls. -/
def actions (d : Build) : List Action :=
  d.calls.map Query.Call.action ++ d.grouping.toList.flatMap Grouping.actions

/-- The expressions that are given, with the clauses they are given for. -/
def sources (d : Build) : List (Clause × Expr) :=
  d.actions.filterMap (fun a => a.expr?.map (a.clause, ·)) ++
    d.keys.map fun key => (.groupBy, key.2)

theorem entities_of_actions {a : Action} (ha : a ∈ d.actions) :
    ∀ E ∈ a.entities, E ∈ d.entities := by
  intro E hE
  simp only [entities, List.cons_append, List.mem_cons, List.mem_append, List.mem_flatMap]
  rcases List.mem_append.1 ha with hrow | hgroup
  · obtain ⟨c, hc, rfl⟩ := List.mem_map.1 hrow
    exact .inr (.inl ⟨c, hc, c.entities_action ▸ hE⟩)
  · obtain ⟨grouping, hgrouping, ha⟩ := List.mem_flatMap.1 hgroup
    obtain ⟨c, hc, rfl⟩ := List.mem_map.1 ha
    exact .inr (.inr ⟨grouping, hgrouping, .inr ⟨c, hc, c.entities_action ▸ hE⟩⟩)

theorem entities_of_keys {key : String × Expr} (hkey : key ∈ d.keys) :
    ∀ E ∈ key.2.entities, E ∈ d.entities := by
  intro E hE
  unfold keys at hkey
  split at hkey
  · cases hkey
  · rename_i grouping hgrouping
    simp only [entities, hgrouping, List.cons_append, List.mem_cons, List.mem_append,
      List.mem_flatMap, Option.toList_some, List.not_mem_nil, or_false]
    exact .inr (.inr ⟨grouping, rfl, .inl ⟨key, hkey, hE⟩⟩)

theorem entities_of_sources {c : Clause} {x : Expr} (h : (c, x) ∈ d.sources) :
    ∀ E ∈ x.entities, E ∈ d.entities := by
  intro E hE
  rcases List.mem_append.1 h with haction | hsource
  · obtain ⟨a, ha, hsource⟩ := List.mem_filterMap.1 haction
    obtain ⟨y, hy, hpair⟩ := Option.map_eq_some_iff.1 hsource
    obtain ⟨-, rfl⟩ := Prod.mk.inj hpair
    exact entities_of_actions ha E (Action.entities_of_expr? hy E hE)
  · obtain ⟨key, hkey, hpair⟩ := List.mem_map.1 hsource
    obtain ⟨-, rfl⟩ := Prod.mk.inj hpair
    exact entities_of_keys hkey E hE

/-- The calls of a build lead from the start to the plan. Rows are grouped before they are
sorted. -/
inductive Makes (d : Build) (start : Plan) : Plan → Prop
  | rows {q} (single : d.grouping = none) (rows : Runs start (d.calls.map Query.Call.action) q) :
      Makes d start q
  | groups {grouping q q' r} (two : d.grouping = some grouping)
      (rows : Runs start (d.calls.map Query.Call.action) q)
      (unsorted : q.fragmentsOf .orderBy = []) (keyed : grouping.keys ≠ [])
      (group : KeySteps (· ∈ d.entities) grouping.keys q.beginGrouping q')
      (groups : Runs q' grouping.actions r) : Makes d start r

theorem makes_of_plan (h : d.plan naming log = .ok p) :
    d.Makes (.new d.root naming log) p := by
  obtain ⟨q, hcalls, h⟩ := Outcome.bind_ok.1 h
  have rows := Query.runs_of_calls hcalls
  split at h
  · rename_i hgrouping
    obtain rfl := Except.ok.inj h
    exact .rows hgrouping rows
  rename_i grouping hgrouping
  obtain ⟨g, hkeys, h⟩ := Outcome.bind_ok.1 h
  obtain ⟨g', hcalls', h⟩ := Outcome.bind_ok.1 h
  obtain rfl := Except.ok.inj h
  have hknown : ∀ key ∈ grouping.keys, ∀ E ∈ key.2.entities, E ∈ d.entities := by
    intro key hkey
    exact entities_of_keys (by rw [keys, hgrouping]; exact hkey)
  obtain ⟨hunsorted, group, hne⟩ := Query.steps_of_groupBy hknown hkeys
  have keyed : grouping.keys ≠ [] := by
    intro hnil
    have steps : Steps (fun _ => True) _ q.plan := rows.steps fun _ _ _ _ => trivial
    apply hne
    rw [group.keys.1, hnil, List.map_nil, List.append_nil]
    exact steps.keys.1
  exact .groups hgrouping rows (Query.fragmentsOf_orderBy_of_calls hcalls rfl hunsorted) keyed group
    (GroupedQuery.runs_of_calls (group.grouped rfl) hcalls')

/-- What holds at the start and is kept by the actions, by grouping and by the keys holds of the
plan. -/
theorem Makes.induction {motive : Plan → Prop} (h : d.Makes start p) (first : motive start)
    (action : ∀ a ∈ d.actions, ∀ p q, motive p → Takes p a q → motive q)
    (group : ∀ p, motive p → p.fragmentsOf .orderBy = [] → motive p.beginGrouping)
    (key : ∀ key ∈ d.keys, ∀ p q, motive p → KeyStep (· ∈ d.entities) p key q → motive q) :
    motive p := by
  have row : ∀ a ∈ d.calls.map Query.Call.action, a ∈ d.actions :=
    fun a ha => List.mem_append_left _ ha
  cases h with
  | rows single rows => exact rows.induction first fun a ha => action a (row a ha)
  | @groups grouping p₀ q₀ _ two rows unsorted keyed grouped groups =>
      have hrows := rows.induction first fun a ha => action a (row a ha)
      have hgroup : motive q₀ := by
        refine grouped.induction (group _ hrows unsorted) fun k hk => ?_
        exact key k (by rw [keys, two]; exact hk)
      refine groups.induction hgroup fun a ha => action a (List.mem_append_right _ ?_)
      rw [two, Option.toList_some, List.flatMap_singleton]
      exact ha

/-- The plan of some calls is built by steps from the new plan. -/
theorem built_of_plan (known : ∀ E ∈ d.entities, Known E) (h : d.plan naming log = .ok p) :
    Built Known (.new d.root naming log) d.keys p := by
  have action {a : Action} (ha : a ∈ d.actions) : ∀ E ∈ a.entities, Known E :=
    fun E hE => known E (entities_of_actions ha E hE)
  have row : ∀ a ∈ d.calls.map Query.Call.action, ∀ E ∈ a.entities, Known E :=
    fun a ha => action (List.mem_append_left _ ha)
  cases makes_of_plan h with
  | rows single rows =>
      rw [keys, single]
      exact .rows (rows.steps row)
  | groups two rows unsorted keyed group groups =>
      rw [keys, two]
      refine .groups (rows.steps row) keyed (group.mono known) (groups.steps fun a ha => ?_)
      refine action (List.mem_append_right _ ?_)
      rw [two, Option.toList_some, List.flatMap_singleton]
      exact ha

end Build

end TypedQuery
