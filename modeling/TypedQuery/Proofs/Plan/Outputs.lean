import TypedQuery.Proofs.Plan.Rewriting
import TypedQuery.Proofs.Plan.Scope
import TypedQuery.Proofs.Text.Alike

/-!
# The columns of a statement

A statement gives its rows the flattened columns of the root and the joined entities, or those of
the last projection, and a grouped one the named grouping keys and aggregates too. The checks that
the calls make, each against what was declared before it, keep all these names apart.
-/

namespace TypedQuery

open TypedQuery.Sql TypedQuery.Sql.Fragment

/-- The names of the fields are apart. -/
def Entity.FieldsApart (e : Entity) : Prop := Apart (e.fields.map Field.name)

instance (e : Entity) : Decidable e.FieldsApart :=
  inferInstanceAs (Decidable (Apart (e.fields.map Field.name)))

namespace Plan

variable {p q : Plan} {c : Clause} {f : Fragment} {fs : List Fragment} {name : String}
  {Known : Entity → Prop}

/-- A checked name is new among the grouping and aggregate columns and is no flattened column. -/
theorem checkOutputName_ok (h : p.checkOutputName name = .ok ()) :
    (∀ k ∈ p.outputKeys, Text.alike k.name name = false) ∧
      ∀ b ∈ p.bindings, b.hasColumn name = false := by
  unfold checkOutputName at h
  dsimp only at h
  split at h
  · cases h
  have unused : p.hasOutputKey name = false := by
    by_contra used
    rw [Bool.not_eq_false] at used
    simp [used, bind, Except.bind] at h
  have unflattened : p.hasRowColumn name = false := by
    by_contra flattened
    rw [Bool.not_eq_false] at flattened
    simp [unused, flattened, bind, Except.bind] at h
  exact ⟨by simpa [hasOutputKey] using unused, by simpa [hasRowColumn] using unflattened⟩

/-- The names of grouping and aggregate columns are apart from each other and from the flattened
columns. -/
structure NamesApart (p : Plan) : Prop where
  keys : Apart (p.outputKeys.map OutputKey.name)
  columns : ∀ k ∈ p.outputKeys, ∀ b ∈ p.bindings, b.hasColumn k.name = false

namespace NamesApart

theorem new (root : Entity) (naming : Naming) (log : CallLog) :
    (Plan.new root naming log).NamesApart :=
  ⟨.nil, fun _ hk => absurd hk List.not_mem_nil⟩

/-- A checked name is added to either list of keys. -/
theorem add (h : p.NamesApart) {k : OutputKey} (named : p.checkOutputName k.name = .ok ())
    (bindings : q.bindings = p.bindings)
    (keys : q.outputKeys.Perm (p.outputKeys ++ [k])) : q.NamesApart := by
  obtain ⟨hkeys, hcolumns⟩ := checkOutputName_ok named
  refine ⟨?_, fun k' hk' b hb => ?_⟩
  · rw [Apart.perm_iff (keys.map _), List.map_append, Apart.append_iff]
    refine ⟨h.keys, List.pairwise_singleton _ _, fun s hs t ht => ?_⟩
    obtain ⟨k', hk', rfl⟩ := List.mem_map.1 hs
    obtain rfl : t = k.name := by simpa using ht
    exact hkeys k' hk'
  · rw [bindings] at hb
    rcases List.mem_append.1 (keys.mem_iff.1 hk') with hold | hnew
    · exact h.columns k' hold b hb
    · obtain rfl := List.mem_singleton.1 hnew
      exact hcolumns b hb

/-- Nothing is named. -/
theorem keep (h : p.NamesApart) (bindings : q.bindings = p.bindings)
    (keys : q.outputKeys = p.outputKeys) : q.NamesApart :=
  ⟨keys ▸ h.keys, fun k hk b hb => h.columns k (keys ▸ hk) b (bindings ▸ hb)⟩

/-- An entity is joined that has no column of these names. -/
theorem join (h : p.NamesApart) {b : Binding} (bindings : q.bindings = p.bindings ++ [b])
    (keys : q.outputKeys = p.outputKeys) (apart : p.collision? b = none) : q.NamesApart := by
  refine ⟨keys ▸ h.keys, fun k hk b' hb' => ?_⟩
  rw [keys] at hk
  rw [bindings] at hb'
  rcases List.mem_append.1 hb' with hold | hnew
  · exact h.columns k hk b' hold
  · obtain rfl := List.mem_singleton.1 hnew
    simpa using List.find?_eq_none.1 apart k.name (List.mem_map_of_mem hk)

end NamesApart

theorem Step.namesApart (h : Step Known p q) (hp : p.NamesApart) : q.NamesApart := by
  cases h with
  | condition clause known reads translated | order known reads translated
  | projection known reads translated registered =>
      obtain ⟨b, rule, rfl⟩ := translated
      exact hp.keep rfl rfl
  | limit n | offset n => exact hp.keep rfl rfl
  | @join _ _ _ _ _ _ _ _ r known fresh leftKey old rightKey new translated registered apart =>
      obtain ⟨b, rule, rfl⟩ := translated
      exact hp.join (bindings_addJoin _ _) rfl apart
  | @aggregationKey name x _ _ grouped known named reads translated =>
      obtain ⟨b, rule, rfl⟩ := translated
      refine hp.add (k := ⟨name, x.outputKind⟩) named rfl ?_
      simp [outputKeys, addAggregationKey, push]

theorem KeyStep.namesApart {key : String × Expr} (h : KeyStep Known p key q) (hp : p.NamesApart) :
    q.NamesApart := by
  obtain @⟨name, x, _, _, grouped, known, named, reads, b, rule, rfl⟩ := h
  refine hp.add (k := ⟨name, x.outputKind⟩) named rfl ?_
  simp only [outputKeys, addGroupingKey, push, List.append_assoc]
  exact (List.perm_append_comm).append_left _

theorem Built.namesApart {start : Plan} {keys : List (String × Expr)}
    (h : Built Known start keys p) (hstart : start.NamesApart) : p.NamesApart :=
  h.induction hstart (fun _ _ old step => step.namesApart old) (fun _ old => old.keep rfl rfl)
    (fun _ _ _ old step => step.namesApart old)

theorem hasColumn_eq_false_iff {b : Binding} :
    b.hasColumn name = false ↔ ∀ s ∈ b.columns, Text.alike s name = false := by
  simp [Binding.hasColumn]

/-- Different bindings have different aliases, so their columns are apart. -/
theorem Scoped.apart_columns (h : p.Scoped) (fields : ∀ b ∈ p.bindings, b.entity.FieldsApart) :
    Apart (p.bindings.flatMap Binding.columns) := by
  refine List.pairwise_flatMap.2 ⟨fun b hb => ?_, h.apart.imp_of_mem fun {b b'} hb hb' differ => ?_⟩
  · have hcolumns : b.columns =
        (b.entity.fields.map Field.name).map fun s => b.label ++ "_" ++ s := by
      rw [Binding.columns, h.whole b hb, List.map_map]
      rfl
    rw [hcolumns]
    exact (fields b hb).map_append (b.label ++ "_")
  · intro s hs t ht
    obtain ⟨g, -, rfl⟩ := List.mem_map.1 hs
    obtain ⟨g', -, rfl⟩ := List.mem_map.1 ht
    have hlabel := h.registered b hb
    have hlabel' := h.registered b' hb'
    obtain ⟨m, hm⟩ := h.numbered.exists_of_lookup? hlabel
    obtain ⟨n, hn⟩ := h.numbered.exists_of_lookup? hlabel'
    by_contra halike
    rw [Bool.not_eq_false, Binding.column, Binding.column, hm, hn] at halike
    obtain ⟨rfl, -⟩ := Number.numbered_alike halike
    have same : b.entity.same b'.entity = true :=
      h.numbered.same_of_lookup? (hlabel.trans (congrArg some hm))
        (hlabel'.trans (congrArg some hn))
    simp [differ] at same

/-- All flattened columns and all names of grouping and aggregate columns are apart. -/
theorem NamesApart.apart (h : p.NamesApart) (scope : p.Scoped)
    (fields : ∀ b ∈ p.bindings, b.entity.FieldsApart) :
    Apart (p.bindings.flatMap Binding.columns ++ p.outputKeys.map OutputKey.name) := by
  refine Apart.append_iff.2 ⟨scope.apart_columns fields, h.keys, fun s hs t ht => ?_⟩
  obtain ⟨b, hb, hs⟩ := List.mem_flatMap.1 hs
  obtain ⟨k, hk, rfl⟩ := List.mem_map.1 ht
  exact hasColumn_eq_false_iff.1 (h.columns k hk b hb) s hs

/-- Every aggregate column is named as it was declared. -/
def AggregatesNamed (p : Plan) : Prop :=
  List.Forall₂ (fun k f => Names [k.name] f) p.aggregationKeys (p.fragmentsOf .selectAggregate)

theorem Step.aggregatesNamed (h : Step Known p q) (hp : p.AggregatesNamed) : q.AggregatesNamed := by
  have other {r : Plan} {c : Clause} {g : Fragment} (keys : r.aggregationKeys = p.aggregationKeys)
      (fragments : r.fragmentsOf .selectAggregate = p.fragmentsOf .selectAggregate)
      (hc : c ≠ .selectAggregate) : (r.push c g).AggregatesNamed := by
    rw [AggregatesNamed, fragmentsOf_push_of_ne _ _ hc, fragments]
    exact keys ▸ hp
  cases h with
  | condition clause known reads translated =>
      obtain ⟨b, rule, rfl⟩ := translated
      rcases clause with rfl | ⟨rfl, -⟩
      · exact other rfl rfl (by simp)
      · exact other rfl rfl (by simp)
  | order known reads translated | projection known reads translated registered
  | join known fresh leftKey old rightKey new translated registered apart =>
      obtain ⟨b, rule, rfl⟩ := translated
      exact other rfl rfl (by simp)
  | limit n | offset n => exact other rfl rfl (by simp)
  | @aggregationKey name x f _ grouped known named reads translated =>
      obtain ⟨b, rule, rfl⟩ := translated
      have bare : Bare f := rule.bare (by simp)
      have last : List.Forall₂ (fun k f => Names [k.name] f) [(⟨name, x.outputKind⟩ : OutputKey)]
          [f.named name] := .cons (bare.named name) .nil
      rw [AggregatesNamed, addAggregationKey]
      show List.Forall₂ _ (p.aggregationKeys ++ _) (fragmentsOf (push _ _ _) _)
      rw [fragmentsOf_push_self]
      exact List.rel_append hp last

theorem KeyStep.aggregatesNamed {key : String × Expr} (h : KeyStep Known p key q)
    (hp : p.AggregatesNamed) : q.AggregatesNamed := by
  obtain @⟨name, x, f, _, grouped, known, named, reads, b, rule, rfl⟩ := h
  have fragments : (Plan.push { p with binder := b } .groupBy f).fragmentsOf .selectAggregate =
      p.fragmentsOf .selectAggregate := fragmentsOf_push_of_ne _ _ (by simp)
  rw [AggregatesNamed, addGroupingKey]
  exact fragments ▸ hp

theorem Built.aggregatesNamed {start : Plan} {keys : List (String × Expr)}
    (h : Built Known start keys p) (hstart : start.AggregatesNamed) : p.AggregatesNamed :=
  h.induction hstart (fun _ _ old step => step.aggregatesNamed old) (fun _ old => old)
    (fun _ _ _ old step => step.aggregatesNamed old)

/-- The columns of the groups: the keys under their names and the aggregates. -/
def groupColumns (p : Plan) : List Fragment :=
  (p.groupings.map fun g => g.1.named g.2.name) ++ p.fragmentsOf .selectAggregate

/-- The condition on the groups, if there is one. -/
def groupFilter (p : Plan) : Fragment :=
  if (conditionClause "HAVING" (p.fragmentsOf .having)).isEmpty then []
  else .space :: conditionClause "HAVING" (p.fragmentsOf .having)

theorem groupingSql_eq (p : Plan) : p.groupingSql =
    after "SELECT" (joined .comma p.groupColumns) ++ .space :: after "FROM" p.aliasedRows ++
      .space :: after "GROUP BY" (joined .comma (p.fragmentsOf .groupBy)) ++ p.groupFilter := rfl

/-- What every token of some conditions has, those of the conditions behind a keyword have. -/
theorem forall_mem_conditionClause {P : Sql.Token → Prop} {word : String}
    (keyword : P (.keyword word))
    (stock : ∀ t ∈ [Sql.Token.space, .lparen, .rparen, .connective .and], P t)
    (h : ∀ f ∈ fs, ∀ t ∈ f, P t) : ∀ t ∈ conditionClause word fs, P t := by
  simp only [List.forall_mem_cons] at stock
  obtain ⟨space, left, right, and, -⟩ := stock
  have behind {f : Fragment} (hf : ∀ t ∈ f, P t) : ∀ t ∈ after word f, P t :=
    List.forall_mem_cons.2 ⟨keyword, List.forall_mem_cons.2 ⟨space, hf⟩⟩
  unfold conditionClause
  match fs with
  | [] => simp [conjunction?]
  | [f] => exact behind (h f (by simp))
  | f :: g :: fs =>
      refine behind (forall_mem_joined (by simp [separation, space, and]) fun k hk => ?_)
      obtain ⟨condition, hcondition, rfl⟩ := List.mem_map.1 hk
      rw [Fragment.parens, List.forall_mem_append, List.forall_mem_cons]
      exact ⟨⟨left, h condition hcondition⟩, by simpa using right⟩

theorem bare_conditionClause {word : String} (other : word ≠ "AS") (h : ∀ f ∈ fs, Bare f) :
    Bare (conditionClause word fs) :=
  forall_mem_conditionClause (by simpa using other) (by simp) h

theorem readsOnly_conditionClause {word : String} {R : String → String → Prop}
    (h : ∀ f ∈ fs, ReadsOnly R f) : ReadsOnly R (conditionClause word fs) :=
  readsOnly_iff.2 (forall_mem_conditionClause (by simp) (by simp)
    fun f hf => readsOnly_iff.1 (h f hf))

namespace Showing

variable {Given : Clause → Expr → Prop} (h : p.Showing Given)

include h

theorem bareOf (hc : c ≠ .select ∧ c ≠ .selectAggregate) : ∀ f ∈ p.fragmentsOf c, Bare f :=
  fun f hf => h.bare c f (p.mem_fragmentsOf.1 hf) hc.1 hc.2

theorem bare_fromClause : Bare p.fromClause :=
  Bare.after (Bare.joined (h.bareOf (by simp))) (by decide)

theorem bare_joinClause : Bare p.joinClause := Bare.joined (h.bareOf (by simp))

theorem bare_whereClause : Bare p.whereClause :=
  bare_conditionClause (by decide) (h.bareOf (by simp))

theorem bare_orderClause : Bare p.orderClause := by
  unfold orderClause
  split
  · exact bare_nil
  · exact Bare.after (Bare.joined (h.bareOf (by simp))) (by decide)

theorem bare_limitClause : Bare p.limitClause := by
  have last {c : Clause} {word : String} (hc : c ≠ .select ∧ c ≠ .selectAggregate)
      (other : word ≠ "AS") :
      ∀ f ∈ ((p.fragmentsOf c).getLast?.map (after word)).toList, Bare f := by
    intro f hf
    obtain ⟨g, hg, rfl⟩ := Option.map_eq_some_iff.1 (Option.mem_toList.1 hf)
    exact (h.bareOf hc g (List.mem_of_getLast? hg)).after other
  refine Bare.joined (List.forall_mem_append.2 ⟨?_, ?_⟩)
  · exact last (by simp) (by decide)
  · exact last (by simp) (by decide)

theorem bare_groupings {k : OutputKey} (hg : (f, k) ∈ p.groupings) : Bare f :=
  h.bareOf (c := .groupBy) (by simp) f (List.of_mem_zip hg).1

theorem bare_groupCondition : Bare p.groupCondition := by
  refine Bare.joined fun f hf => ?_
  obtain ⟨⟨g, k⟩, hg, rfl⟩ := List.mem_map.1 hf
  simpa [around] using h.bare_groupings hg

variable {ns : List String} (select : Names ns p.selectClause)

include select

/-- The rows have the columns that are selected. -/
theorem names_rowLines : List.Forall₂ Names [ns, [], [], []] p.rowLines := by
  have hselect : Names ns (after "SELECT" p.selectClause) :=
    .bare_append (f := [.keyword "SELECT", .space]) (by simp) select
  exact .cons hselect (.cons h.bare_fromClause.names (.cons h.bare_joinClause.names
    (.cons h.bare_whereClause.names .nil)))

theorem names_ungroupedSql : Names ns p.ungroupedSql := by
  have behind : List.Forall₂ Names [[], []] [p.orderClause, p.limitClause] :=
    .cons h.bare_orderClause.names (.cons h.bare_limitClause.names .nil)
  rw [ungroupedSql]
  simpa using Names.lines (List.rel_append (h.names_rowLines select) behind)

omit select in
/-- The groups have the columns of the keys and the aggregates. -/
theorem names_groupingSql (aggregates : p.AggregatesNamed)
    (keyed : (p.fragmentsOf .groupBy).length = p.groupingKeys.length) :
    Names (p.outputKeys.map OutputKey.name) p.groupingSql := by
  have hkeys : List.Forall₂ (fun s => Names [s]) (p.groupingKeys.map OutputKey.name)
      (p.groupings.map fun g => g.1.named g.2.name) := by
    have hsnd : p.groupings.map Prod.snd = p.groupingKeys := List.map_snd_zip keyed.ge
    rw [← hsnd, List.map_map, List.forall₂_map_left_iff, List.forall₂_map_right_iff,
      List.forall₂_same]
    exact fun g hg => (h.bare_groupings hg).named g.2.name
  have hcolumns : Names (p.outputKeys.map OutputKey.name) (joined .comma p.groupColumns) := by
    rw [outputKeys, List.map_append]
    exact .joined_each (List.rel_append hkeys (List.forall₂_map_left_iff.2 aggregates))
  have hfilter : Bare p.groupFilter := by
    unfold groupFilter
    split
    · exact bare_nil
    · simpa using bare_conditionClause (by decide) (h.bareOf (c := .having) (by simp))
  have hgroup : Bare (after "GROUP BY" (joined .comma (p.fragmentsOf .groupBy))) :=
    Bare.after (Bare.joined (h.bareOf (by simp))) (by decide)
  have hfrom : Bare (after "FROM" p.aliasedRows) := by simp [after, aliasedRows]
  have hselect : Names (p.outputKeys.map OutputKey.name)
      (after "SELECT" (joined .comma p.groupColumns)) :=
    .bare_append (f := [.keyword "SELECT", .space]) (by simp) hcolumns
  rw [groupingSql_eq]
  refine ((hselect.append_bare ?_).append_bare ?_).append_bare hfilter
  · simpa using hfrom
  · simpa using hgroup

/-- A grouped statement has both. -/
theorem names_groupedSql (aggregates : p.AggregatesNamed)
    (keyed : (p.fragmentsOf .groupBy).length = p.groupingKeys.length) :
    Names (ns ++ p.outputKeys.map OutputKey.name) p.groupedSql := by
  have hrows : Names ns (lines p.rowLines) := by simpa using Names.lines (h.names_rowLines select)
  -- the first AS names the stage of the rows and no column
  have hstage : Names [] [.keyword "WITH", .space, .name p.naming.cteName, .space, .keyword "AS",
      .space, .lparen, .newline] := fun _ => rfl
  have hwith : Names ns (after "WITH" (.name p.naming.cteName :: .space :: .keyword "AS" ::
      .space :: parens (.newline :: lines p.rowLines ++ [.newline]))) := by
    have hall := (hstage.append hrows).append_bare (g := [.newline, .rparen]) (by simp)
    simpa [after, parens] using hall
  have hjoin : Names (p.outputKeys.map OutputKey.name) (after "INNER JOIN" (parens p.groupingSql ++
      .space :: .name p.naming.groupAlias :: .space :: after "ON" p.groupCondition)) := by
    have hgroups := h.names_groupingSql aggregates keyed
    have hon : Bare (.rparen :: .space :: .name p.naming.groupAlias :: .space ::
        after "ON" p.groupCondition) := by
      simpa [after] using h.bare_groupCondition
    have hall := (Names.bare_append (f := [.keyword "INNER JOIN", .space, .lparen]) (by simp)
      hgroups).append_bare hon
    simpa [after, parens] using hall
  have hselect : Names [] (after "SELECT"
      (joined .comma [allOf p.naming.groupAlias, allOf p.naming.cteAlias])) :=
    Bare.names (Bare.after (Bare.joined (by simp [allOf])) (by decide))
  have hfrom : Names [] (after "FROM" p.aliasedRows) := Bare.names (by simp [after, aliasedRows])
  have hlines := Names.lines (.cons hwith (.cons hselect (.cons hfrom (.cons hjoin
    (.cons h.bare_orderClause.names (.cons h.bare_limitClause.names .nil))))))
  rw [groupedSql]
  simpa using hlines

end Showing

theorem projectedFields_ok {target : Entity} {bs : List (String × Expr)} {fields : List Field}
    (h : projectedFields target bs = .ok fields) : fields.map Field.name = bs.map Prod.fst := by
  induction bs generalizing fields with
  | nil =>
      obtain rfl := Except.ok.inj h
      rfl
  | cons binding rest ih =>
      unfold projectedFields at h
      split at h
      · cases h
      rename_i g hfield
      obtain ⟨others, hothers, h⟩ := Outcome.bind_ok.1 h
      obtain rfl := Except.ok.inj h
      rw [List.map_cons, List.map_cons, ih hothers, Entity.name_of_field? hfield]

theorem projectedFields_subset {target : Entity} {bs : List (String × Expr)} {fields : List Field}
    (h : projectedFields target bs = .ok fields) : fields ⊆ target.fields := by
  induction bs generalizing fields with
  | nil =>
      obtain rfl := Except.ok.inj h
      exact List.nil_subset _
  | cons binding rest ih =>
      unfold projectedFields at h
      split at h
      · cases h
      rename_i g hfield
      obtain ⟨others, hothers, h⟩ := Outcome.bind_ok.1 h
      obtain rfl := Except.ok.inj h
      exact List.cons_subset.2 ⟨Entity.mem_of_field? hfield, ih hothers⟩

/-- Projections name their columns, and the last one has given those of the fields that it binds. -/
structure Projected (Known : Entity → Prop) (p : Plan) : Prop where
  named : ∀ f ∈ p.fragmentsOf .select, ∃ ns, Names ns f
  last : (p.projection = none ∧ p.fragmentsOf .select = []) ∨
    ∃ b fs f, p.projection = some b ∧ p.fragmentsOf .select = fs ++ [f] ∧ Names b.columns f ∧
      ((∀ E, Known E → E.FieldsApart) → Apart b.columns)

theorem Projected.new (root : Entity) (naming : Naming) (log : CallLog) :
    (Plan.new root naming log).Projected Known :=
  ⟨fun _ hf => absurd hf List.not_mem_nil, .inl ⟨rfl, rfl⟩⟩

theorem Projected.keep (h : p.Projected Known) (projection : q.projection = p.projection)
    (fragments : q.fragmentsOf .select = p.fragmentsOf .select) : q.Projected Known := by
  refine ⟨?_, ?_⟩
  · rw [fragments]
    exact h.named
  · rw [projection, fragments]
    exact h.last

variable {a : Action} {as : List Action}

theorem Takes.projection_of_ne (h : Takes p a q) (hc : a.clause ≠ .select) :
    q.projection = p.projection := by
  cases h with
  | condition clause reads translated | order reads translated
  | join fresh leftKey old rightKey new translated registered apart
  | aggregate grouped named reads translated =>
      obtain ⟨b, -, rfl⟩ := translated
      rfl
  | projection constructs projected reads translated registered => exact absurd rfl hc
  | limit n | offset n => rfl

theorem Takes.root (h : Takes p a q) : q.root = p.root := by
  cases h with
  | condition clause reads translated | order reads translated
  | projection constructs projected reads translated registered
  | join fresh leftKey old rightKey new translated registered apart
  | aggregate grouped named reads translated =>
      obtain ⟨b, -, rfl⟩ := translated
      rfl
  | limit n | offset n => rfl

/-- What is projected are fields of the target. -/
theorem Takes.exists_projection {target : Entity} {x : Expr}
    (h : Takes p (.projection target x) q) :
    ∃ b, q.projection = some b ∧ b.fields ⊆ target.fields := by
  cases h with
  | projection constructs projected reads translated registered =>
      exact ⟨_, rfl, projectedFields_subset projected⟩

theorem Takes.projected (h : Takes p a q) (known : ∀ E ∈ a.entities, Known E)
    (hp : p.Projected Known) : q.Projected Known := by
  by_cases hc : a.clause = .select
  · cases h with
    | @projection target constructed bindings label fields f _ constructs projected reads translated
        registered =>
        obtain ⟨b, rule, rfl⟩ := translated
        obtain ⟨own, columns, hown, rfl, hcolumns, hfields, hnodup⟩ := rule.selects
        obtain rfl : own = label := Option.some.inj
          (hown.symm.trans ((Aliases.lookup?_congr constructs).trans registered))
        have hnames : Binding.columns ⟨target, own, fields⟩ =
            (bindings.map Prod.fst).map fun s => own ++ "_" ++ s := by
          rw [← projectedFields_ok projected, List.map_map]
          rfl
        have select : (setProjection { p with binder := b } ⟨target, own, fields⟩
            (joined .comma columns)).fragmentsOf .select =
              p.fragmentsOf .select ++ [joined .comma columns] := fragmentsOf_push_self _ _ _
        have last : Names (Binding.columns ⟨target, own, fields⟩) (joined .comma columns) := by
          rw [hnames, List.map_map]
          exact Selects.names hcolumns
        refine ⟨?_, .inr ⟨⟨target, own, fields⟩, _, _, rfl, select, last, fun fieldsApart => ?_⟩⟩
        · rw [select, List.forall_mem_append, List.forall_mem_singleton]
          exact ⟨hp.named, _, last⟩
        · rw [hnames]
          refine Apart.map_append (.of_nodup (fieldsApart constructed (known _ ?_)) hnodup ?_) _
          · simp [Action.entities]
          · intro s hs
            obtain ⟨binding, hbinding, rfl⟩ := List.mem_map.1 hs
            obtain ⟨g, hg⟩ := hfields binding hbinding
            rw [← Entity.name_of_field? hg]
            exact List.mem_map_of_mem (Entity.mem_of_field? hg)
    | condition clause => rcases clause with rfl | ⟨rfl, -⟩ <;> cases hc
    | order | join | aggregate | limit | offset => cases hc
  · exact hp.keep (h.projection_of_ne hc) (h.fragmentsOf_of_ne hc)

theorem KeyStep.select {key : String × Expr} (h : KeyStep Known p key q) :
    q.projection = p.projection ∧ q.fragmentsOf .select = p.fragmentsOf .select := by
  obtain ⟨grouped, known, named, reads, b, rule, rfl⟩ := h
  exact ⟨rfl, fragmentsOf_push_of_ne (c := .select) (d := .groupBy) _ _ (by simp)⟩

theorem KeySteps.select {keys : List (String × Expr)} (h : KeySteps Known keys p q) :
    q.fragmentsOf .select = p.fragmentsOf .select :=
  h.induction (motive := fun q => q.fragmentsOf .select = p.fragmentsOf .select) rfl
    fun _ _ _ _ old step => step.select.2.trans old

theorem length_fragmentsOf (p : Plan) (c : Clause) :
    (p.fragmentsOf c).length = (p.fragments.map Prod.fst).count c := by
  unfold fragmentsOf
  induction p.fragments with
  | nil => rfl
  | cons part rest ih =>
      obtain ⟨d, f⟩ := part
      by_cases hd : d = c
      · simp [hd, ih]
      · simp [hd, ih]

/-- The fragments of a clause are as many as the actions for it. -/
theorem Runs.length_fragmentsOf (h : Runs p as q) (c : Clause) :
    (q.fragmentsOf c).length = (p.fragmentsOf c).length + (as.map Action.clause).count c := by
  rw [Plan.length_fragmentsOf, Plan.length_fragmentsOf, h.clauses, List.count_append]

/-- Rows that are not projected have all columns of the root and of the joined entities. -/
theorem names_selectClause (unprojected : p.fragmentsOf .select = []) :
    Names (p.bindings.flatMap Binding.columns) p.selectClause := by
  rw [selectClause, unprojected]
  refine .joined_each (List.rel_flatMap (R := Eq) (List.forall₂_same.2 fun _ _ => rfl) ?_)
  rintro b _ rfl
  rw [Binding.columns, Binding.selectList, List.forall₂_map_left_iff, List.forall₂_map_right_iff,
    List.forall₂_same]
  exact fun g _ => Bare.named (by simp) _

theorem selectClause_of_projected (projected : p.fragmentsOf .select ≠ []) :
    p.selectClause = joined .comma (p.fragmentsOf .select) := by
  unfold selectClause
  split
  · contradiction
  · rfl

theorem Projected.exists_names (h : p.Projected Known) : ∃ ns, Names ns p.selectClause := by
  have each {fs : List Fragment} (named : ∀ f ∈ fs, ∃ ns, Names ns f) :
      ∃ nss, List.Forall₂ Names nss fs := by
    induction fs with
    | nil => exact ⟨[], .nil⟩
    | cons f fs ih =>
        obtain ⟨⟨ns, first⟩, rest⟩ := List.forall_mem_cons.1 named
        obtain ⟨nss, hrest⟩ := ih rest
        exact ⟨ns :: nss, .cons first hrest⟩
  by_cases unprojected : p.fragmentsOf .select = []
  · exact ⟨_, names_selectClause unprojected⟩
  · obtain ⟨nss, hnames⟩ := each h.named
    exact ⟨nss.flatten, selectClause_of_projected unprojected ▸ Names.joined hnames⟩

namespace Action

/-- The entity that is joined. -/
def joined? : Action → Option Entity
  | join _ related _ _ => some related
  | _ => none

/-- The name of the aggregate column that is added. -/
def aggregate? : Action → Option String
  | aggregate name _ => some name
  | _ => none

end Action

theorem Takes.declares (h : Takes p a q) :
    q.bindings.map Binding.entity = p.bindings.map Binding.entity ++ a.joined?.toList ∧
      q.aggregationKeys.map OutputKey.name =
        p.aggregationKeys.map OutputKey.name ++ a.aggregate?.toList := by
  cases h with
  | condition clause reads translated | order reads translated
  | projection constructs projected reads translated registered =>
      obtain ⟨b, -, rfl⟩ := translated
      exact ⟨(List.append_nil _).symm, (List.append_nil _).symm⟩
  | limit n | offset n => exact ⟨(List.append_nil _).symm, (List.append_nil _).symm⟩
  | join fresh leftKey old rightKey new translated registered apart =>
      obtain ⟨b, -, rfl⟩ := translated
      rw [bindings_addJoin, List.map_append]
      exact ⟨rfl, (List.append_nil _).symm⟩
  | aggregate grouped named reads translated =>
      obtain ⟨b, -, rfl⟩ := translated
      exact ⟨(List.append_nil _).symm, List.map_append⟩

/-- Entities are joined and aggregates named in the order of the actions. -/
theorem Runs.declares (h : Runs p as q) :
    q.bindings.map Binding.entity = p.bindings.map Binding.entity ++ as.filterMap Action.joined? ∧
      q.aggregationKeys.map OutputKey.name =
        p.aggregationKeys.map OutputKey.name ++ as.filterMap Action.aggregate? := by
  induction h with
  | nil => simp
  | @cons p q r a as first rest ih =>
      obtain ⟨hentities, hnames⟩ := first.declares
      rw [ih.1, ih.2, hentities, hnames, List.append_assoc, List.append_assoc]
      cases hj : a.joined? <;> cases hg : a.aggregate? <;> simp [hj, hg]

theorem KeySteps.declares {keys : List (String × Expr)} (h : KeySteps Known keys p q) :
    q.bindings = p.bindings ∧ q.aggregationKeys = p.aggregationKeys := by
  refine h.induction (motive := fun q => q.bindings = p.bindings ∧
    q.aggregationKeys = p.aggregationKeys) ⟨rfl, rfl⟩ ?_
  rintro key - q r old ⟨grouped, known, named, reads, b, rule, rfl⟩
  exact old

/-- The statement before its tables are checked. -/
def sql (p : Plan) : Fragment := if p.grouped then p.groupedSql else p.ungroupedSql

theorem statement_ok {s : Statement} (h : p.statement = .ok s) : s = p.finish p.sql := by
  unfold statement at h
  obtain ⟨-, -, h⟩ := Outcome.bind_ok.1 h
  unfold sql
  split at h
  · rename_i ungrouped
    obtain rfl := Except.ok.inj h
    rw [if_neg (by simpa using ungrouped)]
  · rename_i grouped
    split at h
    · simp at h
    · obtain rfl := Except.ok.inj h
      rw [if_pos (by simpa using grouped)]

end Plan

/-- Does the call project the rows? -/
def Query.Call.selects : Query.Call → Bool
  | .select .. => true
  | _ => false

namespace Build

open Plan

variable {d : Build} {naming : Naming} {log : CallLog} {p : Plan}

theorem count_select_calls (calls : List Query.Call) :
    ((calls.map Query.Call.action).map Action.clause).count .select =
      calls.countP Query.Call.selects := by
  rw [List.count, List.countP_map, List.countP_map]
  refine List.countP_congr fun call _ => ?_
  cases call <;> rfl

theorem count_select_groupedCalls (g : Grouping) :
    (g.actions.map Action.clause).count .select = 0 := by
  refine List.count_eq_zero.2 fun hmem => ?_
  obtain ⟨a, ha, hclause⟩ := List.mem_map.1 hmem
  obtain ⟨call, -, rfl⟩ := List.mem_map.1 ha
  cases call <;> cases hclause

/-- Every projection has a fragment. -/
theorem length_select_of_plan (h : d.plan naming log = .ok p) :
    (p.fragmentsOf .select).length = d.calls.countP Query.Call.selects := by
  have first : ((Plan.new d.root naming log).fragmentsOf .select).length = 0 := rfl
  cases makes_of_plan h with
  | rows single rows => rw [rows.length_fragmentsOf, first, Nat.zero_add, count_select_calls]
  | groups two rows unsorted keyed group groups =>
      rw [groups.length_fragmentsOf, group.select, count_select_groupedCalls, Nat.add_zero]
      refine (rows.length_fragmentsOf .select).trans ?_
      rw [first, Nat.zero_add, count_select_calls]

theorem fragmentsOf_select_of_plan (unselected : ∀ call ∈ d.calls, call.selects = false)
    (h : d.plan naming log = .ok p) : p.fragmentsOf .select = [] := by
  rw [← List.length_eq_zero_iff, length_select_of_plan h, List.countP_eq_zero]
  simpa using unselected

theorem projected_of_plan (h : d.plan naming log = .ok p) : p.Projected (· ∈ d.entities) := by
  refine (makes_of_plan h).induction (.new _ _ _) ?_
    (fun _ old _ => old.keep rfl rfl) ?_
  · intro a ha p q old taken
    exact taken.projected (entities_of_actions ha) old
  · intro key _ p q old step
    exact old.keep step.select.1 step.select.2

theorem plan_of_compile {s : Statement} (h : d.compile naming log = .ok s) :
    ∃ p, d.plan naming log = .ok p ∧ s = p.finish p.sql := by
  rw [compile_eq] at h
  obtain ⟨p, accepted, hstatement⟩ := Outcome.bind_ok.1 h
  exact ⟨p, accepted, statement_ok hstatement⟩

/-- The entities that are joined. -/
def joined (d : Build) : List Entity := d.actions.filterMap Action.joined?

/-- The names of the aggregate columns. -/
def aggregates (d : Build) : List String := d.actions.filterMap Action.aggregate?

theorem aggregates_of_rows (single : d.grouping = none) : d.aggregates = [] := by
  refine List.filterMap_eq_nil_iff.2 fun a ha => ?_
  rw [actions, single, Option.toList_none, List.flatMap_nil, List.append_nil] at ha
  obtain ⟨call, -, rfl⟩ := List.mem_map.1 ha
  cases call <;> rfl

theorem declares_of_plan (h : d.plan naming log = .ok p) :
    p.bindings.map Binding.entity = d.root :: d.joined ∧
      p.outputKeys.map OutputKey.name = d.keys.map Prod.fst ++ d.aggregates := by
  have built : Built (fun _ => True) (.new d.root naming log) d.keys p :=
    built_of_plan (fun _ _ => trivial) h
  have hkeys : p.groupingKeys.map OutputKey.name = d.keys.map Prod.fst := by
    rw [built.keys.1, List.map_map]
    rfl
  have declared : p.bindings.map Binding.entity = d.root :: d.joined ∧
      p.aggregationKeys.map OutputKey.name = d.aggregates := by
    cases makes_of_plan h with
    | rows single rows =>
        have hactions : d.actions = d.calls.map Query.Call.action := by simp [actions, single]
        rw [joined, aggregates, hactions]
        exact rows.declares
    | groups two rows unsorted keyed group groups =>
        obtain ⟨hentities, hnames⟩ := rows.declares
        obtain ⟨hbindings, haggregates⟩ := group.declares
        obtain ⟨hentities', hnames'⟩ := groups.declares
        rw [hbindings] at hentities'
        rw [haggregates] at hnames'
        rw [joined, aggregates, actions, two, Option.toList_some, List.flatMap_singleton,
          List.filterMap_append, List.filterMap_append]
        refine ⟨hentities'.trans ?_, hnames'.trans ?_⟩
        · exact congrArg (· ++ _) hentities
        · exact congrArg (· ++ _) hnames
  rw [outputKeys, List.map_append, hkeys, declared.2]
  exact ⟨declared.1, rfl⟩

/-- A statement has the columns that it selects, and a grouped one those of its keys and
aggregates. -/
theorem names_sql_of_plan (h : d.plan naming log = .ok p) {ns : List String}
    (select : Names ns p.selectClause) : Names (ns ++ p.outputKeys.map OutputKey.name) p.sql := by
  have built : Built (fun _ => True) (.new d.root naming log) d.keys p :=
    built_of_plan (fun _ _ => trivial) h
  have showing := showing_of_plan h
  unfold sql
  split
  · exact showing.names_groupedSql select (built.aggregatesNamed .nil) built.length_fragments
  · rename_i ungrouped
    have single : d.grouping = none := by
      cases makes_of_plan h with
      | rows single rows => exact single
      | groups two rows unsorted keyed group groups =>
          refine absurd ?_ ungrouped
          rw [built.grouped rfl, keys, two]
          simpa using keyed
    have hnone : p.outputKeys.map OutputKey.name = [] := by
      rw [(declares_of_plan h).2, keys, single, aggregates_of_rows single]
      rfl
    rw [hnone, List.append_nil]
    exact showing.names_ungroupedSql select

/-- The columns of a statement without a projection never collide. They are the flattened columns of
the root and of every joined entity, the grouping keys and the aggregates, and no two of these names
differ only in case. -/
theorem outputs_apart_of_plan (unselected : ∀ call ∈ d.calls, call.selects = false)
    (fields : ∀ E ∈ d.entities, E.FieldsApart) (accepted : d.plan naming log = .ok p) :
    p.sql.outputs = (p.bindings.flatMap fun b => b.entity.fields.map fun f =>
        b.label ++ "_" ++ f.name) ++ p.outputKeys.map OutputKey.name ∧
      p.bindings.map Binding.entity = d.root :: d.joined ∧
      p.outputKeys.map OutputKey.name = d.keys.map Prod.fst ++ d.aggregates ∧
      Apart p.sql.outputs ∧ ∀ s, d.compile naming log = .ok s → s.sql = p.sql := by
  obtain ⟨scope, known⟩ := scoped_of_plan accepted
  have built : Built (fun _ => True) (.new d.root naming log) d.keys p :=
    built_of_plan (fun _ _ => trivial) accepted
  have unprojected := fragmentsOf_select_of_plan unselected accepted
  have outputs : p.sql.outputs =
      p.bindings.flatMap Binding.columns ++ p.outputKeys.map OutputKey.name :=
    (names_sql_of_plan accepted (names_selectClause unprojected)).outputs_eq
  obtain ⟨hentities, hnames⟩ := declares_of_plan accepted
  refine ⟨?_, hentities, hnames, ?_, fun s hs => ?_⟩
  · rw [outputs, List.flatMap_congr fun b hb => ?_]
    rw [Binding.columns, scope.whole b hb]
    rfl
  · rw [outputs]
    exact (built.namesApart (.new _ _ _)).apart scope fun b hb => fields _ (known b hb)
  · rw [compile_eq, accepted] at hs
    rw [statement_ok hs]
    rfl

/-- The revenue by the status of orders, with the customers joined after grouping. -/
def revenueByStatus : Build :=
  ⟨Demo.order, [.filter (.comparison .gt Demo.total (Demo.number 0))],
    some ⟨[("status", .field Demo.order "status")],
      [.aggregate "revenue" (Demo.sum Demo.total),
        .join .inner Demo.customer (.field Demo.order "customer_id") (.field Demo.customer "id"),
        .orderBy Demo.total .descending]⟩⟩

theorem eq_of_mem_revenueByStatus {E : Entity} (hE : E ∈ revenueByStatus.entities) :
    E = Demo.order ∨ E = Demo.customer := by
  simp [entities, revenueByStatus, Query.Call.entities, GroupedQuery.Call.entities, Demo.total,
    Demo.number, Demo.sum] at hE
  tauto

theorem fieldsApart_of_demo {E : Entity} (h : E = Demo.order ∨ E = Demo.customer) :
    E.FieldsApart := by
  rcases h with rfl | rfl
  · decide
  · decide

/-- The customers have columns although they are joined last. -/
theorem revenueByStatus_apart :
    ∃ p, revenueByStatus.plan {} [] = .ok p ∧
      (∀ call ∈ revenueByStatus.calls, call.selects = false) ∧
      (∀ E ∈ revenueByStatus.entities, E.FieldsApart) ∧
      p.sql.outputs = ["Extend0_id", "Extend0_customer_id", "Extend0_status", "Extend0_placed_on",
        "Extend0_total", "Extend1_id", "Extend1_name", "Extend1_email", "status", "revenue"] ∧
      Apart p.sql.outputs := by
  have found : (revenueByStatus.plan {} []).toOption.map (fun p => p.sql.outputs) =
      some ["Extend0_id", "Extend0_customer_id", "Extend0_status", "Extend0_placed_on",
        "Extend0_total", "Extend1_id", "Extend1_name", "Extend1_email", "status", "revenue"] := by
    decide +kernel
  obtain ⟨p, accepted, houtputs⟩ := Option.map_eq_some_iff.1 found
  have accepted := Outcome.eq_ok_of_toOption accepted
  have unselected : ∀ call ∈ revenueByStatus.calls, call.selects = false := by
    simp [revenueByStatus, Query.Call.selects]
  have fields : ∀ E ∈ revenueByStatus.entities, E.FieldsApart :=
    fun E hE => fieldsApart_of_demo (eq_of_mem_revenueByStatus hE)
  obtain ⟨-, -, -, hapart, -⟩ := outputs_apart_of_plan unselected fields accepted
  exact ⟨p, accepted, unselected, fields, houtputs, hapart⟩

end Build

end TypedQuery
