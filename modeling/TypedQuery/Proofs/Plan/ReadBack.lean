import TypedQuery.Proofs.Materialize.Columns
import TypedQuery.Proofs.Plan.Outputs

/-!
# Columns that are read back

A statement names its columns, and the shape that goes with it is enough to ask for them by name.
Both are made from the same plan, but apart from each other. The names that are asked for are those
of columns that the statement has. A grouped statement reads columns of its own inner stage too,
which has them all unless its rows were projected before they were grouped.
-/

namespace TypedQuery

open TypedQuery.Sql TypedQuery.Sql.Fragment

theorem Entity.mem_of_keyField? {e : Entity} {defaultKey : String} {f : Field}
    (h : e.keyField? defaultKey = some f) : f ∈ e.fields := by
  unfold keyField? at h
  cases hmarked : e.fields.find? (·.primaryKey) with
  | some g =>
      obtain rfl : g = f := by simpa [hmarked] using h
      exact List.mem_of_find?_eq_some hmarked
  | none => exact Entity.mem_of_field? (by simpa [hmarked] using h)

namespace Plan

variable {p : Plan} {R : String → String → Prop}

/-- Keys are fields, so no more is asked for than the columns of the fields. -/
theorem Scoped.askedOfEntities_subset (h : p.Scoped) :
    p.shape.askedOfEntities ⊆ p.bindings.flatMap Binding.columns := by
  intro c hc
  obtain ⟨b, hb, hc⟩ := List.mem_flatMap.1 hc
  refine List.mem_flatMap.2 ⟨b, hb, ?_⟩
  rcases List.mem_append.1 hc with hkey | hcolumn
  · obtain ⟨f, hf, rfl⟩ := Option.map_eq_some_iff.1 (Option.mem_toList.1 hkey)
    exact List.mem_map_of_mem (h.whole b hb ▸ Entity.mem_of_keyField? hf)
  · exact hcolumn

/-- All columns of the fields are asked for. -/
theorem columns_subset_askedOfEntities :
    p.bindings.flatMap Binding.columns ⊆ p.shape.askedOfEntities := by
  intro c hc
  obtain ⟨b, hb, hc⟩ := List.mem_flatMap.1 hc
  exact List.mem_flatMap.2 ⟨b, hb, List.mem_append_right _ hc⟩

/-- The subquery reads what its clauses read. -/
theorem readsOnly_groupingSql
    (h : ∀ c f, (c, f) ∈ p.fragments → c.readsGroupedColumns = true → ReadsOnly R f) :
    ReadsOnly R p.groupingSql := by
  have of {c : Clause} (hc : c.readsGroupedColumns = true) : ∀ f ∈ p.fragmentsOf c, ReadsOnly R f :=
    fun f hf => h c f (p.mem_fragmentsOf.1 hf) hc
  have columns : ReadsOnly R (joined .comma p.groupColumns) := by
    refine ReadsOnly.joined (List.forall_mem_append.2 ⟨fun f hf => ?_, of rfl⟩)
    obtain ⟨g, hg, rfl⟩ := List.mem_map.1 hf
    exact (of rfl g.1 (List.of_mem_zip hg).1).named _
  have group : ReadsOnly R (joined .comma (p.fragmentsOf .groupBy)) := ReadsOnly.joined (of rfl)
  have filter : ReadsOnly R p.groupFilter := by
    unfold groupFilter
    split
    · exact readsOnly_nil
    · simpa using readsOnly_conditionClause (of rfl)
  rw [groupingSql_eq]
  refine readsOnly_append.2 ⟨?_, filter⟩
  simp [after, aliasedRows, columns, group]

/-- A row of the inner stage has the column. -/
def Produces (p : Plan) (q n : String) : Prop :=
  q = p.naming.cteAlias ∧ n ∈ p.selectClause.outputs

/-- The outer stage of a grouped statement reads only columns that the inner one has, and those of
the groups. Reading the rows back asks only for columns of the statement. -/
structure ReadsProduced (p : Plan) : Prop where
  grouping : ReadsOnly p.Produces p.groupingSql
  condition : ReadsOnly (fun q n => p.Produces q n ∨
    q = p.naming.groupAlias ∧ n ∈ p.groupingKeys.map OutputKey.name) p.groupCondition
  order : ReadsOnly p.Produces p.orderClause
  asked : p.shape.askedOfGroups ⊆ p.groupedSql.outputs

end Plan

namespace Build

open Plan

variable {d : Build} {naming : Naming} {log : CallLog} {p : Plan} {s : Statement}

theorem grouped_of_plan (h : d.plan naming log = .ok p) : p.grouped = d.grouping.isSome := by
  have built : Built (fun _ => True) (.new d.root naming log) d.keys p :=
    built_of_plan (fun _ _ => trivial) h
  rw [built.grouped rfl, keys]
  cases makes_of_plan h with
  | rows single rows => simp [single]
  | groups two rows unsorted keyed group groups => simp [two, keyed]

theorem exists_ofShape (h : d.plan naming log = .ok p) :
    ∃ m, Materializer.ofShape p.shape = .ok m := by
  have built : Built (fun _ => True) (.new d.root naming log) d.keys p :=
    built_of_plan (fun _ _ => trivial) h
  obtain ⟨ps, hps⟩ : ∃ ps, Materializer.placeJoins [p.rootBinding] p.joins = .ok ps :=
    Materializer.exists_placeJoins (built.leftsPlaced (.new _ _ _))
  exact ⟨⟨p.shape, ps⟩, Outcome.bind_ok.2 ⟨ps, hps, rfl⟩⟩

/-- With one projection at most, all that is asked for is selected. -/
theorem exists_names_of_plan (once : d.calls.countP Query.Call.selects ≤ 1)
    (h : d.plan naming log = .ok p) :
    ∃ ns, Names ns p.selectClause ∧ p.shape.asked ⊆ ns ∧
      ((∀ E ∈ d.entities, E.FieldsApart) → Apart ns) := by
  obtain ⟨scope, known⟩ := scoped_of_plan h
  rcases (projected_of_plan h).last with
    ⟨unprojected, hnone⟩ | ⟨b, fs, f, projected, hfs, hnames, apart⟩
  · refine ⟨_, names_selectClause hnone, ?_, fun fields => ?_⟩
    · have hasked : p.shape.asked = p.shape.askedOfEntities := by
        rw [Shape.asked, show p.shape.projection = none from unprojected]
      exact hasked ▸ scope.askedOfEntities_subset
    · exact scope.apart_columns fun b hb => fields _ (known b hb)
  · have single : fs = [] := by
      have hlength := length_select_of_plan h
      rw [hfs, List.length_append, List.length_singleton] at hlength
      exact List.length_eq_zero_iff.1 (by omega)
    have hselect : p.selectClause = f := by
      rw [selectClause, hfs, single]
      exact joined_singleton f
    have hasked : p.shape.asked = b.columns := by
      rw [Shape.asked, show p.shape.projection = some b from projected]
    exact ⟨b.columns, hselect ▸ hnames, hasked ▸ List.Subset.refl _, apart⟩

/-- The columns of rows that are not grouped are found again. The shape of a compiled query with at
most one projection can be read, and each column that reading asks for is one of the statement's.
It is answered with its own value when the database has folded all names to lower case, so
reading the rows gives what it would give under their exact names. -/
theorem columns_answered_of_compile (single : d.grouping = none)
    (once : d.calls.countP Query.Call.selects ≤ 1) (fields : ∀ E ∈ d.entities, E.FieldsApart)
    (compiled : d.compile naming log = .ok s) :
    ∃ p m, d.plan naming log = .ok p ∧ s.sql = p.ungroupedSql ∧
      s.sql.outputs = p.selectClause.outputs ∧ Apart s.sql.outputs ∧
      Materializer.ofShape s.shape = .ok m ∧
      (∀ c ∈ s.shape.asked, c ∈ s.sql.outputs ∧
        ∀ value, (Row.spelled Text.lower s.sql.outputs value).get? c = some (value c)) ∧
      ∀ values : List (String → Value),
        m.materialize (values.map (Row.spelled Text.lower s.sql.outputs)) =
          m.materialize (values.map (Row.spelled id s.sql.outputs)) := by
  obtain ⟨p, accepted, rfl⟩ := plan_of_compile compiled
  have ungrouped : p.grouped = false := by rw [grouped_of_plan accepted, single, Option.isSome_none]
  have hsql : p.sql = p.ungroupedSql := if_neg (by simp [ungrouped])
  have showing := showing_of_plan accepted
  obtain ⟨ns, hnames, hasked, hapart⟩ := exists_names_of_plan once accepted
  have houtputs : p.sql.outputs = ns := hsql ▸ (showing.names_ungroupedSql hnames).outputs_eq
  obtain ⟨m, hm⟩ := exists_ofShape accepted
  refine ⟨p, m, accepted, hsql, ?_, ?_, hm, ?_, fun values => ?_⟩
  · exact houtputs.trans hnames.outputs_eq.symm
  · exact houtputs ▸ hapart fields
  · intro c hc
    rw [sql_finish, houtputs]
    exact ⟨hasked hc, fun value => Row.get?_spelled Text.alike_lower (hapart fields) (hasked hc)⟩
  · refine Materializer.materialize_congr hm ?_
    rw [sql_finish, houtputs, List.forall₂_map_left_iff, List.forall₂_map_right_iff,
      List.forall₂_same]
    exact fun value _ => (Row.agreeOn_spelled Text.alike_lower (hapart fields)).mono hasked

/-- The key of the customers is found under the name that the database has folded. -/
theorem ordersOfCustomers_answered :
    ∃ s, ordersOfCustomers.compile {} [] = .ok s ∧ ordersOfCustomers.grouping = none ∧
      ordersOfCustomers.calls.countP Query.Call.selects ≤ 1 ∧
      (∀ E ∈ ordersOfCustomers.entities, E.FieldsApart) ∧
      s.sql.outputs.map Text.lower = ["extend0_id", "extend0_customer_id", "extend0_status",
        "extend0_placed_on", "extend0_total", "extend1_id", "extend1_name", "extend1_email"] ∧
      ∀ value, (Row.spelled Text.lower s.sql.outputs value).get? "Extend1_id" =
        some (value "Extend1_id") := by
  have found : (ordersOfCustomers.compile {} []).toOption.map
      (fun s => (s.sql.outputs.map Text.lower, s.shape.asked.contains "Extend1_id")) =
      some (["extend0_id", "extend0_customer_id", "extend0_status", "extend0_placed_on",
        "extend0_total", "extend1_id", "extend1_name", "extend1_email"], true) := by
    decide +kernel
  obtain ⟨s, compiled, hfound⟩ := Option.map_eq_some_iff.1 found
  obtain ⟨hfolded, hasked⟩ := Prod.mk.inj hfound
  have compiled := Outcome.eq_ok_of_toOption compiled
  have fields : ∀ E ∈ ordersOfCustomers.entities, E.FieldsApart :=
    fun E hE => fieldsApart_of_demo (eq_of_mem_ordersOfCustomers hE)
  have once : ordersOfCustomers.calls.countP Query.Call.selects ≤ 1 := by decide
  obtain ⟨p, m, -, -, -, -, -, answered, -⟩ := columns_answered_of_compile rfl once fields compiled
  exact ⟨s, compiled, rfl, once, fields, hfolded, (answered _ (by simpa using hasked)).2⟩

/-- A fragment over groups reads flattened columns of the root and the joined entities. -/
theorem flattened_of_fragment (one : d.OneDescriptor) (h : d.plan naming log = .ok p) {c : Clause}
    {f : Fragment} (hf : (c, f) ∈ p.fragments) (groups : (p.context c).readsGroupedColumns = true) :
    ReadsOnly (fun q n => q = p.naming.cteAlias ∧ n ∈ p.bindings.flatMap Binding.columns) f := by
  obtain ⟨scope, -⟩ := scoped_of_plan h
  refine ((showing_of_plan h).reads c f hf).mono fun q n shown => ?_
  obtain ⟨x, name, g, b, hb, -, -, hfield, ht⟩ := field_of_shown one h shown
  obtain ⟨rfl, rfl⟩ := Sql.Token.column.inj (ht.trans (Context.written_of_groups groups))
  have hg : g ∈ b.fields := scope.whole b hb ▸ Entity.mem_of_field? hfield
  exact ⟨rfl, List.mem_flatMap.2 ⟨b, hb, List.mem_map_of_mem hg⟩⟩

/-- A grouped statement has the columns of its inner stage and those of the groups. -/
theorem outputs_groupedSql_of_plan (h : d.plan naming log = .ok p) (two : p.grouped = true) :
    p.groupedSql.outputs = p.selectClause.outputs ++ p.outputKeys.map OutputKey.name := by
  have hsql : p.sql = p.groupedSql := if_pos two
  obtain ⟨ns, hnames⟩ := (projected_of_plan h).exists_names
  rw [← hsql, (names_sql_of_plan h hnames).outputs_eq, hnames.outputs_eq]

/-- Where all flattened columns are selected, all that is read is there. -/
theorem readsProduced_of_selected (one : d.OneDescriptor) (h : d.plan naming log = .ok p)
    (two : p.grouped = true)
    (selected : p.bindings.flatMap Binding.columns ⊆ p.selectClause.outputs) : p.ReadsProduced := by
  obtain ⟨scope, -⟩ := scoped_of_plan h
  have reads (c : Clause) (f : Fragment) (hf : (c, f) ∈ p.fragments)
      (groups : (p.context c).readsGroupedColumns = true) : ReadsOnly p.Produces f :=
    (flattened_of_fragment one h hf groups).mono fun q n read => ⟨read.1, selected read.2⟩
  have clause (c : Clause) (f : Fragment) (hf : (c, f) ∈ p.fragments)
      (groups : c.readsGroupedColumns = true) : ReadsOnly p.Produces f :=
    reads c f hf (by simp [context, Context.readsGroupedColumns, groups])
  have sorts : ∀ f ∈ p.fragmentsOf .orderBy, ReadsOnly p.Produces f := fun f hf =>
    reads .orderBy f (p.mem_fragmentsOf.1 hf) (by simp [context, Context.readsGroupedColumns, two])
  refine ⟨readsOnly_groupingSql clause, ReadsOnly.joined fun f hf => ?_, ?_, ?_⟩
  · obtain ⟨⟨g, k⟩, hg, rfl⟩ := List.mem_map.1 hf
    obtain ⟨hfragment, hk⟩ := List.of_mem_zip hg
    have key := clause .groupBy g (p.mem_fragmentsOf.1 hfragment) rfl
    refine readsOnly_append.2 ⟨key.mono fun _ _ => .inl, ?_⟩
    simp only [readsOnly_cons, readsOnly_nil, reduceCtorEq, false_implies, implies_true,
      true_and, and_true, Sql.Token.column.injEq]
    rintro q n ⟨rfl, rfl⟩
    exact .inr ⟨rfl, List.mem_map_of_mem hk⟩
  · unfold orderClause
    split
    · exact readsOnly_nil
    · simpa [after] using ReadsOnly.joined sorts
  · rw [outputs_groupedSql_of_plan h two]
    refine List.append_subset.2 ⟨List.subset_append_right _ _, fun c hc => ?_⟩
    exact List.mem_append_left _ (selected (scope.askedOfEntities_subset hc))

/-- What reading the groups asks for and no key is named has to be selected. -/
theorem selected_of_readsProduced (h : d.plan naming log = .ok p) (two : p.grouped = true)
    (produced : p.ReadsProduced) :
    p.bindings.flatMap Binding.columns ⊆ p.selectClause.outputs := by
  have built : Built (fun _ => True) (.new d.root naming log) d.keys p :=
    built_of_plan (fun _ _ => trivial) h
  intro c hc
  have asked : c ∈ p.groupedSql.outputs :=
    produced.asked (List.mem_append_right _ (columns_subset_askedOfEntities hc))
  rw [outputs_groupedSql_of_plan h two] at asked
  rcases List.mem_append.1 asked with hselected | hkey
  · exact hselected
  · obtain ⟨b, hb, hc⟩ := List.mem_flatMap.1 hc
    obtain ⟨k, hk, rfl⟩ := List.mem_map.1 hkey
    have apart := (built.namesApart (.new _ _ _)).columns k hk b hb
    have differ := hasColumn_eq_false_iff.1 apart k.name hc
    simp at differ

/-- A grouped statement reads only columns that it produces exactly when its inner stage has all
columns of the root and the joined entities. It has them unless the rows were projected before they
were grouped. The groups are read back from the columns that are asked for, whatever else a row
has. -/
theorem readsProduced_of_compile (one : d.OneDescriptor) (grouped : d.grouping ≠ none)
    (compiled : d.compile naming log = .ok s) :
    ∃ p m, d.plan naming log = .ok p ∧ s.sql = p.groupedSql ∧ s.shape = p.shape ∧
      (p.ReadsProduced ↔ p.bindings.flatMap Binding.columns ⊆ p.selectClause.outputs) ∧
      ((∀ call ∈ d.calls, call.selects = false) → p.ReadsProduced) ∧
      Materializer.ofShape s.shape = .ok m ∧
      ∀ rows rows', List.Forall₂ (Row.AgreeOn s.shape.askedOfGroups) rows rows' →
        m.materializeGroups rows = m.materializeGroups rows' := by
  obtain ⟨p, accepted, rfl⟩ := plan_of_compile compiled
  have two : p.grouped = true := by
    rw [grouped_of_plan accepted, Option.isSome_iff_ne_none]
    exact grouped
  have enough := readsProduced_of_selected one accepted two
  obtain ⟨m, hm⟩ := exists_ofShape accepted
  refine ⟨p, m, accepted, if_pos two, rfl, ⟨selected_of_readsProduced accepted two, enough⟩, ?_, hm,
    fun rows rows' => Materializer.materializeGroups_congr hm⟩
  intro unselected
  have unprojected : p.fragmentsOf .select = [] := fragmentsOf_select_of_plan unselected accepted
  apply enough
  rw [(names_selectClause unprojected).outputs_eq]
  exact List.Subset.refl _

/-- The sort key reads a column of the orders, and the customers are read back although they are
joined last. -/
theorem revenueByStatus_produced :
    ∃ p s, revenueByStatus.plan {} [] = .ok p ∧ revenueByStatus.compile {} [] = .ok s ∧
      revenueByStatus.OneDescriptor ∧ revenueByStatus.grouping ≠ none ∧
      .column "CTE" "Extend0_total" ∈ p.orderClause ∧
      "Extend0_total" ∈ p.selectClause.outputs ∧ "Extend1_id" ∈ p.groupedSql.outputs := by
  have found : (revenueByStatus.compile {} []).toOption.map (fun s => s.shape.askedOfGroups) =
      some ["status", "revenue", "Extend0_id", "Extend0_id", "Extend0_customer_id",
        "Extend0_status", "Extend0_placed_on", "Extend0_total", "Extend1_id", "Extend1_id",
        "Extend1_name", "Extend1_email"] := by
    decide +kernel
  have sorted : (revenueByStatus.plan {} []).toOption.map (fun p => p.orderClause) =
      some [.keyword "ORDER BY", .space, .column "CTE" "Extend0_total", .space,
        .keyword "DESC"] := by
    decide +kernel
  obtain ⟨s, compiled, hasked⟩ := Option.map_eq_some_iff.1 found
  have compiled := Outcome.eq_ok_of_toOption compiled
  have one : revenueByStatus.OneDescriptor :=
    oneDescriptor_of_demo fun _ => eq_of_mem_revenueByStatus
  have grouped : revenueByStatus.grouping ≠ none := nofun
  obtain ⟨p, m, accepted, -, hshape, -, produced, -⟩ :=
    readsProduced_of_compile one grouped compiled
  have produced := produced (by simp [revenueByStatus, Query.Call.selects])
  rw [accepted] at sorted
  have hsorted : p.orderClause = _ := Option.some.inj sorted
  have horder : .column "CTE" "Extend0_total" ∈ p.orderClause := by simp [hsorted]
  refine ⟨p, s, accepted, compiled, one, grouped, horder, (produced.order _ _ horder).2, ?_⟩
  apply produced.asked
  rw [← hshape, hasked]
  simp

/-- Orders of which only the number is selected are grouped by their status. -/
def numbersByStatus : Build :=
  ⟨Demo.order, [.select Demo.order (.construct Demo.order [("id", .field Demo.order "id")])],
    some ⟨[("status", .field Demo.order "status")], []⟩⟩

/-- The subquery reads the status, and reading the groups asks for it, but it is not selected. -/
theorem numbersByStatus_not_produced :
    ∃ p s, numbersByStatus.plan {} [] = .ok p ∧ numbersByStatus.compile {} [] = .ok s ∧
      numbersByStatus.OneDescriptor ∧ s.sql = p.groupedSql ∧ s.shape = p.shape ∧
      .column "CTE" "Extend0_status" ∈ p.groupingSql ∧ "Extend0_status" ∈ s.shape.askedOfGroups ∧
      p.selectClause.outputs = ["Extend0_id"] ∧ s.sql.outputs = ["Extend0_id", "status"] ∧
      ¬ p.ReadsProduced := by
  have found : (numbersByStatus.plan {} []).toOption.map (fun p =>
      (p.groupingSql.contains (.column "CTE" "Extend0_status"), p.shape.askedOfGroups,
        p.selectClause.outputs, p.sql.outputs, p.grouped)) =
      some (true, ["status", "Extend0_id", "Extend0_id", "Extend0_customer_id", "Extend0_status",
        "Extend0_placed_on", "Extend0_total"], ["Extend0_id"], ["Extend0_id", "status"], true) := by
    decide +kernel
  have succeeds : (numbersByStatus.compile {} []).isOk = true := by decide +kernel
  obtain ⟨s, compiled⟩ : ∃ s, numbersByStatus.compile {} [] = .ok s := by
    cases h : numbersByStatus.compile {} [] with
    | ok s => exact ⟨s, rfl⟩
    | error e =>
        rw [h] at succeeds
        cases succeeds
  obtain ⟨p, accepted, rfl⟩ := plan_of_compile compiled
  rw [accepted] at found
  simp only [Except.toOption, Option.map_some, Option.some.injEq, Prod.mk.injEq] at found
  obtain ⟨hread, hasked, hselect, houtputs, hgrouped⟩ := found
  have one : numbersByStatus.OneDescriptor := by
    refine oneDescriptor_of_demo fun E hE => .inl ?_
    simpa [entities, numbersByStatus, Query.Call.entities] using hE
  have hread : .column "CTE" "Extend0_status" ∈ p.groupingSql := by simpa using hread
  refine ⟨p, _, accepted, compiled, one, if_pos hgrouped, rfl, hread, ?_, hselect, houtputs, ?_⟩
  · rw [shape_finish, hasked]
    simp
  · intro produced
    have hstatus := (produced.grouping _ _ hread).2
    rw [hselect] at hstatus
    simp at hstatus

end Build

end TypedQuery
