import Mathlib.Data.List.Nodup
import TypedQuery.Proofs.Plan.Rewriting

/-!
# What statements bind

Each value of a plan is bound by one fragment, and the fragments of all clauses together bind the
values in the order of the calls. A statement puts the clauses into an order of its own, repeats
some and leaves others out, so which values it names is a question of the clauses that it is made
of. A statement that selects is made of all clauses that bind. One that counts rows has no sort keys,
but it carries their values.
-/

namespace TypedQuery

open TypedQuery.Sql TypedQuery.Sql.Fragment

/-- Can a fragment of the clause bind values? -/
def Clause.binds : Clause → Bool
  | .select | .from | .limit | .offset => false
  | _ => true

namespace Sql.Fragment

variable {f : Fragment} {fs : List Fragment} {s : String} {i : Nat}

theorem mem_placeholders : (s, i) ∈ f.placeholders ↔ .placeholder s i ∈ f := by
  constructor
  · intro h
    obtain ⟨t, ht, hpick⟩ := List.mem_filterMap.1 h
    cases t with
    | placeholder stem j =>
        obtain ⟨rfl, rfl⟩ := Prod.mk.inj (Option.some.inj hpick)
        exact ht
    | _ => cases hpick
  · intro h
    exact List.mem_filterMap.2 ⟨_, h, rfl⟩

/-- The names of the placeholders. -/
def placeholderNames (f : Fragment) : List String :=
  f.placeholders.map fun placeholder => Number.numbered placeholder.1 placeholder.2

/-- The names are those that are found in the text, if no other token reads as a placeholder. -/
theorem placeholdersIn_eq {plain : Prop} {p : Params} (hf : Fine (Token.Sound plain p) f)
    (hplain : plain) (foreign : ∃ x ∈ p.stem.toList, isOrdinary x = false) :
    placeholdersIn p.stem f.text = f.placeholderNames := by
  have hasStem : HasStem p.stem f := fun s i hmem => ((hf.tokens _ hmem).bound s i rfl).1
  have ordinary : Ordinary f := fun t ht => (hf.tokens t ht).ordinary hplain
  rw [placeholdersIn_text ordinary hf.separated hasStem foreign]
  refine List.map_congr_left fun placeholder hmem => ?_
  rw [hasStem _ _ (mem_placeholders.1 hmem)]

/-- A placeholder has a text, so a fragment without text has no placeholder. -/
theorem placeholders_of_isBlank (h : f.isBlank = true) : f.placeholders = [] := by
  have hblank : f.flatMap (fun t => t.text.toList) = [] := by
    rw [← toList_join_map, ← text, eq_of_beq h]
    rfl
  refine List.eq_nil_iff_forall_not_mem.2 fun placeholder hmem => ?_
  have hempty := List.flatMap_eq_nil_iff.1 hblank _ (mem_placeholders.1 hmem)
  rw [Token.text, Number.toList_numbered] at hempty
  exact Number.digits_ne_nil _ (List.append_eq_nil_iff.1 hempty).2

theorem placeholders_after (word : String) (f : Fragment) :
    (after word f).placeholders = f.placeholders := by
  rw [after, placeholders_cons rfl, placeholders_cons rfl]

theorem placeholders_space (f : Fragment) : placeholders (.space :: f) = f.placeholders := rfl

theorem placeholders_named (f : Fragment) (s : String) :
    (f.named s).placeholders = f.placeholders := by
  rw [named, placeholders_append]
  exact List.append_nil _

theorem placeholders_lines (fs : List Fragment) :
    (lines fs).placeholders = fs.flatMap placeholders := by
  rw [lines, placeholders_joined]
  induction fs with
  | nil => rfl
  | cons f fs ih =>
      rw [List.filter_cons, List.flatMap_cons, ← ih]
      by_cases hblank : f.isBlank = true
      · rw [placeholders_of_isBlank hblank, if_neg (by simp [hblank]), List.nil_append]
      · rw [if_pos (by simpa using hblank), List.flatMap_cons]

theorem placeholders_conditionClause (word : String) (fs : List Fragment) :
    (Plan.conditionClause word fs).placeholders = fs.flatMap placeholders := by
  unfold Plan.conditionClause
  match fs with
  | [] => rfl
  | [f] => simp [conjunction?, placeholders_after]
  | f :: g :: fs =>
      simp [conjunction?, placeholders_after, placeholders_joined, List.flatMap_map,
        placeholders_parens]

end Sql.Fragment

namespace Plan

variable {p q : Plan} {c : Clause} {f : Fragment}

/-- The placeholders of the fragments of a clause. -/
def placeholdersOf (p : Plan) (c : Clause) : List (String × Nat) :=
  (p.fragmentsOf c).flatMap placeholders

theorem mem_placeholdersOf {placeholder : String × Nat} : placeholder ∈ p.placeholdersOf c ↔
    ∃ f, (c, f) ∈ p.fragments ∧ placeholder ∈ f.placeholders := by
  simp only [placeholdersOf, List.mem_flatMap, mem_fragmentsOf]

theorem placeholders_selectClause (p : Plan) :
    p.selectClause.placeholders = p.placeholdersOf .select := by
  unfold selectClause placeholdersOf
  split
  · rename_i hselect
    rw [placeholders_joined, hselect, List.flatMap_nil, List.flatMap_eq_nil_iff]
    intro f hf
    obtain ⟨b, -, hf⟩ := List.mem_flatMap.1 hf
    obtain ⟨field, -, rfl⟩ := List.mem_map.1 hf
    rfl
  · rw [placeholders_joined]

theorem placeholders_orderClause (p : Plan) :
    p.orderClause.placeholders = p.placeholdersOf .orderBy := by
  unfold orderClause placeholdersOf
  split
  · rename_i horder
    rw [horder]
    rfl
  · rw [placeholders_after, placeholders_joined]

/-- The clauses that the filtered rows are made of. -/
theorem placeholders_rowLines (p : Plan) : p.rowLines.flatMap placeholders =
    [.select, .from, .join, .where].flatMap p.placeholdersOf := by
  simp only [rowLines, fromClause, joinClause, whereClause, List.flatMap_cons, List.flatMap_nil,
    placeholders_after, placeholders_selectClause, placeholders_joined,
    placeholders_conditionClause, placeholdersOf]

/-- All values are bound, each by one fragment, in the order of the calls, and only by fragments
of clauses that bind. Fragments about groups are those of a grouped plan. -/
structure Numbered (p : Plan) : Prop where
  stem : p.params.stem = p.naming.parameterStem
  inOrder : p.fragments.flatMap (fun part => part.2.placeholders) =
    (List.range p.params.size).map fun i => (p.params.stem, i)
  unbound : ∀ c f, (c, f) ∈ p.fragments → c.binds = false → f.placeholders = []
  staged : ∀ c f, (c, f) ∈ p.fragments → c.readsGroupedColumns = true → p.grouped = true

namespace Numbered

theorem new (root : Entity) (naming : Naming) (log : CallLog) :
    (Plan.new root naming log).Numbered := by
  have only {c f} (h : (c, f) ∈ (Plan.new root naming log).fragments) :
      c = .from ∧ f = [.name root.table, .space, .name (Number.numbered naming.aliasStem 0)] :=
    Prod.mk.inj (List.mem_singleton.1 h)
  refine ⟨rfl, rfl, fun c f h _ => ?_, fun c f h hgroups => ?_⟩
  · rw [(only h).2]
    rfl
  · rw [(only h).1] at hgroups
    cases hgroups

/-- A fragment that binds the values that are added keeps the order. -/
theorem add (hp : p.Numbered) (numbers : Numbers p.params q.params f)
    (naming : q.naming = p.naming) (fragments : q.fragments = p.fragments ++ [(c, f)])
    (grouped : q.grouped = p.grouped) (binds : c.binds = true ∨ f.placeholders = [])
    (staged : c.readsGroupedColumns = true → p.grouped = true) : q.Numbered := by
  have last {d g} (h : (d, g) ∈ q.fragments) : (d, g) ∈ p.fragments ∨ d = c ∧ g = f := by
    simpa [fragments] using h
  refine ⟨(numbers.stem.trans hp.stem).trans (congrArg _ naming.symm), ?_, fun d g hg hd => ?_,
    fun d g hg hd => ?_⟩
  · obtain ⟨vs, hvalues, -, hplaceholders⟩ := numbers
    rw [hvalues, fragments, List.flatMap_append, hp.inOrder, List.flatMap_singleton, hplaceholders,
      ← List.map_append, List.range_eq_range', List.range_eq_range']
    congr 1
    simp only [Params.size, List.length_append]
    rw [← List.range'_append_1, Nat.zero_add]
  · rcases last hg with hold | ⟨rfl, rfl⟩
    · exact hp.unbound d g hold hd
    · exact binds.resolve_left (by simp [hd])
  · rw [grouped]
    rcases last hg with hold | ⟨rfl, rfl⟩
    · exact hp.staged d g hold hd
    · exact staged hd

end Numbered

/-- A projection binds nothing. -/
theorem placeholders_of_projection {context : Context} {E : Entity} {bs : List (String × Expr)}
    {b b' : Binder} (h : Translates context (.construct E bs) b f b') : f.placeholders = [] := by
  cases h with
  | constant form value scalar => exact form.elim
  | projection select nonempty registered bindings => exact bindings.placeholders

variable {Known : Entity → Prop}

/-- Every step keeps the numbering. -/
theorem Step.numbered (h : Step Known p q) (hp : p.Numbered) : q.Numbered := by
  cases h with
  | condition clause known reads translated =>
      obtain ⟨b, rule, rfl⟩ := translated
      rcases clause with rfl | ⟨rfl, grouped⟩
      · exact hp.add rule.numbers rfl rfl rfl (.inl rfl) nofun
      · exact hp.add rule.numbers rfl rfl rfl (.inl rfl) fun _ => grouped
  | order known reads translated =>
      obtain ⟨b, rule, rfl⟩ := translated
      refine hp.add (rule.numbers.congr ?_) rfl rfl rfl (.inl rfl) nofun
      rw [placeholders_append]
      exact List.append_nil _
  | join known fresh leftKey old rightKey new translated registered apart =>
      obtain ⟨b, rule, rfl⟩ := translated
      refine hp.add (rule.numbers.congr ?_) rfl rfl rfl (.inl rfl) nofun
      rfl
  | projection known reads translated registered =>
      obtain ⟨b, rule, rfl⟩ := translated
      exact hp.add rule.numbers rfl rfl rfl (.inr (placeholders_of_projection rule)) nofun
  | aggregationKey grouped known named reads translated =>
      obtain ⟨b, rule, rfl⟩ := translated
      exact hp.add (rule.numbers.congr (placeholders_named _ _)) rfl rfl rfl (.inl rfl)
        fun _ => grouped
  | limit n | offset n => exact hp.add (.none rfl) rfl rfl rfl (.inr rfl) nofun

theorem KeyStep.numbered {key : String × Expr} (h : KeyStep Known p key q) (hp : p.Numbered) :
    q.Numbered := by
  obtain ⟨grouped, known, named, reads, b, rule, rfl⟩ := h
  exact hp.add rule.numbers rfl rfl rfl (.inl rfl) fun _ => grouped

theorem Built.numbered {start : Plan} {keys : List (String × Expr)} (h : Built Known start keys p)
    (hstart : start.Numbered) : p.Numbered := by
  refine h.induction hstart (fun _ _ old step => step.numbered old) ?_
    (fun _ _ _ old step => step.numbered old)
  exact fun _ old => ⟨old.stem, old.inOrder, old.unbound, fun _ _ _ _ => rfl⟩

namespace Numbered

variable {placeholder : String × Nat} {d : Clause} {s : Statement}

/-- The placeholders of all clauses are those of the values. -/
theorem mem_iff (hp : p.Numbered) : (∃ c, placeholder ∈ p.placeholdersOf c) ↔
    placeholder.1 = p.params.stem ∧ placeholder.2 < p.params.size := by
  have hall : (∃ c, placeholder ∈ p.placeholdersOf c) ↔
      placeholder ∈ p.fragments.flatMap fun part => part.2.placeholders := by
    simp only [mem_placeholdersOf, List.mem_flatMap, Prod.exists]
  rw [hall, hp.inOrder]
  constructor
  · intro h
    obtain ⟨i, hi, rfl⟩ := List.mem_map.1 h
    exact ⟨rfl, List.mem_range.1 hi⟩
  · rintro ⟨hstem, hindex⟩
    exact List.mem_map.2 ⟨placeholder.2, List.mem_range.2 hindex, Prod.ext hstem.symm rfl⟩

/-- No placeholder is in two clauses. -/
theorem clause_unique (hp : p.Numbered) (hc : placeholder ∈ p.placeholdersOf c)
    (hd : placeholder ∈ p.placeholdersOf d) : c = d := by
  obtain ⟨f, hf, hfound⟩ := mem_placeholdersOf.1 hc
  obtain ⟨g, hg, hfound'⟩ := mem_placeholdersOf.1 hd
  have hnodup : (p.fragments.flatMap fun part => part.2.placeholders).Nodup := by
    rw [hp.inOrder]
    exact List.Nodup.map (fun i j h => (Prod.mk.inj h).2) List.nodup_range
  have hpairwise := (List.nodup_flatMap.1 hnodup).2
  have symm : Std.Symm (Function.onFun List.Disjoint fun part : Clause × Fragment =>
      part.2.placeholders) := ⟨fun _ _ h _ hy hx => h hx hy⟩
  by_contra hne
  exact hpairwise.forall hf hg (fun h => hne (Prod.mk.inj h).1) hfound hfound'

theorem binds_of_mem (hp : p.Numbered) (h : placeholder ∈ p.placeholdersOf c) : c.binds = true := by
  obtain ⟨f, hf, hfound⟩ := mem_placeholdersOf.1 h
  by_contra hbinds
  rw [hp.unbound c f hf (by simpa using hbinds)] at hfound
  cases hfound

theorem grouped_of_mem (hp : p.Numbered) (h : placeholder ∈ p.placeholdersOf c)
    (hc : c.readsGroupedColumns = true) : p.grouped = true := by
  obtain ⟨f, hf, -⟩ := mem_placeholdersOf.1 h
  exact hp.staged c f hf hc

theorem placeholders_limitClause (hp : p.Numbered) : p.limitClause.placeholders = [] := by
  have silent (c : Clause) (word : String) (hc : c.binds = false) (f : Fragment)
      (hf : f ∈ ((p.fragmentsOf c).getLast?.map (after word)).toList) : f.placeholders = [] := by
    obtain ⟨g, hg, rfl⟩ := Option.map_eq_some_iff.1 (Option.mem_toList.1 hf)
    rw [placeholders_after]
    exact hp.unbound c g (p.mem_fragmentsOf.1 (List.mem_of_getLast? hg)) hc
  rw [limitClause, placeholders_joined, List.flatMap_eq_nil_iff]
  intro f hf
  rcases List.mem_append.1 hf with hlimit | hoffset
  · exact silent .limit "LIMIT" rfl f hlimit
  · exact silent .offset "OFFSET" rfl f hoffset

/-- The clauses that an ungrouped statement is made of. -/
theorem placeholders_ungroupedSql (hp : p.Numbered) : p.ungroupedSql.placeholders =
    [.select, .from, .join, .where, .orderBy].flatMap p.placeholdersOf := by
  rw [ungroupedSql, placeholders_lines, List.flatMap_append, placeholders_rowLines]
  simp only [List.flatMap_cons, List.flatMap_nil, placeholders_orderClause,
    hp.placeholders_limitClause, List.append_nil, List.append_assoc]

end Numbered

section

variable (keys : (p.fragmentsOf .groupBy).length = p.groupingKeys.length)

include keys

theorem placeholders_groupings (g : Fragment × OutputKey → Fragment)
    (same : ∀ x, (g x).placeholders = x.1.placeholders) :
    (p.groupings.map g).flatMap placeholders = p.placeholdersOf .groupBy := by
  have hfragments : p.groupings.map Prod.fst = p.fragmentsOf .groupBy := List.map_fst_zip keys.le
  rw [placeholdersOf, ← hfragments, List.flatMap_map, List.flatMap_map]
  exact List.flatMap_congr fun x _ => same x

/-- The clauses that the grouping is made of. A key is selected under a name, and grouped by. -/
theorem placeholders_groupingSql : p.groupingSql.placeholders =
    [.groupBy, .selectAggregate, .groupBy, .having].flatMap p.placeholdersOf := by
  have hkeys := placeholders_groupings keys (fun x => x.1.named x.2.name)
    fun x => placeholders_named _ _
  have hhaving : placeholders (if (conditionClause "HAVING" (p.fragmentsOf .having)).isEmpty then []
      else .space :: conditionClause "HAVING" (p.fragmentsOf .having)) =
        p.placeholdersOf .having := by
    rw [placeholdersOf, ← placeholders_conditionClause "HAVING"]
    split
    · rename_i hempty
      rw [List.isEmpty_iff.1 hempty]
    · rfl
  have hrows : p.aliasedRows.placeholders = [] := rfl
  unfold groupingSql
  simp only [placeholders_append, placeholders_space, placeholders_after, placeholders_joined,
    List.flatMap_append, hkeys, hhaving, hrows, List.flatMap_cons, List.flatMap_nil,
    List.append_nil, List.append_assoc]
  rfl

/-- In the condition that joins a row to its group they are repeated. -/
theorem placeholders_groupCondition :
    p.groupCondition.placeholders = p.placeholdersOf .groupBy := by
  rw [groupCondition, placeholders_joined]
  refine placeholders_groupings keys _ fun x => ?_
  rw [placeholders_around rfl]
  exact List.append_nil _

/-- The clauses that a grouped statement is made of: those of the rows, of the grouping and of the
condition that joins both, and the sort keys. -/
theorem placeholders_groupedSql (hp : p.Numbered) : p.groupedSql.placeholders =
    [.select, .from, .join, .where, .groupBy, .selectAggregate, .groupBy, .having, .groupBy,
      .orderBy].flatMap p.placeholdersOf := by
  have hrows : placeholders (.newline :: lines p.rowLines ++ [.newline]) =
      p.rowLines.flatMap placeholders := by
    rw [List.cons_append, placeholders_cons rfl, placeholders_append, placeholders_lines]
    exact List.append_nil _
  have hselect : placeholders (joined .comma [allOf p.naming.groupAlias, allOf p.naming.cteAlias]) =
      [] := rfl
  have haliased : p.aliasedRows.placeholders = [] := rfl
  unfold groupedSql
  simp only [placeholders_lines, List.flatMap_cons, List.flatMap_nil, placeholders_after,
    placeholders_append, placeholders_space, placeholders_parens, hselect, haliased,
    placeholders_orderClause, hp.placeholders_limitClause, List.append_nil, List.nil_append]
  rw [placeholders_cons rfl, placeholders_space, placeholders_cons rfl, placeholders_space,
    placeholders_parens, hrows, placeholders_cons rfl, placeholders_space, placeholders_after]
  rw [placeholders_rowLines, placeholders_groupingSql keys, placeholders_groupCondition keys]
  simp only [List.flatMap_cons, List.flatMap_nil, List.append_nil, List.append_assoc]

end

namespace Numbered

variable {placeholder : String × Nat} {s : Statement}

/-- A statement that selects has the placeholders of all clauses. -/
theorem mem_statement (hp : p.Numbered)
    (keys : (p.fragmentsOf .groupBy).length = p.groupingKeys.length) (h : p.statement = .ok s) :
    placeholder ∈ s.sql.placeholders ↔ ∃ c, placeholder ∈ p.placeholdersOf c := by
  have made {cs : List Clause} (hall : ∀ c, c.binds = true →
      (c.readsGroupedColumns = true → p.grouped = true) → c ∈ cs) :
      placeholder ∈ cs.flatMap p.placeholdersOf ↔ ∃ c, placeholder ∈ p.placeholdersOf c := by
    rw [List.mem_flatMap]
    constructor
    · rintro ⟨c, -, hc⟩
      exact ⟨c, hc⟩
    · rintro ⟨c, hc⟩
      exact ⟨c, hall c (hp.binds_of_mem hc) (hp.grouped_of_mem hc), hc⟩
  unfold Plan.statement at h
  obtain ⟨-, -, h⟩ := Outcome.bind_ok.1 h
  split at h
  · rename_i hrows
    obtain rfl := Except.ok.inj h
    rw [sql_finish, hp.placeholders_ungroupedSql]
    refine made fun c hbinds hgroups => ?_
    have hrows : p.grouped = false := by simpa using hrows
    cases c <;> simp_all [Clause.binds, Clause.readsGroupedColumns]
  · split at h
    · simp at h
    obtain rfl := Except.ok.inj h
    rw [sql_finish, placeholders_groupedSql keys hp]
    refine made fun c hbinds _ => ?_
    cases c <;> simp_all [Clause.binds]

/-- A statement that counts has the placeholders of all clauses but the sort keys. -/
theorem mem_countStatement (hp : p.Numbered) (h : p.countStatement = .ok s) :
    placeholder ∈ s.sql.placeholders ↔ ∃ c, c ≠ .orderBy ∧ placeholder ∈ p.placeholdersOf c := by
  unfold Plan.countStatement at h
  obtain ⟨-, -, h⟩ := Outcome.bind_ok.1 h
  split at h
  · cases h
  rename_i hrows
  obtain rfl := Except.ok.inj h
  have hclauses : placeholders (lines [after "SELECT" (named (.keyword Aggregate.count.symbol ::
      parens [.star]) Statement.countColumn), p.fromClause, p.joinClause, p.whereClause]) =
        [.from, .join, .where].flatMap p.placeholdersOf := by
    simp only [placeholders_lines, List.flatMap_cons, List.flatMap_nil, placeholders_after,
      placeholders_named, fromClause, joinClause, whereClause, placeholders_joined,
      placeholders_conditionClause, placeholdersOf]
    rfl
  rw [sql_finish, hclauses, List.mem_flatMap]
  constructor
  · rintro ⟨c, hc, hfound⟩
    exact ⟨c, by rintro rfl; simp at hc, hfound⟩
  · rintro ⟨c, hne, hfound⟩
    refine ⟨c, ?_, hfound⟩
    have hbinds := hp.binds_of_mem hfound
    have hgroups := hp.grouped_of_mem hfound
    cases c <;> simp_all [Clause.binds, Clause.readsGroupedColumns]

end Numbered

theorem checkTable_ok_iff (table : String) :
    (match Identifier.check table with
      | .ok () => .ok ()
      | .error err => .error (.identifier err) : Except QueryError Unit) = .ok () ↔
        Identifier.check table = .ok () := by
  cases Identifier.check table <;> simp

/-- The tables are checked one by one. -/
theorem checkTables_ok_iff :
    p.checkTables = .ok () ↔ ∀ E ∈ p.participants, Identifier.check E.table = .ok () := by
  constructor
  · intro h E hE
    exact (checkTable_ok_iff E.table).1 (Outcome.forM_ok h E hE)
  · intro h
    exact Outcome.forM_of_ok fun E hE => (checkTable_ok_iff E.table).2 (h E hE)

/-- A plan that is built has a statement unless one of its tables has no identifier for a name. -/
theorem Built.statement_ok_iff {root : Entity} {naming : Naming} {log : CallLog}
    {keys : List (String × Expr)} (h : Built Known (.new root naming log) keys p) :
    (∃ s, p.statement = .ok s) ↔ ∀ E ∈ p.participants, Identifier.check E.table = .ok () := by
  obtain ⟨hkeys, -⟩ := h.keys
  have hgrouped := h.grouped rfl
  rw [← checkTables_ok_iff]
  unfold statement
  constructor
  · rintro ⟨s, hs⟩
    obtain ⟨_, htables, -⟩ := Outcome.bind_ok.1 hs
    exact htables
  · intro htables
    rw [htables, hgrouped, h.length_fragments, hkeys]
    cases keys with
    | nil => exact ⟨_, rfl⟩
    | cons key keys => exact ⟨p.finish p.groupedSql, by simp [bind, Except.bind]⟩

namespace Numbered

variable {name : String} {s : Statement}

theorem mem_names_iff (hp : p.Numbered) : name ∈ p.params.names ↔
    ∃ placeholder c, placeholder ∈ p.placeholdersOf c ∧
      Number.numbered placeholder.1 placeholder.2 = name := by
  rw [Params.names_eq, List.mem_map]
  constructor
  · rintro ⟨i, hi, rfl⟩
    obtain ⟨c, hc⟩ := hp.mem_iff.2 (⟨rfl, List.mem_range.1 hi⟩ :
      (p.params.stem, i).1 = p.params.stem ∧ (p.params.stem, i).2 < p.params.size)
    exact ⟨_, c, hc, rfl⟩
  · rintro ⟨⟨stem, i⟩, c, hc, rfl⟩
    obtain ⟨rfl, hi⟩ := hp.mem_iff.1 ⟨c, hc⟩
    exact ⟨i, List.mem_range.2 hi, rfl⟩

theorem mem_names_of_mem (hp : p.Numbered) (h : name ∈ p.orderClause.placeholderNames) :
    name ∈ p.params.names := by
  rw [placeholderNames, placeholders_orderClause] at h
  obtain ⟨placeholder, horder, hname⟩ := List.mem_map.1 h
  exact hp.mem_names_iff.2 ⟨placeholder, .orderBy, horder, hname⟩

/-- A statement that selects names all parameters and nothing else. -/
theorem mem_names_statement (hp : p.Numbered)
    (keys : (p.fragmentsOf .groupBy).length = p.groupingKeys.length) (h : p.statement = .ok s) :
    name ∈ s.sql.placeholderNames ↔ name ∈ p.params.names := by
  rw [hp.mem_names_iff, placeholderNames, List.mem_map]
  constructor
  · rintro ⟨placeholder, hmem, rfl⟩
    obtain ⟨c, hc⟩ := (hp.mem_statement keys h).1 hmem
    exact ⟨placeholder, c, hc, rfl⟩
  · rintro ⟨placeholder, c, hc, rfl⟩
    exact ⟨placeholder, (hp.mem_statement keys h).2 ⟨c, hc⟩, rfl⟩

/-- A statement that counts names the parameters that no sort key names. -/
theorem mem_names_countStatement (hp : p.Numbered) (h : p.countStatement = .ok s) :
    name ∈ s.sql.placeholderNames ↔
      name ∈ p.params.names ∧ name ∉ p.orderClause.placeholderNames := by
  rw [hp.mem_names_iff, placeholderNames, placeholderNames, placeholders_orderClause, List.mem_map]
  constructor
  · rintro ⟨placeholder, hmem, rfl⟩
    obtain ⟨c, hne, hc⟩ := (hp.mem_countStatement h).1 hmem
    refine ⟨⟨placeholder, c, hc, rfl⟩, fun horder => ?_⟩
    obtain ⟨other, hother, hname⟩ := List.mem_map.1 horder
    have hstem := (hp.mem_iff.1 ⟨c, hc⟩).1
    have hstem' := (hp.mem_iff.1 ⟨.orderBy, hother⟩).1
    rw [hstem, hstem'] at hname
    have heq : other = placeholder :=
      Prod.ext (hstem'.trans hstem.symm) (Number.numbered_injective hname)
    exact hne (hp.clause_unique hc (heq ▸ hother))
  · rintro ⟨⟨placeholder, c, hc, rfl⟩, horder⟩
    refine ⟨placeholder, (hp.mem_countStatement h).2 ⟨c, ?_, hc⟩, rfl⟩
    rintro rfl
    exact horder (List.mem_map.2 ⟨placeholder, hc, rfl⟩)

end Numbered

end Plan

namespace Build

variable {d : Build} {naming : Naming} {log : CallLog} {p : Plan} {s : Statement}

theorem numbered_of_plan (h : d.plan naming log = .ok p) : p.Numbered := by
  have built : Plan.Built (fun _ => True) (.new d.root naming log) d.keys p :=
    built_of_plan (fun _ _ => trivial) h
  exact built.numbered (.new d.root naming log)

theorem stem_of_plan (h : d.plan naming log = .ok p) : p.params.stem = naming.parameterStem := by
  have built : Plan.Built (fun _ => True) (.new d.root naming log) d.keys p :=
    built_of_plan (fun _ _ => trivial) h
  exact (numbered_of_plan h).stem.trans (congrArg Naming.parameterStem built.naming)

/-- With plain names and the default stem, what is made of sound tokens has only the placeholders
that it was given. -/
theorem placeholdersIn_of_plan {f : Fragment} (accepted : d.plan naming log = .ok p)
    (stem : naming.parameterStem = "@p") (known : ∀ E ∈ d.entities, E.Named)
    (hf : Fine (Sql.Token.Sound (∀ E ∈ d.entities, E.Named) p.params) f) :
    placeholdersIn "@p" f.text = f.placeholderNames := by
  have hstem : p.params.stem = "@p" := (stem_of_plan accepted).trans stem
  rw [← hstem]
  exact placeholdersIn_eq hf known ⟨'@', by rw [hstem]; decide⟩

/-- With plain names and the default stem, the calls that are accepted have a statement unless a
table has no identifier for a name. The placeholders in its text are exactly the names of its
parameters, also where a grouping key with parameters is repeated. -/
theorem placeholders_of_compile (check : naming.check = .ok ())
    (stem : naming.parameterStem = "@p") (known : ∀ E ∈ d.entities, E.Named)
    (accepted : d.plan naming log = .ok p) :
    ((∃ s, d.compile naming log = .ok s) ↔
      ∀ E ∈ p.participants, Identifier.check E.table = .ok ()) ∧
    ∀ s, d.compile naming log = .ok s →
      ∀ name, name ∈ placeholdersIn "@p" s.text ↔ name ∈ s.params.names := by
  have built : Plan.Built (fun _ => True) (.new d.root naming log) d.keys p :=
    built_of_plan (fun _ _ => trivial) accepted
  have hcompile : d.compile naming log = p.statement := by
    rw [compile_eq, accepted]
    rfl
  rw [hcompile]
  refine ⟨built.statement_ok_iff, fun s hs name => ?_⟩
  have sound : p.Sound (∀ E ∈ d.entities, E.Named) := sound_of_plan check id accepted
  obtain ⟨hsql, hparams⟩ := sound.fits.statement (covers_sound _ _) hs
  rw [Statement.text, placeholdersIn_of_plan accepted stem known hsql, hparams]
  exact (numbered_of_plan accepted).mem_names_statement built.length_fragments hs

/-- The revenue of orders by the last digit of their totals. -/
def revenueByDigit : Build :=
  ⟨Demo.order, [.filter (.comparison .gt Demo.total (Demo.number 0))],
    some ⟨[("digit", .comparison .rem Demo.total (Demo.number 10))],
      [.aggregate "revenue" (Demo.sum Demo.total),
        .having (.comparison .gt (Demo.sum Demo.total) (Demo.number 100)),
        .orderBy (.comparison .add Demo.total (Demo.number 1)) .descending, .limit 10]⟩⟩

theorem revenueByDigit_named : ∀ E ∈ revenueByDigit.entities, E.Named := by
  intro E hE
  obtain rfl : E = Demo.order := by
    simpa [entities, revenueByDigit, Query.Call.entities, GroupedQuery.Call.entities, Demo.total,
      Demo.sum, Demo.number] using hE
  exact { names := by decide, columns := by decide, table := by decide }

/-- The key and its parameter stand in the select list, behind GROUP BY and behind ON. -/
theorem revenueByDigit_placeholders :
    ∃ p s, revenueByDigit.plan {} [] = .ok p ∧ revenueByDigit.compile {} [] = .ok s ∧
      ({} : Naming).check = .ok () ∧ ({} : Naming).parameterStem = "@p" ∧
      (∀ E ∈ revenueByDigit.entities, E.Named) ∧
      s.params.names = ["@p0", "@p1", "@p2", "@p3"] ∧
      s.sql.placeholderNames = ["@p0", "@p1", "@p1", "@p2", "@p1", "@p3"] ∧
      ∀ name, name ∈ placeholdersIn "@p" s.text ↔ name ∈ s.params.names := by
  have found : (revenueByDigit.compile {} []).toOption.map
      (fun s => (s.params.names, s.sql.placeholderNames)) =
        some (["@p0", "@p1", "@p2", "@p3"], ["@p0", "@p1", "@p1", "@p2", "@p1", "@p3"]) := by
    decide +kernel
  obtain ⟨s, compiled, hfound⟩ := Option.map_eq_some_iff.1 found
  obtain ⟨hparams, hplaceholders⟩ := Prod.mk.inj hfound
  have compiled := Outcome.eq_ok_of_toOption compiled
  obtain ⟨p, accepted, -⟩ := Outcome.bind_ok.1 (compile_eq _ _ _ ▸ compiled)
  obtain ⟨-, hnames⟩ := placeholders_of_compile rfl rfl revenueByDigit_named accepted
  exact ⟨p, s, accepted, compiled, rfl, rfl, revenueByDigit_named, hparams, hplaceholders,
    hnames s compiled⟩

/-- A statement that counts names only its parameters, and all but those that sort keys name. So
it names all of them exactly when no sort key binds a value. With plain names and the default stem
its placeholders are those in its text. -/
theorem placeholders_of_countStatement (check : naming.check = .ok ())
    (stem : naming.parameterStem = "@p") (accepted : d.plan naming log = .ok p)
    (h : p.countStatement = .ok s) :
    (∀ name, name ∈ s.sql.placeholderNames ↔
      name ∈ s.params.names ∧ name ∉ p.orderClause.placeholderNames) ∧
    ((∀ name ∈ s.params.names, name ∈ s.sql.placeholderNames) ↔
      p.orderClause.placeholderNames = []) ∧
    ((∀ E ∈ d.entities, E.Named) → placeholdersIn "@p" s.text = s.sql.placeholderNames) := by
  have numbered := numbered_of_plan accepted
  have sound : p.Sound (∀ E ∈ d.entities, E.Named) := sound_of_plan check id accepted
  obtain ⟨hsql, hparams⟩ := sound.fits.countStatement (covers_sound _ _) h
  have hnames (name : String) : name ∈ s.sql.placeholderNames ↔
      name ∈ s.params.names ∧ name ∉ p.orderClause.placeholderNames := by
    rw [hparams]
    exact numbered.mem_names_countStatement h
  refine ⟨hnames, ⟨fun hall => ?_, fun hnone name hname => ?_⟩, fun known => ?_⟩
  · refine List.eq_nil_iff_forall_not_mem.2 fun name horder => ?_
    have hname : name ∈ s.params.names := by
      rw [hparams]
      exact numbered.mem_names_of_mem horder
    exact ((hnames name).1 (hall name hname)).2 horder
  · exact (hnames name).2 ⟨hname, by simp [hnone]⟩
  · exact placeholdersIn_of_plan accepted stem known hsql

/-- Large orders, the largest first. -/
def largeOrders : Build :=
  ⟨Demo.order, [.filter (.comparison .gt Demo.total (Demo.number 100)),
    .orderBy Demo.total .descending], none⟩

/-- A sort key without values leaves no parameter unnamed. -/
theorem largeOrders_counted :
    ∃ p s, largeOrders.plan {} [] = .ok p ∧ p.countStatement = .ok s ∧
      ({} : Naming).check = .ok () ∧ ({} : Naming).parameterStem = "@p" ∧
      s.text = "SELECT COUNT(*) AS row_count\nFROM orders Extend0\nWHERE Extend0.total > @p0" ∧
      s.params.names = ["@p0"] ∧ p.orderClause.placeholderNames = [] ∧
      ∀ name ∈ s.params.names, name ∈ s.sql.placeholderNames := by
  obtain ⟨p, s, accepted, counted, htext, hnames, horder⟩ : ∃ p s,
      largeOrders.plan {} [] = .ok p ∧ p.countStatement = .ok s ∧
      s.text = "SELECT COUNT(*) AS row_count\nFROM orders Extend0\nWHERE Extend0.total > @p0" ∧
      s.params.names = ["@p0"] ∧ p.orderClause.placeholderNames = [] :=
    ⟨_, _, rfl, rfl, by decide +kernel, by decide +kernel, rfl⟩
  obtain ⟨-, hall, -⟩ := placeholders_of_countStatement rfl rfl accepted counted
  exact ⟨p, s, accepted, counted, rfl, rfl, htext, hnames, horder, hall.2 horder⟩

/-- All orders, by one more than the total. -/
def sortedOrders : Build :=
  ⟨Demo.order, [.orderBy (.comparison .add Demo.total (.literal (.int 1))) .ascending], none⟩

/-- The value in the sort key is bound to a statement that has no placeholder. -/
theorem sortedOrders_unnamed :
    ∃ p s, sortedOrders.plan {} [] = .ok p ∧ p.countStatement = .ok s ∧
      ({} : Naming).check = .ok () ∧ ({} : Naming).parameterStem = "@p" ∧
      s.text = "SELECT COUNT(*) AS row_count\nFROM orders Extend0" ∧
      s.params.names = ["@p0"] ∧ placeholdersIn "@p" s.text = [] :=
  ⟨_, _, rfl, rfl, rfl, rfl, by decide +kernel, by decide +kernel, by decide +kernel⟩

end Build

end TypedQuery
