import TypedQuery.Proofs.Outcome
import TypedQuery.Proofs.Sql.Vocabulary
import TypedQuery.Statement

/-!
# The tokens of statements

A statement consists of the fragments of its plan, of names that the plan writes itself, and of
keywords and punctuation. So what holds of every token of the fragments and of these names holds
of every token of the statement, and placeholders stay separated from what follows them.
-/

namespace TypedQuery

open TypedQuery.Sql TypedQuery.Sql.Fragment

namespace Sql

/-- The property holds of all keywords, punctuation and plain names. -/
def Covers (P : Token → Prop) : Prop := ∀ t, t.isPlaceholder = false → t.isOrdinary = true → P t

namespace Fragment

/-- All tokens have the property, and placeholders are separated from what follows. -/
structure Fine (P : Token → Prop) (f : Fragment) : Prop where
  tokens : ∀ t ∈ f, P t
  separated : Separated f

namespace Fine

variable {P : Token → Prop} {f g : Fragment} {fs : List Fragment} {t : Token}

theorem nil : Fine P [] := ⟨by simp, List.IsChain.nil⟩

theorem cons (ht : P t) (other : t.isPlaceholder = false) (hf : Fine P f) : Fine P (t :: f) :=
  ⟨List.forall_mem_cons.2 ⟨ht, hf.tokens⟩, .cons other hf.separated⟩

theorem singleton (ht : P t) : Fine P [t] :=
  ⟨List.forall_mem_singleton.2 ht, separated_singleton⟩

theorem append (hf : Fine P f) (hg : Fine P g) (head : ∀ u ∈ g.head?, u.separates = true) :
    Fine P (f ++ g) :=
  ⟨List.forall_mem_append.2 ⟨hf.tokens, hg.tokens⟩, hf.separated.append hg.separated head⟩

variable (covers : Covers P)

include covers

theorem space (hf : Fine P f) : Fine P (.space :: f) :=
  .cons (covers _ rfl (by decide)) rfl hf

theorem spaced (hf : Fine P f) (hg : Fine P g) : Fine P (f ++ .space :: g) :=
  hf.append (hg.space covers) (by simp [Token.separates])

theorem parens (hf : Fine P f) : Fine P (parens f) := by
  apply append (.cons (covers _ rfl (by decide)) rfl hf) (singleton (covers _ rfl (by decide)))
  simp [Token.separates]

theorem around (hf : Fine P f) (ht : P t) (other : t.isPlaceholder = false) (hg : Fine P g) :
    Fine P (around f t g) :=
  hf.spaced covers (.cons ht other (hg.space covers))

theorem after (word : String) (ordinary : (Token.keyword word).isOrdinary = true) (hf : Fine P f) :
    Fine P (after word f) :=
  .cons (covers _ rfl ordinary) rfl (hf.space covers)

theorem named {s : String} (hf : Fine P f) (hs : P (.name s)) : Fine P (f.named s) :=
  hf.spaced covers (.cons (covers _ rfl (by decide)) rfl (.space covers (.singleton hs)))

theorem joined {c : Clause.Separator} (hfs : ∀ f ∈ fs, Fine P f) : Fine P (joined c fs) := by
  refine ⟨forall_mem_joined ?_ fun f hf => (hfs f hf).tokens,
    .joined fun f hf => (hfs f hf).separated⟩
  intro t ht
  cases c with
  | comma | and | newline =>
      simp only [separation, List.mem_cons, List.not_mem_nil, or_false] at ht
      rcases ht with rfl | rfl | rfl <;> exact covers _ rfl (by decide)

theorem lines (hfs : ∀ f ∈ fs, Fine P f) : Fine P (lines fs) :=
  joined covers fun f hf => hfs f (List.mem_filter.1 hf).1

/-- Conditions behind a keyword, if there are any. -/
theorem conditionClause (word : String) (ordinary : (Token.keyword word).isOrdinary = true)
    (hfs : ∀ f ∈ fs, Fine P f) : Fine P (Plan.conditionClause word fs) := by
  unfold Plan.conditionClause
  match fs with
  | [] => exact nil
  | [f] => exact (hfs f (by simp)).after covers word ordinary
  | f :: g :: fs =>
      refine after covers word ordinary (joined covers ?_)
      intro k hk
      obtain ⟨h, hh, rfl⟩ := List.mem_map.1 hk
      exact (hfs h hh).parens covers

end Fine

end Fragment

end Sql

namespace Plan

variable {P : Sql.Token → Prop} {p : Plan} {s : Statement}

@[simp] theorem sql_finish (sql : Fragment) : (p.finish sql).sql = sql := rfl

@[simp] theorem shape_finish (sql : Fragment) : (p.finish sql).shape = p.shape := rfl

@[simp] theorem params_finish (sql : Fragment) : (p.finish sql).params = p.params := rfl

/-- The names that a statement has beside those in its fragments: the result columns of the root
and the joined entities, those of the grouping keys, and the aliases of a grouped query. -/
def ownNames (p : Plan) : List Sql.Token :=
  (p.bindings.flatMap fun b =>
      b.fields.flatMap fun f => [.column b.label f.column, .name (b.column f.name)]) ++
    (p.groupingKeys.flatMap fun k => [.name k.name, .column p.naming.groupAlias k.name]) ++
    [.name p.naming.cteName, .name p.naming.cteAlias, .name p.naming.groupAlias,
      .column p.naming.groupAlias "*", .column p.naming.cteAlias "*"]

/-- The fragments are fine and so are the names that the statement adds. -/
structure Fits (P : Sql.Token → Prop) (p : Plan) : Prop where
  fragments : ∀ c f, (c, f) ∈ p.fragments → Fine P f
  names : ∀ t ∈ p.ownNames, P t

namespace Fits

variable (fits : p.Fits P)

include fits

theorem fragmentsOf (c : Clause) : ∀ f ∈ p.fragmentsOf c, Fine P f :=
  fun f hf => fits.fragments c f (p.mem_fragmentsOf.1 hf)

theorem bindings {b : Binding} {f : Field} (hb : b ∈ p.bindings) (hf : f ∈ b.fields) :
    P (.column b.label f.column) ∧ P (.name (b.column f.name)) := by
  have own (t : Sql.Token)
      (ht : t ∈ [Sql.Token.column b.label f.column, .name (b.column f.name)]) : P t := by
    refine fits.names t (List.mem_append_left _ (List.mem_append_left _ ?_))
    exact List.mem_flatMap.2 ⟨b, hb, List.mem_flatMap.2 ⟨f, hf, ht⟩⟩
  exact ⟨own _ (by simp), own _ (by simp)⟩

theorem groupingKeys {k : OutputKey} (hk : k ∈ p.groupingKeys) :
    P (.name k.name) ∧ P (.column p.naming.groupAlias k.name) := by
  have own (t : Sql.Token)
      (ht : t ∈ [Sql.Token.name k.name, .column p.naming.groupAlias k.name]) : P t := by
    refine fits.names t (List.mem_append_left _ (List.mem_append_right _ ?_))
    exact List.mem_flatMap.2 ⟨k, hk, ht⟩
  exact ⟨own _ (by simp), own _ (by simp)⟩

theorem aliases {t : Sql.Token}
    (ht : t ∈ [Sql.Token.name p.naming.cteName, .name p.naming.cteAlias, .name p.naming.groupAlias,
      .column p.naming.groupAlias "*", .column p.naming.cteAlias "*"]) : P t :=
  fits.names t (List.mem_append_right _ ht)

theorem groupings {f : Fragment} {k : OutputKey} (h : (f, k) ∈ p.groupings) :
    Fine P f ∧ P (.name k.name) ∧ P (.column p.naming.groupAlias k.name) := by
  obtain ⟨hf, hk⟩ := List.of_mem_zip h
  exact ⟨fits.fragmentsOf .groupBy f hf, fits.groupingKeys hk⟩

variable (covers : Covers P)

include covers

theorem selectClause : Fine P p.selectClause := by
  unfold Plan.selectClause
  split
  · refine .joined covers fun f hf => ?_
    obtain ⟨b, hb, hf⟩ := List.mem_flatMap.1 hf
    obtain ⟨field, hfield, rfl⟩ := List.mem_map.1 hf
    obtain ⟨hcolumn, hname⟩ := fits.bindings hb hfield
    exact .named covers (.singleton hcolumn) hname
  · exact .joined covers (fits.fragmentsOf .select)

theorem orderClause : Fine P p.orderClause := by
  unfold Plan.orderClause
  split
  · exact .nil
  · exact .after covers "ORDER BY" (by decide) (.joined covers (fits.fragmentsOf .orderBy))

theorem limitClause : Fine P p.limitClause := by
  have last (c : Clause) (word : String) (ordinary : (Sql.Token.keyword word).isOrdinary = true)
      (f : Fragment) (hf : f ∈ ((p.fragmentsOf c).getLast?.map (after word)).toList) :
      Fine P f := by
    obtain ⟨g, hg, rfl⟩ := Option.map_eq_some_iff.1 (Option.mem_toList.1 hf)
    exact .after covers word ordinary (fits.fragmentsOf c g (List.mem_of_getLast? hg))
  refine .joined covers fun f hf => ?_
  rcases List.mem_append.1 hf with hlimit | hoffset
  · exact last .limit "LIMIT" (by decide) f hlimit
  · exact last .offset "OFFSET" (by decide) f hoffset

theorem rowLines : ∀ f ∈ p.rowLines, Fine P f := by
  have hselect := (fits.selectClause covers).after covers "SELECT" (by decide)
  have hfrom := Fine.after covers "FROM" (by decide)
    (.joined covers (c := .newline) (fits.fragmentsOf .from))
  have hjoin := Fine.joined covers (c := .newline) (fits.fragmentsOf .join)
  have hwhere := Fine.conditionClause covers "WHERE" (by decide) (fits.fragmentsOf .where)
  simpa [Plan.rowLines] using ⟨hselect, hfrom, hjoin, hwhere⟩

theorem ungroupedSql : Fine P p.ungroupedSql := by
  refine .lines covers (List.forall_mem_append.2 ⟨fits.rowLines covers, ?_⟩)
  simpa using ⟨fits.orderClause covers, fits.limitClause covers⟩

theorem aliasedRows : Fine P p.aliasedRows :=
  .cons (fits.aliases (by simp)) rfl (.space covers (.singleton (fits.aliases (by simp))))

theorem groupingSql : Fine P p.groupingSql := by
  have hfrom := (fits.aliasedRows covers).after covers "FROM" (by decide)
  have hgroup := Fine.after covers "GROUP BY" (by decide)
    (.joined covers (c := .comma) (fits.fragmentsOf .groupBy))
  have hhaving := Fine.conditionClause covers "HAVING" (by decide) (fits.fragmentsOf .having)
  have hrest : Fine P (if (conditionClause "HAVING" (p.fragmentsOf .having)).isEmpty then []
      else .space :: conditionClause "HAVING" (p.fragmentsOf .having)) := by
    split
    · exact .nil
    · exact hhaving.space covers
  refine .append (.spaced covers (.spaced covers (.after covers "SELECT" (by decide)
    (.joined covers (List.forall_mem_append.2 ⟨?_, fits.fragmentsOf .selectAggregate⟩))) hfrom)
    hgroup) hrest ?_
  · intro f hf
    obtain ⟨⟨g, k⟩, hmem, rfl⟩ := List.mem_map.1 hf
    obtain ⟨hg, hname, -⟩ := fits.groupings hmem
    exact hg.named covers hname
  · split <;> simp [Sql.Token.separates]

theorem groupCondition : Fine P p.groupCondition := by
  refine .joined covers fun f hf => ?_
  obtain ⟨⟨g, k⟩, hmem, rfl⟩ := List.mem_map.1 hf
  obtain ⟨hg, -, hcolumn⟩ := fits.groupings hmem
  exact hg.around covers (covers _ rfl (Sql.Token.isOrdinary_operator .eq)) rfl (.singleton hcolumn)

theorem groupedSql : Fine P p.groupedSql := by
  have ordinary {t : Sql.Token} (other : t.isPlaceholder = false) (ht : t.isOrdinary = true) :
      P t :=
    covers t other ht
  have hrows : Fine P (.newline :: lines p.rowLines ++ [.newline]) := by
    refine .append (.cons (ordinary rfl (by decide)) rfl (.lines covers (fits.rowLines covers)))
      (.singleton (ordinary rfl (by decide))) ?_
    simp [Sql.Token.separates]
  have hwith := Fine.after covers "WITH" (by decide)
    (.cons (fits.aliases (t := .name p.naming.cteName) (by simp)) rfl
      (.space covers (.cons (ordinary (t := .keyword "AS") rfl (by decide)) rfl
        (.space covers (hrows.parens covers)))))
  have hselect : Fine P (after "SELECT"
      (joined .comma [allOf p.naming.groupAlias, allOf p.naming.cteAlias])) := by
    refine .after covers "SELECT" (by decide) (.joined covers ?_)
    simpa using ⟨Fine.singleton (fits.aliases (by simp)), Fine.singleton (fits.aliases (by simp))⟩
  have hfrom := (fits.aliasedRows covers).after covers "FROM" (by decide)
  have hon := (fits.groupCondition covers).after covers "ON" (by decide)
  have hinner := Fine.after covers "INNER JOIN" (by decide)
    (((fits.groupingSql covers).parens covers).spaced covers
      (.cons (fits.aliases (t := .name p.naming.groupAlias) (by simp)) rfl (hon.space covers)))
  refine .lines covers ?_
  simpa using ⟨hwith, hselect, hfrom, hinner, fits.orderClause covers, fits.limitClause covers⟩

/-- A statement has only tokens of its fragments, names, keywords and punctuation. -/
theorem statement (h : p.statement = .ok s) : Fine P s.sql ∧ s.params = p.params := by
  unfold Plan.statement at h
  obtain ⟨-, -, h⟩ := Outcome.bind_ok.1 h
  split at h
  · obtain rfl := Except.ok.inj h
    rw [sql_finish, params_finish]
    exact ⟨fits.ungroupedSql covers, rfl⟩
  · split at h
    · simp at h
    · obtain rfl := Except.ok.inj h
      rw [sql_finish, params_finish]
      exact ⟨fits.groupedSql covers, rfl⟩

/-- So has a statement that counts rows. -/
theorem countStatement (h : p.countStatement = .ok s) : Fine P s.sql ∧ s.params = p.params := by
  unfold Plan.countStatement at h
  obtain ⟨-, -, h⟩ := Outcome.bind_ok.1 h
  split at h
  · cases h
  obtain rfl := Except.ok.inj h
  have word (s : String) (ordinary : (Sql.Token.name s).isOrdinary = true) : P (.name s) :=
    covers _ rfl ordinary
  have hcount : Fine P (.keyword Aggregate.count.symbol :: parens [.star]) :=
    .cons (covers _ rfl (by decide)) rfl (.parens covers (.singleton (covers _ rfl (by decide))))
  have hselect := (hcount.named covers (word Statement.countColumn (by decide))).after covers
    "SELECT" (by decide)
  obtain ⟨-, hrest⟩ := List.forall_mem_cons.1 (fits.rowLines covers)
  exact ⟨.lines covers (List.forall_mem_cons.2 ⟨hselect, hrest⟩), rfl⟩

end Fits

end Plan

end TypedQuery
