import TypedQuery.Proofs.Plan.Rewriting
import TypedQuery.Proofs.Sql.Conjunction
import TypedQuery.Proofs.Sql.Grouping

/-!
# Joining rows to their groups

A grouped statement joins each row to its group by one equation for each grouping key. The keys
stand in these equations as they stand behind GROUP BY, without parentheses around them. So the
condition is read as equations of the whole keys exactly when every key stands in front of an
equality sign as one operand, which comparisons and connectives do not.
-/

namespace TypedQuery

open TypedQuery.Sql TypedQuery.Sql.Fragment

namespace Sql

/-- What a leaf of a grouping key is written as: a field as the column that it has among the
flattened rows, a constant as it is elsewhere. -/
inductive Binder.WritesFlat (rows : String) (b : Binder) : Expr → String → Prop
  | field {e name f label} (field : e.field? name = some f)
      (registered : b.aliases.lookup? e = some label) :
      WritesFlat rows b (.field e name) (rows ++ "." ++ (label ++ "_" ++ f.name))
  | constant {x s} (constant : x.foldable = true) (written : b.Writes x s) :
      WritesFlat rows b x s

theorem Binder.WritesFlat.mono {rows : String} {b b' : Binder} {x : Expr} {s : String}
    (h : b.WritesFlat rows x s) (before : b.Before b') : b'.WritesFlat rows x s := by
  cases h with
  | field field registered => exact .field field (before.aliases.lookup? registered)
  | constant constant written => exact .constant constant (written.mono before)

/-- A constant of a grouping key is written as one leaf. -/
theorem Binder.exists_writesFlat {b : Binder} {x : Expr} {v : Value} {log log' : CallLog}
    (rows : String) (value : x.fold.outcome log = (.ok (some v), log'))
    (whole : isUnbroken b.params.stem = true) :
    ∃ s, (b.bound v).WritesFlat rows x s ∧ Spells (b.written v) (.leaf s) := by
  obtain ⟨s, hs, hspells⟩ := exists_writes value whole
  exact ⟨s, .constant (Expr.outcome_fold_some.1 value).1 hs, hspells⟩

/-- No name that the expression reads is cut by a blank or a parenthesis, and no placeholder is. -/
structure Unbroken (x : Expr) (b : Binder) : Prop where
  whole : isUnbroken b.params.stem = true
  aliases : b.aliases.Plain
  fields : ∀ E ∈ x.entities, ∀ f ∈ E.fields, isUnbroken f.name = true

namespace Unbroken

variable {x l r : Expr} {b b' : Binder}

theorem sides (h : ∀ E ∈ l.entities ++ r.entities, ∀ f ∈ E.fields, isUnbroken f.name = true)
    (whole : isUnbroken b.params.stem = true) (aliases : b.aliases.Plain) :
    Unbroken l b ∧ Unbroken r b := by
  obtain ⟨hl, hr⟩ := List.forall_mem_append.1 h
  exact ⟨⟨whole, aliases, hl⟩, ⟨whole, aliases, hr⟩⟩

theorem after (h : Unbroken x b) (before : b.Before b') : Unbroken x b' := by
  refine ⟨?_, before.aliases.plain h.aliases, h.fields⟩
  rw [before.stem]
  exact h.whole

end Unbroken

/-- Flattened columns and constants are words, and a grouping key has no other leaves. -/
theorem writtenInWords_groupBy {c : Context} (clause : c.clause = .groupBy)
    (rows : isUnbroken c.naming.cteAlias = true) :
    WrittenInWords c Unbroken (Binder.WritesFlat c.naming.cteAlias) where
  comparison h :=
    Unbroken.sides (by simpa only [Expr.entities_comparison] using h.fields) h.whole h.aliases
  logical h :=
    Unbroken.sides (by simpa only [Expr.entities_logical] using h.fields) h.whole h.aliases
  after := Unbroken.after
  mono := Binder.WritesFlat.mono
  constant unbroken value := Binder.exists_writesFlat _ value unbroken.whole
  leaf := by
    intro x b f b' unbroken h operand
    cases h with
    | @literal v b scalar =>
        have value : (Expr.literal v).fold.outcome b.log = (.ok (some v), b.log) := rfl
        exact Binder.exists_writesFlat _ value unbroken.whole
    | constant form value scalar => exact Binder.exists_writesFlat _ value unbroken.whole
    | @groupedColumn e name field label b found groups registered =>
        have hfield := unbroken.fields e (by simp) _ (Entity.mem_of_field? found)
        have hlabel := isUnbroken_of_isPlain (unbroken.aliases.lookup? registered)
        have hcolumn := isUnbroken_append (isUnbroken_append hlabel (t := "_") (by decide)) hfield
        exact ⟨_, .field found registered, Binder.spells_column rows hcolumn⟩
    | column field plain registered =>
        simp [Context.readsGroupedColumns, clause, Clause.readsGroupedColumns] at plain
    | testLeft | testRight | comparison | arithmetic | logical => cases operand
    -- helpers, aggregates and projections are refused behind GROUP BY
    | between predicates | like predicates | emptySet predicates | memberOf predicates =>
        simp [clause, Clause.acceptsPredicates] at predicates
    | countRows aggregates | aggregate aggregates =>
        simp [clause, Clause.acceptsAggregates] at aggregates
    | projection select => simp [clause] at select

namespace Fragment

/-- A line has text before it up to a line break, and behind it from one on. -/
theorem joined_newline_split (before : List Fragment) (f : Fragment) (behind : List Fragment) :
    ∃ g h, joined .newline (before ++ f :: behind) = g ++ f ++ h ∧
      (h = [] ∨ h.head? = some .newline) := by
  induction before with
  | nil =>
      cases behind with
      | nil => exact ⟨[], [], by simp [joined], .inl rfl⟩
      | cons g behind =>
          refine ⟨[], .newline :: joined .newline (g :: behind), ?_, .inr rfl⟩
          simp [joined, separation]
  | cons g before ih =>
      obtain ⟨k, h, heq, hnext⟩ := ih
      obtain ⟨first, rest, hcons⟩ :=
        List.exists_cons_of_ne_nil (show before ++ f :: behind ≠ [] by simp)
      refine ⟨g ++ .newline :: k, h, ?_, hnext⟩
      rw [List.cons_append, joined, hcons, List.intercalate_cons_cons, ← hcons]
      have hrest : (separation .newline).intercalate (before ++ f :: behind) = k ++ f ++ h := heq
      rw [hrest]
      simp [separation]

theorem isBlank_after {word : String} (h : word ≠ "") (f : Fragment) :
    (after word f).isBlank = false := by
  rw [isBlank, beq_eq_false_iff_ne, after, text_cons]
  intro hempty
  exact h (String.append_eq_empty_iff.1 hempty).1

theorem lines_split (before : List Fragment) {f : Fragment} (behind : List Fragment)
    (text : f.isBlank = false) :
    ∃ g h, lines (before ++ f :: behind) = g ++ f ++ h ∧ (h = [] ∨ h.head? = some .newline) := by
  rw [lines, List.filter_append, List.filter_cons, if_pos (by simp [text])]
  exact joined_newline_split _ f _

end Fragment

end Sql

namespace Plan

variable {Known : Entity → Prop} {p : Plan} {keys : List (String × Expr)} {s : Statement}

/-- The line of a grouped statement that joins the groups. -/
def groupJoin (p : Plan) : Fragment :=
  after "INNER JOIN" (parens p.groupingSql ++ .space :: .name p.naming.groupAlias :: .space ::
    after "ON" p.groupCondition)

theorem sql_of_grouped (grouped : p.grouped = true) (h : p.statement = .ok s) :
    s.sql = p.groupedSql := by
  obtain ⟨_, -, h⟩ := Outcome.bind_ok.1 h
  rw [if_neg (by simp [grouped])] at h
  split at h
  · cases h
  · obtain rfl := Except.ok.inj h
    rfl

/-- The groups are joined on the condition and on nothing else. -/
theorem groupedSql_split (p : Plan) : ∃ before behind,
    p.groupedSql = before ++ p.groupJoin ++ behind ∧
      (behind = [] ∨ behind.head? = some .newline) := by
  have text : p.groupJoin.isBlank = false := isBlank_after (by decide) _
  exact lines_split [_, _, _] [p.orderClause, p.limitClause] text

/-- The equation between a whole grouping key and its column in the grouping subquery. -/
def Equates (p : Plan) (key : String × Expr) (u : Sql.Tree String) : Prop :=
  ∃ t, Sql.Tree.Rel (p.binder.WritesFlat p.naming.cteAlias) key.2.outline t ∧
    u = .node (.binary .eq) t (.leaf (p.naming.groupAlias ++ "." ++ key.1))

/-- The condition on a row and a group is read as one equation for each whole key. -/
def JoinsOnWholeKeys (p : Plan) (keys : List (String × Expr)) : Prop :=
  ∃ us, List.Forall₂ p.Equates keys us ∧
    readCondition p.groupCondition.text = Sql.Tree.conjunction? us

theorem Equates.form_eq {key : String × Expr} {u : Sql.Tree String} (h : p.Equates key u) :
    u.form = .node (.binary .eq) key.2.outline.form (.leaf ()) := by
  obtain ⟨t, hrel, rfl⟩ := h
  rw [hrel.form_eq]
  rfl

theorem Equates.delimited_iff {key : String × Expr} {u : Sql.Tree String} (h : p.Equates key u) :
    u.Delimited ↔ key.2.outline.IsOperand := by
  obtain ⟨t, hrel, rfl⟩ := h
  rw [Sql.Tree.delimited_eq_leaf_iff, hrel.isOperand_iff]

theorem Equates.isConnected_eq {key : String × Expr} {u : Sql.Tree String} (h : p.Equates key u) :
    u.isConnected = false := by
  obtain ⟨t, -, rfl⟩ := h
  rfl

/-- The fragments of the grouping keys spell them. -/
theorem Built.spells_keys {root : Entity} {naming : Naming} {log : CallLog}
    (h : Built Known (.new root naming log) keys p) (check : naming.check = .ok ())
    (stem : isUnbroken naming.parameterStem = true)
    (fields : ∀ key ∈ keys, ∀ E ∈ key.2.entities, ∀ f ∈ E.fields, isUnbroken f.name = true) :
    List.Forall₂ (fun key => SpellsOutline (p.binder.WritesFlat naming.cteAlias) key.2) keys
      (p.fragmentsOf .groupBy) := by
  obtain ⟨haliases, -, hrows, -⟩ := Naming.plain_of_check check
  obtain ⟨-, translations⟩ := h.keys
  refine ((List.forall₂_and_left _ _).2 ⟨fields, translations⟩).imp ?_
  rintro key f ⟨hfields, b, b', before, rule, behind⟩
  have unbroken : Unbroken key.2 b :=
    ⟨before.stem ▸ stem, before.aliases.plain (.rooted haliases root), hfields⟩
  obtain ⟨t, hrel, hspells⟩ :=
    (writtenInWords_groupBy rfl (isUnbroken_of_isPlain hrows)).spells key.2 rule unbroken
  exact ⟨t, hrel.mono fun _ _ hwrites => hwrites.mono behind, hspells⟩

/-- When the fragments spell the keys, the equations of the condition spell those of the keys. -/
theorem exists_equates {fs : List Fragment}
    (group : isUnbroken p.naming.groupAlias = true) (names : ∀ key ∈ keys, isUnbroken key.1 = true)
    (h : List.Forall₂ (fun key => SpellsOutline (p.binder.WritesFlat p.naming.cteAlias) key.2)
      keys fs) :
    ∃ us, List.Forall₂ p.Equates keys us ∧
      List.Forall₂ (fun f u => Spells f u.layout)
        ((fs.zip (keys.map fun key => OutputKey.mk key.1 key.2.outputKind)).map fun (f, k) =>
          around f (.operator .eq) [.column p.naming.groupAlias k.name]) us := by
  induction h with
  | nil => exact ⟨[], .nil, .nil⟩
  | @cons key f keys fs first rest ih =>
      obtain ⟨hname, hnames⟩ := List.forall_mem_cons.1 names
      obtain ⟨us, hus, hspells⟩ := ih hnames
      obtain ⟨t, hrel, hf⟩ := first
      refine ⟨_, .cons ⟨t, hrel, rfl⟩ hus, .cons ?_ hspells⟩
      exact .around_operator .eq hf (Binder.spells_column group hname)

/-- A condition that is spelled by equations is read as equations of the whole keys exactly when
each key is an operand. -/
theorem joinsOnWholeKeys_iff {us : List (Sql.Tree String)} {fs : List Fragment} (keyed : keys ≠ [])
    (equations : List.Forall₂ p.Equates keys us)
    (condition : p.groupCondition = joined .and fs)
    (spells : List.Forall₂ (fun f u => Spells f u.layout) fs us) :
    p.JoinsOnWholeKeys keys ↔ ∀ key ∈ keys, key.2.outline.IsOperand := by
  -- the equations that are read need not be those that are spelled, but they have the same forms
  have forms {us' : List (Sql.Tree String)} (h : List.Forall₂ p.Equates keys us') :
      us'.map Sql.Tree.form =
        keys.map fun key => Sql.Tree.node (.binary .eq) key.2.outline.form (.leaf ()) := by
    rw [← List.forall₂_eq_eq_eq, List.forall₂_map_left_iff, List.forall₂_map_right_iff]
    exact (h.imp fun _ _ hu => hu.form_eq).flip
  have delimited : (∀ key ∈ keys, key.2.outline.IsOperand) ↔ ∀ u ∈ us, u.Delimited :=
    forall_mem_iff_of_forall₂ (equations.imp fun _ _ hu => hu.delimited_iff.symm)
  have nonempty : us ≠ [] := by
    rintro rfl
    exact keyed (List.forall₂_nil_right_iff.1 equations)
  have apart : ∀ u ∈ us, u.isConnected = false := by
    have all : (∀ key ∈ keys, True) ↔ ∀ u ∈ us, u.isConnected = false :=
      forall_mem_iff_of_forall₂ (equations.imp fun _ _ hu => by simp [hu.isConnected_eq])
    exact all.1 fun _ _ => trivial
  obtain ⟨read_iff, read_eq⟩ := readCondition_joined_iff nonempty spells apart
  rw [delimited, JoinsOnWholeKeys, condition]
  constructor
  · rintro ⟨us', hus', hread⟩
    exact read_iff.1 ⟨us', (forms hus').trans (forms equations).symm, hread⟩
  · exact fun h => ⟨us, equations, read_eq h⟩

end Plan

namespace Build

open Plan

variable {d : Build} {naming : Naming} {log : CallLog} {s : Statement}

/-- A grouped statement joins its groups on the condition of the plan. That condition is read as one
equation for each whole grouping key exactly when every key is an operand in front of a comparison:
it is delimited, and no comparison or connective. The keys have no comparison, test or connective
outside of parentheses exactly when none of them is one itself. -/
theorem joinsOnWholeKeys_of_compile (check : naming.check = .ok ())
    (stem : isUnbroken naming.parameterStem = true)
    (fields : ∀ key ∈ d.keys, ∀ E ∈ key.2.entities, ∀ f ∈ E.fields, isUnbroken f.name = true)
    (keyed : d.keys ≠ []) (h : d.compile naming log = .ok s) :
    ∃ p before behind, d.plan naming log = .ok p ∧
      s.sql = before ++ p.groupJoin ++ behind ∧ (behind = [] ∨ behind.head? = some .newline) ∧
      (p.JoinsOnWholeKeys d.keys ↔ ∀ key ∈ d.keys, key.2.outline.IsOperand) ∧
      ((∀ f ∈ p.fragmentsOf .groupBy, ∀ y ∈ outerSymbols f.text, y.isLoose = false) ↔
        ∀ key ∈ d.keys, key.2.outline.isLoose = false) := by
  rw [compile_eq] at h
  obtain ⟨p, hplan, hstatement⟩ := Outcome.bind_ok.1 h
  have built : Built (fun _ => True) (.new d.root naming log) d.keys p :=
    built_of_plan (fun _ _ => trivial) hplan
  have grouped : p.grouped = true := by
    rw [built.grouped rfl, List.isEmpty_eq_false_iff.2 keyed]
    rfl
  obtain ⟨before, behind, hsplit, hnext⟩ := p.groupedSql_split
  have hnaming : p.naming = naming := built.naming
  have spelled := built.spells_keys check stem fields
  refine ⟨p, before, behind, hplan, (sql_of_grouped grouped hstatement).trans hsplit, hnext, ?_, ?_⟩
  · obtain ⟨-, -, -, hgroup⟩ := Naming.plain_of_check check
    -- only the names of the keys are needed, which are checked whatever the entities are
    have sound : p.Sound False := sound_of_plan check False.elim hplan
    obtain ⟨hkeys, -⟩ := built.keys
    have names : ∀ key ∈ d.keys, isUnbroken key.1 = true := by
      intro key hkey
      refine isUnbroken_of_isPlain (sound.keys ⟨key.1, key.2.outputKind⟩ ?_)
      rw [hkeys]
      exact List.mem_map_of_mem hkey
    rw [← hnaming] at spelled hgroup
    obtain ⟨us, equations, spells⟩ := exists_equates (isUnbroken_of_isPlain hgroup) names spelled
    refine joinsOnWholeKeys_iff keyed equations ?_ spells
    rw [groupCondition, groupings, hkeys]
  · refine (forall_mem_iff_of_forall₂ (spelled.imp ?_)).symm
    rintro key f ⟨t, hrel, hspells⟩
    rw [hspells.outerSymbols, Sql.Tree.outer_layout_iff, hrel.isLoose_eq]

/-- Orders by their states and the last digits of their totals. -/
def ordersByDigit : Build :=
  ⟨Demo.order, [],
    some ⟨[("status", .field Demo.order "status"),
      ("digit", .comparison .rem Demo.total (.literal (.int 10)))], []⟩⟩

/-- Columns and arithmetic are operands. -/
theorem ordersByDigit_joined :
    ∃ p s, ordersByDigit.plan {} [] = .ok p ∧ ordersByDigit.compile {} [] = .ok s ∧
      ({} : Naming).check = .ok () ∧ isUnbroken ({} : Naming).parameterStem = true ∧
      (∀ key ∈ ordersByDigit.keys, ∀ E ∈ key.2.entities, ∀ f ∈ E.fields,
        isUnbroken f.name = true) ∧
      ordersByDigit.keys ≠ [] ∧ p.groupJoin <:+: s.sql ∧
      p.groupCondition.text =
        "CTE.Extend0_status = GP.status AND (CTE.Extend0_total % @p0) = GP.digit" ∧
      p.JoinsOnWholeKeys ordersByDigit.keys ∧
      ∀ f ∈ p.fragmentsOf .groupBy, ∀ y ∈ outerSymbols f.text, y.isLoose = false := by
  have found : (ordersByDigit.plan {} []).toOption.map (fun p => p.groupCondition.text) =
      some "CTE.Extend0_status = GP.status AND (CTE.Extend0_total % @p0) = GP.digit" := by
    decide +kernel
  have compiles : (ordersByDigit.compile {} []).toOption.isSome = true := by decide +kernel
  have fields : ∀ key ∈ ordersByDigit.keys, ∀ E ∈ key.2.entities, ∀ f ∈ E.fields,
      isUnbroken f.name = true := by
    intro key hkey E hE
    obtain rfl : E = Demo.order := by
      simp only [keys, ordersByDigit, List.mem_cons, List.not_mem_nil, or_false] at hkey
      rcases hkey with rfl | rfl <;> simpa [Demo.total] using hE
    decide
  have operands : ∀ key ∈ ordersByDigit.keys,
      key.2.outline.IsOperand ∧ key.2.outline.isLoose = false := by
    intro key hkey
    simp only [keys, ordersByDigit, List.mem_cons, List.not_mem_nil, or_false] at hkey
    rcases hkey with rfl | rfl <;> exact ⟨⟨by decide +kernel, rfl, rfl⟩, rfl⟩
  obtain ⟨p', hplan, htext⟩ := Option.map_eq_some_iff.1 found
  obtain ⟨s, compiled⟩ := Option.isSome_iff_exists.1 compiles
  have compiled := Outcome.eq_ok_of_toOption compiled
  obtain ⟨p, before, behind, accepted, hsql, -, joins_iff, outer_iff⟩ :=
    joinsOnWholeKeys_of_compile rfl (by decide) fields (by simp [keys, ordersByDigit]) compiled
  rw [accepted] at hplan
  obtain rfl := Option.some.inj hplan
  exact ⟨p, s, accepted, compiled, rfl, by decide, fields, by simp [keys, ordersByDigit],
    ⟨before, behind, hsql.symm⟩, htext, joins_iff.2 fun key hkey => (operands key hkey).1,
    outer_iff.2 fun key hkey => (operands key hkey).2⟩

/-- Orders by whether their totals are high. -/
def ordersByHigh : Build :=
  ⟨Demo.order, [],
    some ⟨[("high", .comparison .gt Demo.total (.literal (.int 100)))], []⟩⟩

def ordersByHighSql : String :=
  "WITH CommonTableExpression AS (\n" ++
    "SELECT Extend0.id AS Extend0_id, Extend0.customer_id AS Extend0_customer_id, " ++
    "Extend0.status AS Extend0_status, Extend0.placed_on AS Extend0_placed_on, " ++
    "Extend0.total AS Extend0_total\nFROM orders Extend0\n)\nSELECT GP.*, CTE.*\n" ++
    "FROM CommonTableExpression CTE\nINNER JOIN (SELECT CTE.Extend0_total > @p0 AS high " ++
    "FROM CommonTableExpression CTE GROUP BY CTE.Extend0_total > @p0) GP " ++
    "ON CTE.Extend0_total > @p0 = GP.high"

/-- Two comparisons stand in a row, which have no reading. -/
theorem ordersByHigh_not_joined :
    ∃ p s, ordersByHigh.plan {} [] = .ok p ∧ ordersByHigh.compile {} [] = .ok s ∧
      ({} : Naming).check = .ok () ∧ isUnbroken ({} : Naming).parameterStem = true ∧
      (∀ key ∈ ordersByHigh.keys, ∀ E ∈ key.2.entities, ∀ f ∈ E.fields,
        isUnbroken f.name = true) ∧
      ordersByHigh.keys ≠ [] ∧
      s.text = ordersByHighSql ∧
      p.groupCondition.text = "CTE.Extend0_total > @p0 = GP.high" ∧
      readCondition p.groupCondition.text = none ∧ ¬ p.JoinsOnWholeKeys ordersByHigh.keys ∧
      ∃ f ∈ p.fragmentsOf .groupBy, ∃ y ∈ outerSymbols f.text, y.isLoose = true := by
  have found : (ordersByHigh.plan {} []).toOption.map (fun p => (p.groupCondition.text,
      p.fragmentsOf .groupBy)) = some ("CTE.Extend0_total > @p0 = GP.high",
        [[.column "CTE" "Extend0_total", .space, .operator .gt, .space, .placeholder "@p" 0]]) := by
    decide +kernel
  have compiles : (ordersByHigh.compile {} []).toOption.map Statement.text =
      some ordersByHighSql := by
    decide +kernel
  have fields : ∀ key ∈ ordersByHigh.keys, ∀ E ∈ key.2.entities, ∀ f ∈ E.fields,
      isUnbroken f.name = true := by
    intro key hkey E hE
    obtain rfl : E = Demo.order := by
      obtain rfl := List.mem_singleton.1 hkey
      simpa [Demo.total] using hE
    decide
  obtain ⟨p, hplan, hfound⟩ := Option.map_eq_some_iff.1 found
  obtain ⟨htext, hfragments⟩ := Prod.mk.inj hfound
  have accepted := Outcome.eq_ok_of_toOption hplan
  obtain ⟨s, compiled, hs⟩ := Option.map_eq_some_iff.1 compiles
  have compiled := Outcome.eq_ok_of_toOption compiled
  have unread : readCondition p.groupCondition.text = none := by
    rw [htext]
    decide +kernel
  refine ⟨p, s, accepted, compiled, rfl, by decide, fields, by simp [keys, ordersByHigh], hs,
    htext, unread, ?_, ?_⟩
  · rintro ⟨us, equations, hread⟩
    rw [unread] at hread
    cases equations with
    | cons first rest => cases hread
  · rw [hfragments]
    exact ⟨_, List.mem_singleton_self _, .operator (.binary .gt), by decide +kernel, rfl⟩

end Build

end TypedQuery
