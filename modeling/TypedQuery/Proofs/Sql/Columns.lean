import Mathlib.Data.List.Forall2
import TypedQuery.Proofs.Sql.Growth

/-!
# The columns that fragments read and name

A fragment reads columns through aliases and may give columns names of its own behind `AS`. Only a
projection gives names. Any other translation reads exactly what the fields of its expression stand
for in the clause, and is otherwise made of placeholders, keywords and punctuation.
-/

namespace TypedQuery

open TypedQuery.Sql TypedQuery.Sql.Fragment

/-- The alias of an entity stands behind its own type name and table. -/
theorem Aliases.lookup?_of_aliasFor {a as : Aliases} {e : Entity} {label : String}
    (h : a.aliasFor e = .ok (label, as)) : as.lookup? e = some label := by
  obtain ⟨entry, hentry, htable, rfl⟩ := aliasFor_self_iff.1 (aliasFor_again h)
  obtain ⟨hname, before, behind, hentries, hbefore⟩ := List.find?_eq_some_iff_append.1 hentry
  have hsame : entry.entity.same e = true :=
    EntityName.same_iff.2 ⟨by simpa using hname, htable⟩
  have hfirst : as.entries.find? (·.entity.same e) = some entry := by
    refine List.find?_eq_some_iff_append.2 ⟨hsame, before, behind, hentries, ?_⟩
    intro other hother
    have hdiffers := hbefore other hother
    simp only [Entity.same, EntityName.same, Bool.not_eq_true', Bool.and_eq_false_iff] at hdiffers ⊢
    exact .inl hdiffers
  rw [Aliases.lookup?, hfirst, Option.map_some]

namespace Sql

/-- A token that reads no column, gives no name and is not text from outside. -/
def Token.isStock : Token → Bool
  | .column .. | .name _ | .raw _ => false
  | .keyword word => word != "AS"
  | _ => true

namespace Fragment

variable {P Q : Token → Prop} {R : String → String → Prop} {f g : Fragment} {fs : List Fragment}
  {t : Token} {word s : String} {ns ms : List String}

/-- Every token is stock or has the property. -/
def Within (P : Token → Prop) (f : Fragment) : Prop := ∀ t ∈ f, t.isStock = true ∨ P t

/-- No column is given a name. -/
def Bare (f : Fragment) : Prop := ∀ t ∈ f, t ≠ .keyword "AS"

/-- Every column that is read has the property, which is given its alias and its name. -/
def ReadsOnly (R : String → String → Prop) (f : Fragment) : Prop := ∀ q n, .column q n ∈ f → R q n

@[simp] theorem within_nil : Within P [] := by simp [Within]

@[simp] theorem within_cons : Within P (t :: f) ↔ (t.isStock = true ∨ P t) ∧ Within P f := by
  simp [Within]

@[simp] theorem within_append : Within P (f ++ g) ↔ Within P f ∧ Within P g := by
  simp [Within, or_imp, forall_and]

theorem Within.mono (h : Within P f) (hPQ : ∀ t, P t → Q t) : Within Q f :=
  fun t ht => (h t ht).imp_right (hPQ t)

theorem Within.bare (h : Within P f) (hP : ∀ t, P t → t ≠ .keyword "AS") : Bare f := by
  rintro t ht rfl
  rcases h _ ht with stock | special
  · simp [Token.isStock] at stock
  · exact hP _ special rfl

theorem Within.reads (h : Within P f) (hP : ∀ q n, P (.column q n) → R q n) : ReadsOnly R f := by
  intro q n ht
  rcases h _ ht with stock | special
  · simp [Token.isStock] at stock
  · exact hP q n special

theorem ReadsOnly.mono {S : String → String → Prop} (h : ReadsOnly R f)
    (hRS : ∀ q n, R q n → S q n) : ReadsOnly S f :=
  fun q n ht => hRS q n (h q n ht)

@[simp] theorem readsOnly_append : ReadsOnly R (f ++ g) ↔ ReadsOnly R f ∧ ReadsOnly R g := by
  simp [ReadsOnly, or_imp, forall_and]

theorem readsOnly_iff : ReadsOnly R f ↔ ∀ t ∈ f, ∀ q n, t = .column q n → R q n :=
  ⟨fun h _ ht q n heq => h q n (heq ▸ ht), fun h q n ht => h _ ht q n rfl⟩

@[simp] theorem readsOnly_nil : ReadsOnly R [] := by simp [ReadsOnly]

@[simp] theorem readsOnly_cons :
    ReadsOnly R (t :: f) ↔ (∀ q n, t = .column q n → R q n) ∧ ReadsOnly R f := by
  simp [readsOnly_iff]

theorem ReadsOnly.named (h : ReadsOnly R f) (s : String) : ReadsOnly R (f.named s) :=
  readsOnly_append.2 ⟨h, by simp [ReadsOnly]⟩

theorem ReadsOnly.joined {c : Clause.Separator} (h : ∀ f ∈ fs, ReadsOnly R f) :
    ReadsOnly R (joined c fs) := by
  refine readsOnly_iff.2 (forall_mem_joined ?_ fun f hf => readsOnly_iff.1 (h f hf))
  cases c <;> simp [separation]

@[simp] theorem bare_nil : Bare [] := by simp [Bare]

@[simp] theorem bare_cons : Bare (t :: f) ↔ t ≠ .keyword "AS" ∧ Bare f := by
  simp [Bare]

@[simp] theorem bare_append : Bare (f ++ g) ↔ Bare f ∧ Bare g := by
  simp [Bare, or_imp, forall_and]

theorem Bare.after (h : Bare f) (other : word ≠ "AS") : Bare (after word f) := by
  simpa [Fragment.after, other] using h

theorem Bare.joined {c : Clause.Separator} (h : ∀ f ∈ fs, Bare f) : Bare (joined c fs) :=
  forall_mem_joined (by cases c <;> simp [separation]) h

theorem Within.token (ht : t.isStock = true) (h : Within P f) : Within P (t :: f) :=
  within_cons.2 ⟨.inl ht, h⟩

theorem Within.parens (h : Within P f) : Within P (parens f) :=
  .token rfl (within_append.2 ⟨h, .token rfl within_nil⟩)

theorem Within.around (hf : Within P f) (ht : t.isStock = true) (hg : Within P g) :
    Within P (around f t g) :=
  within_append.2 ⟨hf, .token rfl (.token ht (.token rfl hg))⟩

theorem Within.joined {c : Clause.Separator} (h : ∀ f ∈ fs, Within P f) : Within P (joined c fs) :=
  forall_mem_joined (by cases c <;> simp [separation, Token.isStock]) h

theorem Within.aggregateOf (a : Aggregate) (h : Within P f) : Within P (aggregateOf a f) := by
  refine .token (by cases a <;> decide) (.parens ?_)
  split
  · exact .token (by decide) (.token rfl h)
  · exact h

theorem within_written (b : Binder) (v : Value) : Within P (b.written v) := by
  unfold Binder.written
  split
  · exact .token (by decide) within_nil
  · exact .token rfl within_nil

end Fragment

namespace Token

theorem isStock_helper (h : PredicateHelper) : (keyword h.symbol).isStock = true := by
  cases h <;> rfl

theorem isStock_nullTest {op : BinaryOp} {word : String} (h : nullTest? op = some word) :
    (keyword word).isStock = true := by
  cases op <;> cases h <;> rfl

end Token

/-- What a field of the entity with the alias is written as. -/
def Context.written (c : Context) (label : String) (g : Field) : Token :=
  if c.readsGroupedColumns then .column c.naming.cteAlias (label ++ "_" ++ g.name)
  else .column label g.column

theorem Context.written_of_rows {c : Context} {label : String} {g : Field}
    (rows : c.readsGroupedColumns = false) : c.written label g = .column label g.column :=
  if_neg (by simp [rows])

theorem Context.written_of_groups {c : Context} {label : String} {g : Field}
    (groups : c.readsGroupedColumns = true) :
    c.written label g = .column c.naming.cteAlias (label ++ "_" ++ g.name) :=
  if_pos groups

/-- The token stands for a field that the expression reads, under the alias of its entity. -/
def Context.Shows (c : Context) (x : Expr) (as : Aliases) (t : Token) : Prop :=
  ∃ E name g label, .field E name ∈ x.nodes ∧ E.field? name = some g ∧
    as.lookup? E = some label ∧ t = c.written label g

section

variable {c : Context} {x y : Expr} {b b' : Binder} {f : Fragment} {as as' : Aliases} {t : Token}

theorem Context.Shows.mono (h : c.Shows x as t) (nodes : x.nodes ⊆ y.nodes) (grows : as.Grows as') :
    c.Shows y as' t := by
  obtain ⟨E, name, g, label, hnode, hfield, hlabel, rfl⟩ := h
  exact ⟨E, name, g, label, nodes hnode, hfield, grows.lookup? hlabel, rfl⟩

theorem Context.Shows.isColumn (h : c.Shows x as t) : ∃ q n, t = .column q n := by
  obtain ⟨E, name, g, label, -, -, -, rfl⟩ := h
  unfold Context.written
  split
  · exact ⟨_, _, rfl⟩
  · exact ⟨_, _, rfl⟩

/-- The fragment of a part stays within what the whole shows. -/
theorem Fragment.Within.lift (h : Within (c.Shows y as) f) (part : y ∈ x.children)
    (grows : as.Grows as') : Within (c.Shows x as') f :=
  h.mono fun _ ht => ht.mono (Expr.nodes_subset_of_mem_children part) grows

/-- Outside a projection only the fields that are read have tokens of their own. -/
theorem Translates.within (h : Translates c x b f b') (other : c.clause ≠ .select) :
    Within (c.Shows x b'.aliases) f := by
  have none {as : Aliases} : as.Grows as := .refl
  induction h with
  | literal | constant => exact within_written _ _
  | column field rows registered =>
      refine within_cons.2 ⟨.inr ⟨_, _, _, _, Expr.self_mem_nodes _, field,
        Aliases.lookup?_of_aliasFor registered, ?_⟩, within_nil⟩
      exact (Context.written_of_rows rows).symm
  | groupedColumn field groups registered =>
      refine within_cons.2 ⟨.inr ⟨_, _, _, _, Expr.self_mem_nodes _, field, registered, ?_⟩,
        within_nil⟩
      exact (Context.written_of_groups groups).symm
  | testLeft null word operand ih =>
      exact within_append.2 ⟨ih.lift (by simp [Expr.children]) none,
        .token rfl (.token (Token.isStock_nullTest word) within_nil)⟩
  | testRight left null word operand ih =>
      exact within_append.2 ⟨ih.lift (by simp [Expr.children]) none,
        .token rfl (.token (Token.isStock_nullTest word) within_nil)⟩
  | comparison order noTest left right ihl ihr =>
      exact (ihl.lift (by simp [Expr.children]) right.grows).around rfl
        (ihr.lift (by simp [Expr.children]) none)
  | arithmetic noOrder reads left right ihl ihr =>
      exact ((ihl.lift (by simp [Expr.children]) right.grows).around rfl
        (ihr.lift (by simp [Expr.children]) none)).parens
  | logical left right ihl ihr =>
      exact (ihl.lift (by simp [Expr.children]) right.grows).parens.around rfl
        (ihr.lift (by simp [Expr.children]) none).parens
  | @between x y z _ f b₁ g b₂ k b' predicates target low high iht ihl ihh =>
      let whole : Expr := .call (.helper .between) [x, y, z]
      have htarget : Within (c.Shows whole b'.aliases) f :=
        iht.lift (by simp [whole, Expr.children]) (low.grows.trans high.grows)
      have hlow : Within (c.Shows whole b'.aliases) g :=
        ihl.lift (by simp [whole, Expr.children]) high.grows
      have hhigh : Within (c.Shows whole b'.aliases) k :=
        ihh.lift (by simp [whole, Expr.children]) none
      exact ((htarget.around (by decide) hlow).around rfl hhigh).parens
  | like predicates target pattern iht ihp =>
      exact ((iht.lift (by simp [Expr.children]) pattern.grows).around (by decide)
        (ihp.lift (by simp [Expr.children]) none)).parens
  | emptySet => exact .token rfl within_nil
  | @memberOf h x set v log b f b' predicates membership value nonempty target ih =>
      have hitems : ∀ g ∈ b'.writtenAll (membersOf v),
          Within (c.Shows (.call (.helper h) [x, set]) b'.aliases) g :=
        Binder.forall_mem_writtenAll (fun _ _ => within_written _ _) _ _
      rw [around_nil_append, Binder.aliases_boundAll]
      exact ((ih.lift (by simp [Expr.children]) none).around (Token.isStock_helper h)
        (Within.joined hitems).parens).parens
  | countRows => exact .token (by decide) (.parens (.token rfl within_nil))
  | aggregate aggregates argument ih =>
      exact (ih.lift (by simp [Expr.children]) none).aggregateOf _
  | projection select => exact absurd select other

theorem Translates.bare (h : Translates c x b f b') (other : c.clause ≠ .select) : Bare f := by
  refine (h.within other).bare fun t shows => ?_
  obtain ⟨q, n, rfl⟩ := shows.isColumn
  nofun

theorem exists_of_forall₂ {α β : Type} {R : α → β → Prop} {as : List α} {bs : List β}
    (h : List.Forall₂ R as bs) : ∀ b ∈ bs, ∃ a ∈ as, R a b := by
  intro b hb
  obtain ⟨i, hi, rfl⟩ := List.getElem_of_mem hb
  have hi' : i < as.length := h.length_eq ▸ hi
  exact ⟨as[i], List.getElem_mem hi', h.get hi' hi⟩

/-- A column of a projection: a field that is read, under the name of the field that is set. -/
def Selects (as : Aliases) (label : String) (binding : String × Expr) (f : Fragment) : Prop :=
  ∃ E name g source, binding.2 = .field E name ∧ E.field? name = some g ∧
    as.lookup? E = some source ∧ f = named [.column source g.column] (label ++ "_" ++ binding.1)

/-- Every binding becomes one column and sets a field that no other one sets. -/
theorem Projects.selects {target : Entity} {label : String} {seen : List String}
    {bs : List (String × Expr)} {columns : List Fragment}
    (h : Projects target label seen bs b columns b') :
    List.Forall₂ (Selects b'.aliases label) bs columns ∧
      (∀ binding ∈ bs, binding.1 ∉ seen ∧ ∃ g, target.field? binding.1 = some g) ∧
      (bs.map Prod.fst).Nodup := by
  induction h with
  | nil => exact ⟨.nil, by simp, by simp⟩
  | @cons seen name source sourceName rest b as columns b' f g sourceLabel field fresh sourceField
      registered others ih =>
      obtain ⟨hcolumns, hfields, hnodup⟩ := ih
      obtain rfl : f.name = name := Entity.name_of_field? field
      have hnew : f.name ∉ seen := by simpa using fresh
      refine ⟨.cons ⟨source, sourceName, g, sourceLabel, rfl, sourceField,
        others.grows.lookup? (Aliases.lookup?_of_aliasFor registered), rfl⟩ hcolumns, ?_, ?_⟩
      · refine List.forall_mem_cons.2 ⟨⟨hnew, f, field⟩, fun binding hbinding => ?_⟩
        obtain ⟨hunseen, hfield⟩ := hfields binding hbinding
        exact ⟨fun hseen => hunseen (List.mem_cons_of_mem _ hseen), hfield⟩
      · refine List.nodup_cons.2 ⟨fun hmem => ?_, hnodup⟩
        obtain ⟨binding, hbinding, hname⟩ := List.mem_map.1 hmem
        exact (hfields binding hbinding).1 (by simp [hname])

/-- A projection is the list of its columns. -/
theorem Translates.selects {target : Entity} {bs : List (String × Expr)}
    (h : Translates c (.construct target bs) b f b') :
    ∃ label columns, b'.aliases.lookup? target = some label ∧ f = joined .comma columns ∧
      List.Forall₂ (Selects b'.aliases label) bs columns ∧
      (∀ binding ∈ bs, ∃ g, target.field? binding.1 = some g) ∧ (bs.map Prod.fst).Nodup := by
  cases h with
  | constant form => exact form.elim
  | projection select nonempty registered bindings =>
      obtain ⟨hcolumns, hfields, hnodup⟩ := bindings.selects
      refine ⟨_, _, bindings.grows.lookup? (Aliases.lookup?_of_aliasFor registered), rfl, hcolumns,
        fun binding hbinding => (hfields binding hbinding).2, hnodup⟩

/-- A projection reads the fields that it binds. -/
theorem Translates.reads_projection {target : Entity} {bs : List (String × Expr)}
    (h : Translates c (.construct target bs) b f b') (rows : c.readsGroupedColumns = false) :
    ReadsOnly (fun q n => c.Shows (.construct target bs) b'.aliases (.column q n)) f := by
  obtain ⟨label, columns, -, rfl, hcolumns, -, -⟩ := h.selects
  refine ReadsOnly.joined fun column hcolumn => ?_
  obtain ⟨binding, hbinding, E, name, g, source, hsource, hfield, hlabel, rfl⟩ :=
    exists_of_forall₂ hcolumns column hcolumn
  refine ReadsOnly.named ?_ _
  intro q n ht
  have part : binding.2 ∈ (Expr.construct target bs).children := List.mem_map_of_mem hbinding
  refine ⟨E, name, g, source, ?_, hfield, hlabel, ?_⟩
  · apply Expr.nodes_subset_of_mem_children part
    rw [hsource]
    exact Expr.self_mem_nodes _
  · rw [List.mem_singleton.1 ht, Context.written_of_rows rows]

end

namespace Fragment

variable {f g : Fragment} {fs : List Fragment} {nss : List (List String)} {t : Token} {s : String}
  {ns ms : List String}

/-- The name that the first token gives to the column in front of it. -/
def outputName? : Fragment → Option String
  | .keyword "AS" :: .space :: .name s :: _ => some s
  | _ => none

/-- The columns that the select lists of a statement give, by their names. -/
def outputs : Fragment → List String
  | [] => []
  | t :: f => (outputName? (t :: f)).toList ++ outputs f

/-- The fragment gives columns with these names, whatever follows it. -/
def Names (ns : List String) (f : Fragment) : Prop := ∀ g, outputs (f ++ g) = ns ++ outputs g

theorem outputName?_of_ne (h : t ≠ .keyword "AS") : outputName? (t :: f) = none := by
  unfold outputName?
  split
  · rename_i hcons
    exact absurd (List.cons.inj hcons).1 h
  · rfl

theorem Names.outputs_eq (h : Names ns f) : f.outputs = ns := by
  simpa [outputs] using h []

theorem Bare.names (h : Bare f) : Names [] f := by
  intro g
  induction f with
  | nil => rfl
  | cons t f ih =>
      obtain ⟨ht, hf⟩ := List.forall_mem_cons.1 h
      rw [List.cons_append, outputs, outputName?_of_ne ht, ih hf]
      rfl

theorem Names.append (hf : Names ns f) (hg : Names ms g) : Names (ns ++ ms) (f ++ g) := by
  intro k
  rw [List.append_assoc, hf, hg, List.append_assoc]

theorem Names.bare_append (hf : Bare f) (hg : Names ms g) : Names ms (f ++ g) :=
  hf.names.append hg

theorem Names.append_bare (hf : Names ns f) (hg : Bare g) : Names ns (f ++ g) := by
  simpa using hf.append hg.names

theorem Bare.named (hf : Bare f) (s : String) : Names [s] (f.named s) :=
  .bare_append hf fun _ => rfl

theorem Names.joined {c : Clause.Separator} (h : List.Forall₂ Names nss fs) :
    Names nss.flatten (joined c fs) := by
  have separation : Bare (separation c) := by cases c <;> simp [Bare, Fragment.separation]
  induction h with
  | nil => exact Bare.names (by simp [Bare, Fragment.joined, List.intercalate])
  | @cons ns f nss fs first rest ih =>
      cases rest with
      | nil => simpa [joined_singleton] using first
      | cons second rest =>
          rw [joined_cons_cons]
          exact first.append (.bare_append separation ih)

/-- Columns with one name each, with a separator between them. -/
theorem Names.joined_each {c : Clause.Separator} (h : List.Forall₂ (fun s => Names [s]) ns fs) :
    Names ns (Fragment.joined c fs) := by
  have hflatten : (ns.map fun s => [s]).flatten = ns := by
    rw [← List.flatMap_def, List.flatMap_singleton']
  exact hflatten ▸ Names.joined (List.forall₂_map_left_iff.2 h)

/-- A fragment without text gives no name. -/
theorem bare_of_isBlank (h : f.isBlank = true) : Bare f := by
  have hblank : f.flatMap (fun t => t.text.toList) = [] := by
    rw [← toList_join_map, ← text, eq_of_beq h]
    rfl
  rintro t ht rfl
  have hempty := List.flatMap_eq_nil_iff.1 hblank _ ht
  exact absurd hempty (by decide)

theorem Names.lines (h : List.Forall₂ Names nss fs) : Names nss.flatten (lines fs) := by
  have kept : ∃ kept, List.Forall₂ Names kept (fs.filter (!·.isBlank)) ∧
      kept.flatten = nss.flatten := by
    induction h with
    | nil => exact ⟨[], .nil, rfl⟩
    | @cons ns f nss fs first rest ih =>
        obtain ⟨kept, hkept, hflatten⟩ := ih
        by_cases hblank : f.isBlank = true
        · obtain rfl : [] = ns :=
            (bare_of_isBlank hblank).names.outputs_eq.symm.trans first.outputs_eq
          exact ⟨kept, by simpa [hblank] using hkept, by simpa using hflatten⟩
        · refine ⟨ns :: kept, ?_, by simp [hflatten]⟩
          rw [List.filter_cons, if_pos (by simpa using hblank)]
          exact .cons first hkept
  obtain ⟨kept, hkept, hflatten⟩ := kept
  rw [← hflatten]
  exact .joined hkept

end Fragment

/-- A projection names its columns after the fields that are set. -/
theorem Selects.names {as : Aliases} {label : String} {bs : List (String × Expr)}
    {columns : List Fragment} (h : List.Forall₂ (Selects as label) bs columns) :
    Names (bs.map fun binding => label ++ "_" ++ binding.1) (joined .comma columns) := by
  refine Names.joined_each (List.forall₂_map_left_iff.2 (h.imp fun binding column hselects => ?_))
  obtain ⟨E, name, g, source, -, -, -, rfl⟩ := hselects
  exact Bare.named (by simp [Bare]) _

end Sql

end TypedQuery
