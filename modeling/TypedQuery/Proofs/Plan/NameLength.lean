import TypedQuery.Proofs.Declaration.Accepted
import TypedQuery.Proofs.Plan.Registration
import TypedQuery.Run

/-!
# The length of column names

A database keeps a limited part of a name, and names are checked against that limit: tables,
fields, grouping keys and aggregates. A flattened column is none of these. It is the alias of an
entity, an underscore and the name of a field, so it is longer than the name that was checked.
-/

namespace TypedQuery

open TypedQuery.Sql TypedQuery.Sql.Fragment

namespace Identifier

theorem length_of_check {name : String} (h : check name = .ok ()) :
    name.utf8ByteSize ≤ maxLength := by
  unfold check at h
  split at h
  · cases h
  · split_ifs at h with hlong
    omega

/-- The characters at the start of a text that there is room for. -/
def fitting : Nat → List Char → List Char
  | _, [] => []
  | room, c :: cs => if c.utf8Size ≤ room then c :: fitting (room - c.utf8Size) cs else []

/-- What the database keeps of a name. -/
def kept (name : String) : String := String.ofList (fitting maxLength name.toList)

theorem fitting_eq_self_iff {room : Nat} {cs : List Char} :
    fitting room cs = cs ↔ String.utf8Len cs ≤ room := by
  induction cs generalizing room with
  | nil => simp [fitting]
  | cons c cs ih =>
      rw [fitting, String.utf8Len_cons]
      split
      · simp only [List.cons.injEq, true_and, ih]
        omega
      · refine iff_of_false (by simp) ?_
        omega

theorem kept_eq_self_iff {name : String} : kept name = name ↔ name.utf8ByteSize ≤ maxLength := by
  have hname : name = String.ofList name.toList := String.ofList_toList.symm
  rw [kept, ← String.toList_inj, String.toList_ofList, fitting_eq_self_iff]
  conv_rhs => rw [hname, String.utf8ByteSize_ofList]

end Identifier

namespace Number

theorem utf8Len_digits (n : Nat) : String.utf8Len (digits n) = (digits n).length := by
  have ascii : ∀ c ∈ digits n, c.utf8Size = 1 := by
    intro c hc
    have hdigit := isDigit_of_mem_digits hc
    rw [Char.utf8Size_eq_one_iff]
    simp only [Char.isDigit, Bool.and_eq_true, decide_eq_true_eq] at hdigit
    exact UInt32.le_trans hdigit.2 (by decide)
  generalize digits n = cs at ascii
  induction cs with
  | nil => rfl
  | cons c cs ih =>
      obtain ⟨hc, hcs⟩ := List.forall_mem_cons.1 ascii
      rw [String.utf8Len_cons, ih hcs, hc, List.length_cons]

theorem utf8ByteSize_numbered (stem : String) (n : Nat) :
    (numbered stem n).utf8ByteSize = stem.utf8ByteSize + (digits n).length := by
  rw [numbered, String.utf8ByteSize_append, textOfNat, String.utf8ByteSize_ofList, utf8Len_digits]

end Number

namespace Aliases

variable {a as : Aliases}

theorem Grows.size_le (h : a.Grows as) : a.size ≤ as.size := by
  induction h with
  | refl => exact Nat.le_refl _
  | tail _ step ih =>
      obtain ⟨e, label, h⟩ := step
      rcases of_aliasFor_ok h with ⟨-, -, -, -, rfl⟩ | ⟨-, -, rfl⟩
      · exact ih
      · refine Nat.le_trans ih ?_
        simp [size]

/-- An alias has a number below that of the next one. -/
theorem Numbered.exists_lt_of_lookup? {e : Entity} {label : String} (numbered : a.Numbered)
    (h : a.lookup? e = some label) : ∃ n < a.size, label = Number.numbered a.stem n := by
  obtain ⟨entry, hentry, rfl⟩ := Option.map_eq_some_iff.1 h
  have hlabel : entry.label ∈ a.entries.map AliasEntry.label :=
    List.mem_map_of_mem (List.mem_of_find?_eq_some hentry)
  rw [numbered] at hlabel
  obtain ⟨n, hn, hlabel⟩ := List.mem_map.1 hlabel
  exact ⟨n, List.mem_range.1 hn, hlabel.symm⟩

end Aliases

/-- The flattened column of a field behind the alias with a number. -/
def flattened (stem : String) (c : Nat × Field) : String :=
  Number.numbered stem c.1 ++ "_" ++ c.2.name

/-- The parts of a flattened column in bytes. -/
theorem utf8ByteSize_flattened (stem : String) (c : Nat × Field) :
    (flattened stem c).utf8ByteSize =
      stem.utf8ByteSize + (Number.digits c.1).length + 1 + c.2.name.utf8ByteSize := by
  rw [flattened, String.utf8ByteSize_append, String.utf8ByteSize_append,
    Number.utf8ByteSize_numbered]
  rfl

namespace Plan

variable {Known : Entity → Prop} {p q : Plan} {f : Fragment} {a as : Aliases} {a' : Action}
  {columns : List (Nat × Field)}

/-- The fragment has flattened columns of known entities behind given aliases. -/
structure Flattens (Known : Entity → Prop) (a : Aliases) (columns : List (Nat × Field))
    (f : Fragment) : Prop where
  names : Names (columns.map (flattened a.stem)) f
  known : ∀ c ∈ columns, c.1 < a.size ∧ ∃ E, Known E ∧ c.2 ∈ E.fields

theorem Flattens.grow (h : Flattens Known a columns f) (grows : a.Grows as) :
    Flattens Known as columns f := by
  refine ⟨grows.stem ▸ h.names, fun c hc => ?_⟩
  obtain ⟨hlt, hknown⟩ := h.known c hc
  exact ⟨Nat.lt_of_lt_of_le hlt grows.size_le, hknown⟩

/-- Every projection has flattened columns. -/
def SelectsFlattened (Known : Entity → Prop) (p : Plan) : Prop :=
  ∀ f ∈ p.fragmentsOf .select, ∃ columns, Flattens Known p.aliases columns f

theorem SelectsFlattened.keep (h : p.SelectsFlattened Known) (grows : p.aliases.Grows q.aliases)
    (fragments : q.fragmentsOf .select = p.fragmentsOf .select) : q.SelectsFlattened Known := by
  intro f hf
  rw [fragments] at hf
  obtain ⟨columns, hcolumns⟩ := h f hf
  exact ⟨columns, hcolumns.grow grows⟩

/-- Fields that are set by name can be told. -/
theorem exists_fields {E : Entity} {bs : List (String × Expr)}
    (h : ∀ binding ∈ bs, ∃ g, E.field? binding.1 = some g) :
    ∃ gs : List Field, gs.map Field.name = bs.map Prod.fst ∧ ∀ g ∈ gs, g ∈ E.fields := by
  induction bs with
  | nil => exact ⟨[], rfl, by simp⟩
  | cons binding bs ih =>
      obtain ⟨⟨g, hg⟩, hrest⟩ := List.forall_mem_cons.1 h
      obtain ⟨gs, hnames, hfields⟩ := ih hrest
      refine ⟨g :: gs, ?_, List.forall_mem_cons.2 ⟨Entity.mem_of_field? hg, hfields⟩⟩
      rw [List.map_cons, List.map_cons, hnames, Entity.name_of_field? hg]

theorem Takes.grows (h : Takes p a' q) : p.aliases.Grows q.aliases :=
  Step.before (h.step fun _ _ => trivial : Step (fun _ => True) p q) |>.aliases

/-- A projection is flattened behind the alias of its target. -/
theorem Translates.exists_flattens {c : Sql.Context} {target : Entity}
    {bindings : List (String × Expr)} {b b' : Binder}
    (h : Sql.Translates c (.construct target bindings) b f b') (numbered : b'.aliases.Numbered)
    (known : Known target) : ∃ columns, Flattens Known b'.aliases columns f := by
  obtain ⟨own, written, hown, rfl, hwritten, hfields, -⟩ := h.selects
  obtain ⟨n, hn, rfl⟩ := numbered.exists_lt_of_lookup? hown
  obtain ⟨gs, hgs, hmem⟩ := exists_fields hfields
  have columns : (gs.map (n, ·)).map (flattened b'.aliases.stem) =
      bindings.map fun binding => Number.numbered b'.aliases.stem n ++ "_" ++ binding.1 := by
    calc (gs.map (n, ·)).map (flattened b'.aliases.stem)
        = (gs.map Field.name).map fun name => Number.numbered b'.aliases.stem n ++ "_" ++ name := by
          simp only [List.map_map, Function.comp_def, flattened]
      _ = _ := by rw [hgs, List.map_map]; rfl
  refine ⟨gs.map (n, ·), columns ▸ Selects.names hwritten, fun c hc => ?_⟩
  obtain ⟨g, hg, rfl⟩ := List.mem_map.1 hc
  exact ⟨hn, target, known, hmem g hg⟩

theorem Takes.selectsFlattened (h : Takes p a' q) (known : ∀ E ∈ a'.entities, Known E)
    (scope : q.aliases.Numbered) (hp : p.SelectsFlattened Known) : q.SelectsFlattened Known := by
  by_cases hc : a'.clause = .select
  · have grows := h.grows
    cases h with
    | @projection target constructed bindings label fields f _ constructs projected reads translated
        registered =>
        obtain ⟨b, rule, rfl⟩ := translated
        have select : (setProjection { p with binder := b } ⟨target, label, fields⟩ f).fragmentsOf
            .select = p.fragmentsOf .select ++ [f] := fragmentsOf_push_self _ _ _
        intro g hg
        rw [select] at hg
        rcases List.mem_append.1 hg with hold | hnew
        · obtain ⟨columns, hcolumns⟩ := hp g hold
          exact ⟨columns, hcolumns.grow grows⟩
        · obtain rfl := List.mem_singleton.1 hnew
          exact Translates.exists_flattens rule scope (known _ (by simp [Action.entities]))
    | condition clause => rcases clause with rfl | ⟨rfl, -⟩ <;> cases hc
    | order | join | aggregate | limit | offset => cases hc
  · exact hp.keep h.grows (h.fragmentsOf_of_ne hc)

theorem KeyStep.selectsFlattened {key : String × Expr} {Known' : Entity → Prop}
    (h : KeyStep Known' p key q) (hp : p.SelectsFlattened Known) : q.SelectsFlattened Known :=
  hp.keep h.before.aliases h.select.2

theorem checked_of_checkOutputName {name : String} (h : p.checkOutputName name = .ok ()) :
    Identifier.check name = .ok () := by
  unfold checkOutputName at h
  dsimp only at h
  split at h
  · cases h
  · assumption

/-- Keys and aggregates are named by identifiers. -/
def NamesChecked (p : Plan) : Prop := ∀ k ∈ p.outputKeys, Identifier.check k.name = .ok ()

theorem NamesChecked.add (h : p.NamesChecked) {k : OutputKey}
    (named : p.checkOutputName k.name = .ok ()) (keys : q.outputKeys ⊆ p.outputKeys ++ [k]) :
    q.NamesChecked := by
  intro k' hk'
  rcases List.mem_append.1 (keys hk') with hold | hnew
  · exact h k' hold
  · obtain rfl := List.mem_singleton.1 hnew
    exact checked_of_checkOutputName named

theorem Step.namesChecked (h : Step Known p q) (hp : p.NamesChecked) : q.NamesChecked := by
  cases h with
  | condition clause known reads translated | order known reads translated
  | projection known reads translated registered
  | join known fresh leftKey old rightKey new translated registered apart =>
      obtain ⟨b, rule, rfl⟩ := translated
      exact hp
  | limit n | offset n => exact hp
  | @aggregationKey name x _ _ grouped known named reads translated =>
      obtain ⟨b, rule, rfl⟩ := translated
      refine hp.add (k := ⟨name, x.outputKind⟩) named ?_
      simp [outputKeys, addAggregationKey, push]

theorem KeyStep.namesChecked {key : String × Expr} (h : KeyStep Known p key q)
    (hp : p.NamesChecked) : q.NamesChecked := by
  obtain @⟨name, x, _, _, grouped, known, named, reads, b, rule, rfl⟩ := h
  refine hp.add (k := ⟨name, x.outputKind⟩) named ?_
  simp only [outputKeys, addGroupingKey, push, List.append_assoc]
  exact (List.perm_append_comm.append_left _).subset

theorem Built.namesChecked {start : Plan} {keys : List (String × Expr)}
    (h : Built Known start keys p) (hstart : start.NamesChecked) : p.NamesChecked :=
  h.induction hstart (fun _ _ old step => step.namesChecked old) (fun _ old => old)
    (fun _ _ _ old step => step.namesChecked old)

/-- The fragments of a list have the flattened columns of each. -/
theorem Flattens.joined {fs : List Fragment} (separator : Clause.Separator)
    (h : ∀ f ∈ fs, ∃ columns, Flattens Known a columns f) :
    ∃ columns, Flattens Known a columns (Fragment.joined separator fs) := by
  obtain ⟨css, hcss⟩ : ∃ css, List.Forall₂ (Flattens Known a) css fs := by
    induction fs with
    | nil => exact ⟨[], .nil⟩
    | cons f fs ih =>
        obtain ⟨⟨columns, first⟩, rest⟩ := List.forall_mem_cons.1 h
        obtain ⟨css, hrest⟩ := ih rest
        exact ⟨columns :: css, .cons first hrest⟩
  refine ⟨css.flatten, ?_, fun c hc => ?_⟩
  · rw [List.map_flatten]
    exact .joined (List.forall₂_map_left_iff.2 (hcss.imp fun _ _ flattens => flattens.names))
  · obtain ⟨columns, hcolumns, hc⟩ := List.mem_flatten.1 hc
    obtain ⟨f, -, flattens⟩ := exists_of_forall₂ hcss.flip columns hcolumns
    exact flattens.known c hc

/-- All fields of the entities, each behind the alias with the number of its entity. -/
def columnsFrom (k : Nat) (es : List Entity) : List (Nat × Field) :=
  (es.zipIdx k).flatMap fun (e, n) => e.fields.map (n, ·)

theorem of_mem_columnsFrom {k : Nat} {es : List Entity} {c : Nat × Field}
    (hc : c ∈ columnsFrom k es) : c.1 < k + es.length ∧ ∃ E ∈ es, c.2 ∈ E.fields := by
  obtain ⟨⟨E, n⟩, hE, hc⟩ := List.mem_flatMap.1 hc
  obtain ⟨g, hg, rfl⟩ := List.mem_map.1 hc
  exact ⟨List.snd_lt_add_of_mem_zipIdx hE, E, List.fst_mem_of_mem_zipIdx hE, hg⟩

/-- Bindings that are numbered and whole have all fields as their columns. -/
theorem columns_eq_columnsFrom {stem : String} {k : Nat} {bs : List Binding}
    (labels : bs.map Binding.label =
      (List.range' k bs.length).map (Number.numbered stem))
    (whole : ∀ b ∈ bs, b.fields = b.entity.fields) :
    bs.flatMap Binding.columns =
      (columnsFrom k (bs.map Binding.entity)).map (flattened stem) := by
  induction bs generalizing k with
  | nil => rfl
  | cons b bs ih =>
      rw [List.length_cons, List.range'_succ, List.map_cons, List.map_cons, List.cons.injEq] at labels
      obtain ⟨hfields, hrest⟩ := List.forall_mem_cons.1 whole
      have first : b.columns = (b.entity.fields.map (k, ·)).map (flattened stem) := by
        rw [Binding.columns, hfields, List.map_map]
        exact List.map_congr_left fun g _ => by rw [Binding.column, labels.1]; rfl
      rw [List.flatMap_cons, first, ih labels.2 hrest, ← List.map_append]
      rfl

end Plan

namespace Build

open Plan

variable {d : Build} {naming : Naming} {log : CallLog} {p : Plan} {s : Statement}

theorem selectsFlattened_of_plan (h : d.plan naming log = .ok p) :
    p.SelectsFlattened (· ∈ d.entities) := by
  have first : (Plan.new d.root naming log).aliases.Numbered ∧
      (Plan.new d.root naming log).SelectsFlattened (· ∈ d.entities) :=
    ⟨.rooted _ _, fun _ hf => absurd hf List.not_mem_nil⟩
  refine ((makes_of_plan h).induction (motive := fun p =>
    p.aliases.Numbered ∧ p.SelectsFlattened (· ∈ d.entities)) first ?_ (fun _ old _ => old) ?_).2
  · rintro a ha p q ⟨scope, old⟩ taken
    have scope := taken.grows.numbered scope
    exact ⟨scope, taken.selectsFlattened (entities_of_actions ha) scope old⟩
  · rintro key - p q ⟨scope, old⟩ step
    exact ⟨step.before.aliases.numbered scope, step.selectsFlattened old⟩

/-- The rows have flattened columns, and those of all entities unless they are projected. -/
theorem flattens_of_plan (h : d.plan naming log = .ok p) :
    ∃ columns, Flattens (· ∈ d.entities) p.aliases columns p.selectClause ∧
      ((∀ call ∈ d.calls, call.selects = false) →
        columns = columnsFrom 0 (d.root :: d.joined)) := by
  by_cases unselected : ∀ call ∈ d.calls, call.selects = false
  · obtain ⟨scope, known⟩ := scoped_of_plan h
    have aligned := aligned_of_plan unselected h
    have labels := aligned.labels scope.numbered
    rw [List.range_eq_range'] at labels
    have names := names_selectClause (fragmentsOf_select_of_plan unselected h)
    rw [columns_eq_columnsFrom labels scope.whole, (declares_of_plan h).1] at names
    refine ⟨_, ⟨names, ?_⟩, fun _ => rfl⟩
    intro c hc
    obtain ⟨hlt, E, hE, hfield⟩ := of_mem_columnsFrom hc
    rw [Nat.zero_add, ← (declares_of_plan h).1, List.length_map, ← aligned.length_eq] at hlt
    rw [← (declares_of_plan h).1] at hE
    obtain ⟨b, hb, rfl⟩ := List.mem_map.1 hE
    exact ⟨hlt, b.entity, known b hb, hfield⟩
  · have projected : p.fragmentsOf .select ≠ [] := by
      rw [ne_eq, ← List.length_eq_zero_iff, length_select_of_plan h, List.countP_eq_zero]
      simpa using unselected
    obtain ⟨columns, flattens⟩ :=
      Flattens.joined .comma (selectsFlattened_of_plan h)
    exact ⟨columns, selectClause_of_projected projected ▸ flattens,
      fun all => absurd all unselected⟩

/-- The names of grouping keys and aggregates are identifiers. -/
theorem checked_of_plan (h : d.plan naming log = .ok p) :
    ∀ k ∈ p.outputKeys, Identifier.check k.name = .ok () := by
  have built : Built (fun _ => True) (.new d.root naming log) d.keys p :=
    built_of_plan (fun _ _ => trivial) h
  exact built.namesChecked fun _ hk => absurd hk List.not_mem_nil

/-- The columns of a statement are flattened columns, grouping keys and aggregates. The names of
fields, keys and aggregates are within the limit, but the flattened columns are only when the fields
and the numbers of their aliases leave room for what is put before and between them. -/
theorem outputs_short_iff (declared : ∀ E ∈ d.entities, E.Declared)
    (compiled : d.compile {} log = .ok s) :
    ∃ columns : List (Nat × Field),
      s.sql.outputs = columns.map (flattened "Extend") ++ (d.keys.map Prod.fst ++ d.aggregates) ∧
      (∀ c ∈ columns, c.1 < d.entities.length ∧ c.2.name.utf8ByteSize ≤ Identifier.maxLength ∧
        ∃ E ∈ d.entities, c.2 ∈ E.fields) ∧
      (∀ name ∈ d.keys.map Prod.fst ++ d.aggregates,
        name.utf8ByteSize ≤ Identifier.maxLength) ∧
      ((∀ call ∈ d.calls, call.selects = false) →
        columns = columnsFrom 0 (d.root :: d.joined)) ∧
      ((∀ name ∈ s.sql.outputs, name.utf8ByteSize ≤ Identifier.maxLength) ↔
        ∀ c ∈ columns, c.2.name.utf8ByteSize + (Number.digits c.1).length ≤ 56) := by
  obtain ⟨p, accepted, rfl⟩ := plan_of_compile compiled
  obtain ⟨columns, ⟨names, known⟩, whole⟩ := flattens_of_plan accepted
  have owned := owned_of_plan accepted
  rw [stem_aliases_of_plan accepted] at names
  have outputs : (p.finish p.sql).sql.outputs =
      columns.map (flattened "Extend") ++ (d.keys.map Prod.fst ++ d.aggregates) := by
    rw [← (declares_of_plan accepted).2]
    exact (names_sql_of_plan accepted names).outputs_eq
  have keys : ∀ name ∈ d.keys.map Prod.fst ++ d.aggregates,
      name.utf8ByteSize ≤ Identifier.maxLength := by
    rw [← (declares_of_plan accepted).2]
    intro name hname
    obtain ⟨k, hk, rfl⟩ := List.mem_map.1 hname
    exact Identifier.length_of_check (checked_of_plan accepted k hk)
  refine ⟨columns, outputs, fun c hc => ?_, keys, whole, ?_⟩
  · obtain ⟨hlt, E, hE, hfield⟩ := known c hc
    obtain ⟨-, fields⟩ := (declared E hE).checked
    exact ⟨Nat.lt_of_lt_of_le hlt owned.size_le, Identifier.length_of_check (fields _ hfield).1,
      E, hE, hfield⟩
  · rw [outputs, List.forall_mem_append, and_iff_left keys, List.forall_mem_map]
    refine forall₂_congr fun c _ => ?_
    have stem : "Extend".utf8ByteSize = 6 := rfl
    rw [utf8ByteSize_flattened, stem, Identifier.maxLength]
    omega

/-- A declared field that is no relation and has its own name as its column. -/
def plainField (name type : String) : FieldDeclaration := ⟨name, type, false, false, []⟩

theorem declared_of_demo {E : Entity} (h : E = Demo.order ∨ E = Demo.customer) : E.Declared := by
  rcases h with rfl | rfl
  · refine ⟨⟨"Order", "", true, [[("name", "orders")]], [⟨"id", "i64", true, false, []⟩,
      plainField "customer_id" "i64", plainField "status" "String",
      plainField "placed_on" "NaiveDate", plainField "total" "f64"]⟩, ?_⟩
    decide +kernel
  · refine ⟨⟨"Customer", "", true, [[("name", "customers")]], [⟨"id", "i64", true, false, []⟩,
      plainField "name" "String", plainField "email" "Option<String>",
      ⟨"orders", "Vec<Order>", false, true, []⟩]⟩, ?_⟩
    decide +kernel

/-- The columns of the orders and customers of a revenue are short. -/
theorem revenueByStatus_short :
    ∃ s, revenueByStatus.compile {} [] = .ok s ∧
      (∀ E ∈ revenueByStatus.entities, E.Declared) ∧
      ∀ name ∈ s.sql.outputs, name.utf8ByteSize ≤ Identifier.maxLength := by
  have found : (revenueByStatus.compile {} []).toOption.isSome = true := by decide +kernel
  obtain ⟨s, compiled⟩ := Option.isSome_iff_exists.1 found
  have compiled := Outcome.eq_ok_of_toOption compiled
  have declared : ∀ E ∈ revenueByStatus.entities, E.Declared :=
    fun E hE => declared_of_demo (eq_of_mem_revenueByStatus hE)
  obtain ⟨columns, -, -, -, whole, short⟩ := outputs_short_iff declared compiled
  refine ⟨s, compiled, declared, short.2 ?_⟩
  rw [whole (by simp [revenueByStatus, Query.Call.selects])]
  decide +kernel

/-- Deliveries with a field whose name is as long as a name may be. -/
def deliveries : Build :=
  ⟨{ ref := "Delivery"
     typeName := "Delivery"
     table := "deliveries"
     fields :=
      [Demo.plain "names_of_the_people_who_are_to_be_told_when_deliveries_are_late" .text]
     relations := [] }, [], none⟩

/-- The database keeps only the start of the column's name, so the column is not found. -/
theorem deliveries_not_kept :
    ∃ s name, (∀ E ∈ deliveries.entities, E.Declared) ∧ deliveries.compile {} [] = .ok s ∧
      s.sql.outputs = [name] ∧ Identifier.maxLength < name.utf8ByteSize ∧
      Identifier.kept name ≠ name ∧
      (Query.new deliveries.root {} []).toList ⟨[]⟩
        (fun sent => .ok [.ofList (sent.sql.outputs.map fun n => (Identifier.kept n, .text "Ada"))]) =
          .error (.rowShape name .missing) := by
  have declared : ∀ E ∈ deliveries.entities, E.Declared := by
    refine List.forall_mem_singleton.2 ⟨⟨"Delivery", "", true, [[("name", "deliveries")]],
      [plainField "names_of_the_people_who_are_to_be_told_when_deliveries_are_late" "String"]⟩, ?_⟩
    decide +kernel
  refine ⟨_, "Extend0_names_of_the_people_who_are_to_be_told_when_deliveries_are_late",
    declared, rfl, rfl, by decide +kernel, ?_, rfl⟩
  rw [ne_eq, Identifier.kept_eq_self_iff]
  decide +kernel

end Build

end TypedQuery
