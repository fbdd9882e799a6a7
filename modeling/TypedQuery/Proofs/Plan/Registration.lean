import TypedQuery.Proofs.Plan.Outputs

/-!
# The order of registration

A translation registers the entities whose rows it reads, and a projection its target too. All
calls but joins and projections read only entities that are registered, so without projections the
aliases are numbered as the root and the joined entities come.
-/

namespace TypedQuery

open TypedQuery.Sql TypedQuery.Sql.Fragment

namespace Aliases

variable {Known Known' : Entity → Prop} {a as : Aliases} {e : Entity} {label : String}

/-- Some known entities are registered one after the other. -/
def Registers (Known : Entity → Prop) : Aliases → Aliases → Prop :=
  Relation.ReflTransGen fun a as => ∃ e label, Known e ∧ a.aliasFor e = .ok (label, as)

namespace Registers

theorem of_aliasFor (known : Known e) (h : a.aliasFor e = .ok (label, as)) :
    Registers Known a as :=
  .single ⟨e, label, known, h⟩

theorem mono (h : Registers Known a as) (known : ∀ e, Known e → Known' e) :
    Registers Known' a as :=
  Relation.ReflTransGen.mono (fun _ _ ⟨e, label, he, h⟩ => ⟨e, label, known e he, h⟩) _ _ h

end Registers

theorem registered_iff : (a.entry? e.typeName).isSome = true ↔
    ∃ entry ∈ a.entries, entry.entity.typeName = e.typeName := by
  unfold entry?
  simp [List.find?_isSome]

/-- Registering one entity beside those that are registered adds its entry or nothing. -/
theorem Registers.cases_one (h : Registers Known a as) {r : Entity}
    (all : ∀ e, Known e → (a.entry? e.typeName).isSome = true ∨ e = r) :
    as = a ∨ as = { a with entries := a.entries ++ [⟨r, Number.numbered a.stem a.size⟩] } := by
  induction h with
  | refl => exact .inl rfl
  | tail _ step ih =>
      obtain ⟨e, label, known, h⟩ := step
      rcases of_aliasFor_ok h with ⟨-, -, -, -, rfl⟩ | ⟨hnone, hlabel, grown⟩
      · exact ih
      rcases ih with rfl | rfl
      · rcases all e known with registered | rfl
        · simp [hnone] at registered
        · exact .inr (hlabel ▸ grown)
      · -- the entity that was added is registered by now
        have hsome : ( entry? { a with entries := a.entries ++
            [⟨r, Number.numbered a.stem a.size⟩] } e.typeName).isSome = true := by
          rw [registered_iff]
          rcases all e known with registered | rfl
          · obtain ⟨entry, hentry, hname⟩ := registered_iff.1 registered
            exact ⟨entry, List.mem_append_left _ hentry, hname⟩
          · exact ⟨_, List.mem_append_right _ (List.mem_singleton_self _), rfl⟩
        rw [hnone] at hsome
        cases hsome

theorem Registers.eq_of_registered (h : Registers Known a as)
    (all : ∀ e, Known e → (a.entry? e.typeName).isSome = true) : as = a := by
  induction h with
  | refl => rfl
  | tail _ step ih =>
      obtain ⟨e, label, known, h⟩ := step
      subst ih
      rcases of_aliasFor_ok h with ⟨-, -, -, -, rfl⟩ | ⟨hnone, -, -⟩
      · rfl
      · simpa [hnone] using all e known

/-- Only known entities are registered, each type name once. -/
structure Owned (Known : Entity → Prop) (a : Aliases) : Prop where
  distinct : (a.entries.map fun entry => entry.entity.typeName).Nodup
  known : ∀ entry ∈ a.entries, Known entry.entity

theorem Owned.registers (h : a.Owned Known) (grows : Registers Known a as) : as.Owned Known := by
  induction grows with
  | refl => exact h
  | tail _ step ih =>
      obtain ⟨e, label, known, haliasFor⟩ := step
      rcases of_aliasFor_ok haliasFor with ⟨-, -, -, -, rfl⟩ | ⟨hnone, -, rfl⟩
      · exact ih
      · refine ⟨?_, ?_⟩
        · rw [List.map_append, List.nodup_append]
          refine ⟨ih.distinct, List.nodup_singleton _, fun s hs t ht hst => ?_⟩
          obtain ⟨entry, hentry, rfl⟩ := List.mem_map.1 hs
          obtain rfl := List.mem_singleton.1 ht
          have hsome := registered_iff.2 ⟨entry, hentry, hst⟩
          simp [hnone] at hsome
        · rw [List.forall_mem_append, List.forall_mem_singleton]
          exact ⟨ih.known, known⟩

/-- There are no more aliases than entities. -/
theorem Owned.size_le {es : List Entity} (h : a.Owned (· ∈ es)) : a.size ≤ es.length := by
  have names : (a.entries.map fun entry => entry.entity.typeName) ⊆ es.map (·.typeName) := by
    intro s hs
    obtain ⟨entry, hentry, rfl⟩ := List.mem_map.1 hs
    exact List.mem_map_of_mem (f := (·.typeName)) (h.known entry hentry)
  have hlength := (h.distinct.subperm names).length_le
  simpa [size] using hlength

end Aliases

namespace Sql

variable {c : Context} {x y : Expr} {b b' : Binder} {f : Fragment} {a as : Aliases}

/-- The entities that translating an expression may register. -/
def Context.Reads (c : Context) (x : Expr) (e : Entity) : Prop :=
  .row e ∈ x.nodes ∨ c.clause = .select ∧ e ∈ x.entities

theorem Context.Reads.entities {e : Entity} (h : c.Reads x e) : e ∈ x.entities := by
  rcases h with row | ⟨-, he⟩
  · exact List.mem_flatMap.2 ⟨_, row, by simp [Expr.ownEntities]⟩
  · exact he

theorem Context.registers_part (h : a.Registers (c.Reads y) as) (hy : y ∈ x.children) :
    a.Registers (c.Reads x) as := by
  refine h.mono fun e he => he.imp (fun row => Expr.nodes_subset_of_mem_children hy row) ?_
  refine And.imp_right fun own => ?_
  obtain ⟨z, hz, own⟩ := List.mem_flatMap.1 own
  exact List.mem_flatMap.2 ⟨z, Expr.nodes_subset_of_mem_children hy hz, own⟩

theorem Projects.registers {target : Entity} {label : String} {seen : List String}
    {bs : List (String × Expr)} {columns : List Fragment} {Known : Entity → Prop}
    (h : Projects target label seen bs b columns b')
    (known : ∀ y ∈ bs.map Prod.snd, ∀ e, .row e ∈ y.nodes → Known e) :
    b.aliases.Registers Known b'.aliases := by
  induction h with
  | nil => exact .refl
  | cons field fresh sourceField registered others ih =>
      obtain ⟨hsource, hothers⟩ := List.forall_mem_cons.1 known
      have first := hsource _ (Expr.row_mem_nodes_of_field (Expr.self_mem_nodes _))
      exact (Aliases.Registers.of_aliasFor first registered).trans (ih hothers)

theorem Translates.registers (h : Translates c x b f b') :
    b.aliases.Registers (c.Reads x) b'.aliases := by
  induction h with
  | literal | constant =>
      rw [Binder.aliases_bound]
      exact .refl
  | column field rows registered =>
      exact .of_aliasFor (.inl (Expr.row_mem_nodes_of_field (Expr.self_mem_nodes _))) registered
  | groupedColumn | emptySet | countRows => exact .refl
  | testLeft null word operand ih | testRight other null word operand ih
  | aggregate aggregates argument ih =>
      exact Context.registers_part ih (by simp [Expr.children])
  | memberOf predicates membership value nonempty target ih =>
      rw [Binder.aliases_boundAll]
      exact Context.registers_part ih (by simp [Expr.children])
  | comparison _ _ left right ihl ihr | arithmetic _ _ left right ihl ihr
  | logical left right ihl ihr =>
      refine (Context.registers_part ihl ?_).trans (Context.registers_part ihr ?_)
      · simp [Expr.children]
      · simp [Expr.children]
  | like predicates target pattern iht ihp =>
      refine (Context.registers_part iht ?_).trans (Context.registers_part ihp ?_)
      · simp [Expr.children]
      · simp [Expr.children]
  | between predicates target low high iht ihl ihh =>
      refine ((Context.registers_part iht ?_).trans (Context.registers_part ihl ?_)).trans
        (Context.registers_part ihh ?_)
      · simp [Expr.children]
      · simp [Expr.children]
      · simp [Expr.children]
  | @projection target label as columns b b' bs select nonempty registered bindings =>
      have own : c.Reads (.construct target bs) target := by
        refine .inr ⟨select, ?_⟩
        rw [Expr.entities_construct]
        exact List.mem_cons_self
      refine (Aliases.Registers.of_aliasFor own registered).trans (bindings.registers ?_)
      intro y hy e row
      exact .inl (Expr.nodes_subset_of_mem_children (x := .construct target bs) hy row)

end Sql

namespace Plan

variable {Known : Entity → Prop} {p q : Plan} {c : Clause} {x : Expr} {f : Fragment} {b : Binder}
  {E : Entity} {a : Action}

/-- The aliases are those of the root and of the joined entities, in the same order. -/
def Aligned (p : Plan) : Prop :=
  List.Forall₂ (fun entry b => entry.label = b.label ∧ entry.entity.same b.entity = true)
    p.aliases.entries p.bindings

namespace Aligned

theorem new (root : Entity) (naming : Naming) (log : CallLog) :
    (Plan.new root naming log).Aligned :=
  .cons ⟨rfl, EntityName.same_iff.2 ⟨rfl, rfl⟩⟩ .nil

theorem keep (h : p.Aligned) (aliases : q.aliases = p.aliases)
    (bindings : q.bindings = p.bindings) : q.Aligned := by
  rw [Aligned, aliases, bindings]
  exact h

theorem registered (h : p.Aligned) (hE : p.participates E = true) :
    (p.aliases.entry? E.typeName).isSome = true := by
  obtain ⟨b, hb, hsame⟩ := participates_iff.1 hE
  obtain ⟨entry, hentry, -, hentity⟩ := exists_of_forall₂ h b hb
  obtain ⟨hname, -⟩ := EntityName.same_iff.1 (Entity.same_trans hentity hsame)
  exact Aliases.registered_iff.2 ⟨entry, hentry, hname⟩

theorem participates (h : p.Aligned) {label : String} (hE : p.aliases.lookup? E = some label) :
    p.participates E = true := by
  obtain ⟨entry, hentry, -⟩ := Option.map_eq_some_iff.1 hE
  obtain ⟨b, hb, -, hentity⟩ := exists_of_forall₂ h.flip entry (List.mem_of_find?_eq_some hentry)
  have hsame : entry.entity.same E = true := by simpa using List.find?_some hentry
  exact participates_iff.2 ⟨b, hb, Entity.same_trans (Entity.same_symm hentity) hsame⟩

/-- What reads only participants registers nothing. -/
theorem aliases_eq (h : p.Aligned) (hc : c ≠ .select) (reads : p.checkParticipants x = .ok ())
    (rule : Translates ⟨p.naming, p.grouped, c⟩ x p.binder f b) : b.aliases = p.aliases := by
  refine rule.registers.eq_of_registered fun e he => ?_
  rcases he with row | ⟨hselect, -⟩
  · exact h.registered (participates_of_check x reads e row)
  · exact absurd hselect hc

end Aligned

theorem Takes.aligned (h : Takes p a q) (hc : a.clause ≠ .select) (hp : p.Aligned) :
    q.Aligned := by
  cases h with
  | condition clause reads translated | order reads translated
  | aggregate grouped named reads translated =>
      obtain ⟨b, rule, rfl⟩ := translated
      exact hp.keep (hp.aliases_eq hc reads rule) rfl
  | projection => exact absurd rfl hc
  | limit n | offset n => exact hp.keep rfl rfl
  | @join type left right related l r label f _ fresh leftKey old rightKey new translated registered
      apart =>
      obtain ⟨leftName, rfl⟩ := joinKeyEntity_ok leftKey
      obtain ⟨rightName, rfl⟩ := joinKeyEntity_ok rightKey
      obtain ⟨b, rule, rfl⟩ := translated
      have unregistered : p.aliases.lookup? related = none := by
        rw [Option.eq_none_iff_forall_not_mem]
        intro l hl
        simp [hp.participates hl] at fresh
      have registers : b.aliases = p.aliases ∨ b.aliases = { p.aliases with
          entries := p.aliases.entries ++
            [⟨right, Number.numbered p.aliases.stem p.aliases.size⟩] } := by
        refine rule.registers.cases_one fun e he => ?_
        rcases (by simpa using he.entities : e = left ∨ e = right) with rfl | rfl
        · exact .inl (hp.registered old)
        · exact .inr rfl
      have hlabel : b.aliases.lookup? related = some label := registered
      rcases registers with same | grown
      · rw [same, unregistered] at hlabel
        cases hlabel
      · have hnone : p.aliases.entries.find? (·.entity.same related) = none := by
          simpa [Aliases.lookup?] using unregistered
        have hnumber : Number.numbered p.aliases.stem p.aliases.size = label := by
          simpa [Aliases.lookup?, grown, hnone, new] using hlabel
        have entries : (addJoin { p with binder := b }
            ⟨type, left, .full related label, f⟩).aliases.entries =
              p.aliases.entries ++ [⟨right, label⟩] := by
          rw [← hnumber]
          exact congrArg Aliases.entries grown
        rw [Aligned, entries, bindings_addJoin]
        exact List.rel_append hp (.cons ⟨rfl, new⟩ .nil)

theorem KeyStep.aligned {key : String × Expr} (h : KeyStep Known p key q) (hp : p.Aligned) :
    q.Aligned := by
  obtain ⟨grouped, known, named, reads, b, rule, rfl⟩ := h
  exact hp.keep (hp.aliases_eq (by decide) reads rule) rfl

/-- The aliases are numbered as the root and the joined entities come. -/
theorem Aligned.labels (h : p.Aligned) (numbered : p.aliases.Numbered) :
    p.bindings.map Binding.label =
      (List.range p.bindings.length).map (Number.numbered p.aliases.stem) := by
  have hlabels : p.aliases.entries.map AliasEntry.label = p.bindings.map Binding.label := by
    rw [← List.forall₂_eq_eq_eq, List.forall₂_map_left_iff, List.forall₂_map_right_iff]
    exact h.imp fun _ _ same => same.1
  rw [← hlabels, numbered, Aliases.size, h.length_eq]

theorem Takes.owned (h : Takes p a q) (known : ∀ E ∈ a.entities, Known E)
    (hp : p.aliases.Owned Known) : q.aliases.Owned Known := by
  cases h with
  | condition clause reads translated | order reads translated
  | projection constructs projected reads translated registered
  | aggregate grouped named reads translated =>
      obtain ⟨b, rule, rfl⟩ := translated
      exact hp.registers (rule.registers.mono fun e he => known e he.entities)
  | @join type left right related l r label f _ fresh leftKey old rightKey new translated registered
      apart =>
      obtain ⟨b, rule, rfl⟩ := translated
      refine hp.registers (rule.registers.mono fun e he => known e ?_)
      exact List.mem_cons_of_mem _ (by simpa using he.entities)
  | limit n | offset n => exact hp

theorem KeyStep.owned {key : String × Expr} (h : KeyStep Known p key q)
    (hp : p.aliases.Owned Known) : q.aliases.Owned Known := by
  obtain ⟨grouped, known, named, reads, b, rule, rfl⟩ := h
  exact hp.registers (rule.registers.mono fun e he => known e he.entities)

end Plan

namespace Build

open Plan

variable {d : Build} {naming : Naming} {log : CallLog} {p : Plan}

theorem owned_of_plan (h : d.plan naming log = .ok p) : p.aliases.Owned (· ∈ d.entities) := by
  have first : (Plan.new d.root naming log).aliases.Owned (· ∈ d.entities) :=
    ⟨List.nodup_singleton _, List.forall_mem_singleton.2 root_mem_entities⟩
  refine (makes_of_plan h).induction first ?_ (fun _ old _ => old)
    fun _ _ _ _ old step => step.owned old
  exact fun a ha _ _ old taken => taken.owned (entities_of_actions ha) old

theorem stem_aliases_of_plan (h : d.plan naming log = .ok p) :
    p.aliases.stem = naming.aliasStem := by
  have built : Built (fun _ => True) (.new d.root naming log) d.keys p :=
    built_of_plan (fun _ _ => trivial) h
  refine built.induction (motive := fun p => p.aliases.stem = naming.aliasStem) rfl ?_
    (fun _ old => old) ?_
  · exact fun _ _ old step => step.before.aliases.stem.trans old
  · exact fun _ _ _ old step => step.before.aliases.stem.trans old

theorem clause_ne_select (unselected : ∀ call ∈ d.calls, call.selects = false) {a : Action}
    (ha : a ∈ d.actions) : a.clause ≠ .select := by
  rcases List.mem_append.1 ha with hrow | hgroup
  · obtain ⟨call, hcall, rfl⟩ := List.mem_map.1 hrow
    have := unselected call hcall
    cases call <;> simp_all [Query.Call.selects, Query.Call.action, Action.clause]
  · obtain ⟨grouping, -, ha⟩ := List.mem_flatMap.1 hgroup
    obtain ⟨call, -, rfl⟩ := List.mem_map.1 ha
    cases call <;> simp [GroupedQuery.Call.action, Action.clause]

theorem aligned_of_plan (unselected : ∀ call ∈ d.calls, call.selects = false)
    (h : d.plan naming log = .ok p) : p.Aligned := by
  refine (makes_of_plan h).induction (.new _ _ _) ?_ (fun _ old _ => old.keep rfl rfl)
    fun _ _ _ _ old step => step.aligned old
  exact fun a ha _ _ old taken => taken.aligned (clause_ne_select unselected ha) old

end Build

end TypedQuery
