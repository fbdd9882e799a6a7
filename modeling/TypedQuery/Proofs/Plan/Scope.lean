import Mathlib.Data.List.Nodup
import TypedQuery.Proofs.Plan.Calls
import TypedQuery.Proofs.Sql.Columns
import TypedQuery.Demo

/-!
# The scope of a plan

Translating registers an alias for any entity, so an alias alone says little. What is in scope are
the root and the joined entities: each has an alias of its own, which `FROM` or its join introduces,
and every call checks that only these are read before it translates. So every column in a fragment
belongs to one of them.
-/

namespace TypedQuery

open TypedQuery.Sql TypedQuery.Sql.Fragment

theorem Entity.same_trans {e f g : Entity} (h : e.same f = true) (k : f.same g = true) :
    e.same g = true := by
  obtain ⟨hname, htable⟩ := EntityName.same_iff.1 h
  obtain ⟨kname, ktable⟩ := EntityName.same_iff.1 k
  exact EntityName.same_iff.2 ⟨hname.trans kname, htable.trans ktable⟩

theorem Entity.same_symm {e f : Entity} (h : e.same f = true) : f.same e = true :=
  (EntityName.same_comm _ _).trans h

namespace Aliases

/-- The aliases are numbered in the order of registration. -/
def Numbered (a : Aliases) : Prop :=
  a.entries.map AliasEntry.label = (List.range a.size).map (Number.numbered a.stem)

variable {a as : Aliases} {e f : Entity} {label : String}

theorem Numbered.rooted (stem : String) (root : Entity) : (Aliases.rooted stem root).Numbered := rfl

theorem Numbered.nodup_labels (numbered : a.Numbered) :
    (a.entries.map AliasEntry.label).Nodup := by
  rw [numbered]
  exact List.Nodup.map (fun i j => Number.numbered_injective) List.nodup_range

theorem Grows.stem (h : a.Grows as) : as.stem = a.stem := by
  induction h with
  | refl => rfl
  | tail _ step ih =>
      obtain ⟨e, label, h⟩ := step
      rcases of_aliasFor_ok h with ⟨-, -, -, -, rfl⟩ | ⟨-, -, rfl⟩
      · exact ih
      · exact ih

theorem Grows.numbered (h : a.Grows as) (numbered : a.Numbered) : as.Numbered := by
  induction h with
  | refl => exact numbered
  | tail _ step ih =>
      obtain ⟨e, label, h⟩ := step
      rcases of_aliasFor_ok h with ⟨-, -, -, -, rfl⟩ | ⟨-, rfl, rfl⟩
      · exact ih
      · rw [Numbered, List.map_append, ih, size, size, List.length_append, List.length_singleton,
          List.range_succ, List.map_append]
        rfl

theorem lookup?_congr (h : e.same f = true) : a.lookup? e = a.lookup? f := by
  have hsame (entry : AliasEntry) : entry.entity.same e = entry.entity.same f :=
    Bool.eq_iff_iff.2 ⟨fun he => Entity.same_trans he h,
      fun hf => Entity.same_trans hf (Entity.same_symm h)⟩
  rw [lookup?, lookup?, funext hsame]

theorem Numbered.exists_of_lookup? (numbered : a.Numbered) (h : a.lookup? e = some label) :
    ∃ n, label = Number.numbered a.stem n := by
  obtain ⟨entry, hentry, rfl⟩ := Option.map_eq_some_iff.1 h
  have hlabel : entry.label ∈ a.entries.map AliasEntry.label :=
    List.mem_map_of_mem (List.mem_of_find?_eq_some hentry)
  rw [numbered] at hlabel
  obtain ⟨n, -, hn⟩ := List.mem_map.1 hlabel
  exact ⟨n, hn.symm⟩

/-- No two entities share an alias. -/
theorem Numbered.same_of_lookup? (numbered : a.Numbered) (he : a.lookup? e = some label)
    (hf : a.lookup? f = some label) : e.same f = true := by
  obtain ⟨entry, hentry, hlabel⟩ := Option.map_eq_some_iff.1 he
  obtain ⟨entry', hentry', hlabel'⟩ := Option.map_eq_some_iff.1 hf
  obtain rfl : entry = entry' := List.inj_on_of_nodup_map numbered.nodup_labels
    (List.mem_of_find?_eq_some hentry) (List.mem_of_find?_eq_some hentry')
    (hlabel.trans hlabel'.symm)
  have hsame : entry.entity.same e = true := by simpa using List.find?_some hentry
  have hsame' : entry.entity.same f = true := by simpa using List.find?_some hentry'
  exact Entity.same_trans (Entity.same_symm hsame) hsame'

end Aliases

theorem Join.within_fragment {P : Sql.Token → Prop} {j : Join}
    (names : ∀ s, P (.name s)) (h : Within P j.condition) : Within P j.fragment := by
  have symbol : (Sql.Token.keyword j.type.symbol).isStock = true := by cases j.type <;> decide
  refine within_append.2 ⟨?_, h⟩
  simp only [within_cons, within_nil]
  exact ⟨.inl symbol, .inl rfl, .inr (names _), .inl rfl, .inr (names _), .inl rfl,
    .inl (by decide), .inl rfl, trivial⟩

namespace Plan

variable {p q : Plan} {c d : Clause} {x : Expr} {f : Fragment} {E : Entity} {j : Join}
  {Known : Entity → Prop}

theorem bindings_addJoin (p : Plan) (j : Join) :
    (p.addJoin j).bindings = p.bindings ++ [j.related] := by
  simp [bindings, addJoin, push, rootBinding, rootAlias]

theorem participates_iff : p.participates E = true ↔ ∃ b ∈ p.bindings, b.entity.same E = true := by
  simp [participates, participants, bindings, rootBinding, Binding.full]

theorem participates_addJoin : (p.addJoin j).participates E = true ↔
    p.participates E = true ∨ j.related.entity.same E = true := by
  simp only [participates_iff, bindings_addJoin, List.mem_append, List.mem_singleton, or_and_right,
    exists_or, exists_eq_left]

/-- The root and the joined entities are different entities with aliases of their own, which the
fragments of `FROM` and of the joins introduce. -/
structure Scoped (p : Plan) : Prop where
  numbered : p.aliases.Numbered
  registered : ∀ b ∈ p.bindings, p.aliases.lookup? b.entity = some b.label
  whole : ∀ b ∈ p.bindings, b.fields = b.entity.fields
  apart : p.bindings.Pairwise fun b b' => b.entity.same b'.entity = false
  table : p.fragmentsOf .from = [[.name p.root.table, .space, .name p.rootAlias]]
  joined : p.fragmentsOf .join = p.joins.map Join.fragment

namespace Scoped

theorem new (root : Entity) (naming : Naming) (log : CallLog) :
    (Plan.new root naming log).Scoped := by
  have hbindings : (Plan.new root naming log).bindings =
      [.full root (Number.numbered naming.aliasStem 0)] := rfl
  refine ⟨.rooted _ _, ?_, ?_, ?_, rfl, rfl⟩
  · rw [hbindings, List.forall_mem_singleton]
    simp [Plan.new, aliases, Aliases.rooted, Aliases.lookup?, Binding.full, Entity.same]
  · rw [hbindings, List.forall_mem_singleton]
    rfl
  · rw [hbindings]
    exact List.pairwise_singleton _ _

/-- A plan that registers more and gets fragments of other clauses stays scoped. -/
theorem keep (h : p.Scoped) (grows : p.aliases.Grows q.aliases) (naming : q.naming = p.naming)
    (root : q.root = p.root) (joins : q.joins = p.joins)
    (fragments : ∀ d, d = .from ∨ d = .join → q.fragmentsOf d = p.fragmentsOf d) : q.Scoped := by
  have hroot : q.rootAlias = p.rootAlias := by rw [rootAlias, rootAlias, naming]
  have hbindings : q.bindings = p.bindings := by
    rw [bindings, bindings, rootBinding, rootBinding, root, hroot, joins]
  refine ⟨grows.numbered h.numbered, ?_, ?_, ?_, ?_, ?_⟩
  · intro b hb
    exact grows.lookup? (h.registered b (hbindings ▸ hb))
  · rw [hbindings]
    exact h.whole
  · rw [hbindings]
    exact h.apart
  · rw [fragments _ (.inl rfl), h.table, root, hroot]
  · rw [fragments _ (.inr rfl), h.joined, joins]

theorem push (h : p.Scoped) {b : Binder} (before : p.binder.Before b)
    (hc : c ≠ .from ∧ c ≠ .join) : (Plan.push { p with binder := b } c f).Scoped := by
  refine h.keep before.aliases rfl rfl rfl ?_
  rintro d (rfl | rfl)
  · exact fragmentsOf_push_of_ne _ _ hc.1
  · exact fragmentsOf_push_of_ne _ _ hc.2

theorem addJoin (h : p.Scoped) (type : JoinType) (left : Entity) {related : Entity} {label : String}
    (f : Fragment) (fresh : p.participates related = false)
    (registered : p.aliases.lookup? related = some label) :
    (p.addJoin ⟨type, left, .full related label, f⟩).Scoped := by
  have only {b : Binding} (hb : b ∈ (p.addJoin ⟨type, left, .full related label, f⟩).bindings) :
      b ∈ p.bindings ∨ b = .full related label := by
    rw [bindings_addJoin] at hb
    exact (List.mem_append.1 hb).imp_right List.mem_singleton.1
  refine ⟨h.numbered, ?_, ?_, ?_, ?_, ?_⟩
  · intro b hb
    rcases only hb with hold | rfl
    · exact h.registered b hold
    · exact registered
  · intro b hb
    rcases only hb with hold | rfl
    · exact h.whole b hold
    · rfl
  · rw [bindings_addJoin, List.pairwise_append]
    refine ⟨h.apart, List.pairwise_singleton _ _, fun b hb b' hb' => ?_⟩
    obtain rfl : b' = .full related label := List.mem_singleton.1 hb'
    by_contra hsame
    have old : p.participates related = true :=
      participates_iff.2 ⟨b, hb, by simpa [Binding.full] using hsame⟩
    simp [fresh] at old
  · exact (fragmentsOf_push_of_ne _ _ (by decide)).trans h.table
  · have hfragments : (p.addJoin ⟨type, left, .full related label, f⟩).fragmentsOf .join =
        p.fragmentsOf .join ++ [Join.fragment ⟨type, left, .full related label, f⟩] :=
      fragmentsOf_push_self _ _ _
    rw [hfragments, h.joined]
    simp [Plan.addJoin, Plan.push]

/-- A participant has the alias of the root or of one join. -/
theorem binding_of (h : p.Scoped) (hE : p.participates E = true) :
    ∃ b ∈ p.bindings, b.entity.same E = true ∧ p.aliases.lookup? E = some b.label := by
  obtain ⟨b, hb, hsame⟩ := participates_iff.1 hE
  exact ⟨b, hb, hsame, (Aliases.lookup?_congr hsame) ▸ h.registered b hb⟩

end Scoped

theorem Step.scoped (h : Step Known p q) (hp : p.Scoped) : q.Scoped := by
  cases h with
  | condition clause known reads translated =>
      obtain ⟨b, rule, rfl⟩ := translated
      rcases clause with rfl | ⟨rfl, -⟩
      · exact hp.push rule.before (by decide)
      · exact hp.push rule.before (by decide)
  | order known reads translated =>
      obtain ⟨b, rule, rfl⟩ := translated
      exact hp.push rule.before (by decide)
  | projection known reads translated registered =>
      obtain ⟨b, rule, rfl⟩ := translated
      exact (hp.push rule.before (by decide)).keep .refl rfl rfl rfl fun _ _ => rfl
  | aggregationKey grouped known named reads translated =>
      obtain ⟨b, rule, rfl⟩ := translated
      exact (hp.push rule.before (by decide)).keep .refl rfl rfl rfl fun _ _ => rfl
  | limit n | offset n => exact hp.push (.refl _) (by decide)
  | @join type left _ _ _ _ _ f _ known fresh leftKey old rightKey new translated registered
      apart =>
      obtain ⟨b, rule, rfl⟩ := translated
      have hq : Plan.Scoped { p with binder := b } :=
        hp.keep rule.grows rfl rfl rfl fun _ _ => rfl
      exact hq.addJoin type left f fresh registered

theorem KeyStep.scoped {key : String × Expr} (h : KeyStep Known p key q) (hp : p.Scoped) :
    q.Scoped := by
  obtain ⟨grouped, known, named, reads, b, rule, rfl⟩ := h
  exact (hp.push rule.before (by decide)).keep .refl rfl rfl rfl fun _ _ => rfl

theorem Built.scoped {start : Plan} {keys : List (String × Expr)} (h : Built Known start keys p)
    (hstart : start.Scoped) : p.Scoped := by
  refine h.induction hstart (fun _ _ old step => step.scoped old) ?_
    (fun _ _ _ old step => step.scoped old)
  exact fun _ old => old.keep .refl rfl rfl rfl fun _ _ => rfl

mutual

/-- An expression that is accepted reads rows of participants only. -/
theorem participates_of_check : (x : Expr) → p.checkParticipants x = .ok () →
    ∀ E, .row E ∈ x.nodes → p.participates E = true := by
  intro x h E hE
  cases x with
  | row e =>
      obtain rfl : E = e := by simpa [Expr.nodes] using hE
      unfold checkParticipants at h
      split at h
      · assumption
      · cases h
  | comparison op l r | logical op l r =>
      obtain ⟨_, hl, hr⟩ := Outcome.bind_ok.1 h
      rcases List.mem_append.1 (by simpa [Expr.nodes] using hE) with hEl | hEr
      · exact participates_of_check l hl E hEl
      · exact participates_of_check r hr E hEr
  | member t name => exact participates_of_check t h E (by simpa [Expr.nodes] using hE)
  | literal v => simp [Expr.nodes] at hE
  | call f args => exact participates_of_checkArgs args h E (by simpa [Expr.nodes] using hE)
  | construct target bs =>
      exact participates_of_checkBindings bs h E (by simpa [Expr.nodes] using hE)

theorem participates_of_checkArgs : (xs : List Expr) → p.checkArgs xs = .ok () →
    ∀ E, .row E ∈ Expr.nodesOfArgs xs → p.participates E = true
  | [] => by simp [Expr.nodesOfArgs]
  | x :: xs => by
      intro h E hE
      obtain ⟨_, hx, hxs⟩ := Outcome.bind_ok.1 h
      rcases List.mem_append.1 hE with hE | hE
      · exact participates_of_check x hx E hE
      · exact participates_of_checkArgs xs hxs E hE

theorem participates_of_checkBindings : (bs : List (String × Expr)) → p.checkBindings bs = .ok () →
    ∀ E, .row E ∈ Expr.nodesOfBindings bs → p.participates E = true
  | [] => by simp [Expr.nodesOfBindings]
  | (name, x) :: bs => by
      intro h E hE
      obtain ⟨_, hx, hbs⟩ := Outcome.bind_ok.1 h
      rcases List.mem_append.1 hE with hE | hE
      · exact participates_of_check x hx E hE
      · exact participates_of_checkBindings bs hbs E hE

end

theorem joinKeyEntity_ok {x : Expr} (h : joinKeyEntity x = .ok E) : ∃ name, x = .field E name := by
  unfold joinKeyEntity at h
  split at h
  · rename_i e name hfield
    obtain rfl := Except.ok.inj h
    exact ⟨name, Expr.eq_field_of_asField? hfield⟩
  · cases h

/-- What a later plan keeps of an earlier one: how columns are written and what is in scope. -/
structure Extends (p q : Plan) : Prop where
  naming : q.naming = p.naming
  grouped : q.grouped = p.grouped
  participants : ∀ E, p.participates E = true → q.participates E = true
  aliases : p.aliases.Grows q.aliases

/-- Only a join brings an entity in. -/
theorem Step.bindings (h : Step Known p q) :
    q.bindings = p.bindings ∨ ∃ b, q.bindings = p.bindings ++ [b] ∧ Known b.entity := by
  cases h with
  | condition clause known reads translated | order known reads translated
  | projection known reads translated registered
  | aggregationKey grouped known named reads translated =>
      obtain ⟨b, rule, rfl⟩ := translated
      exact .inl rfl
  | limit n | offset n => exact .inl rfl
  | join known fresh leftKey old rightKey new translated registered apart =>
      obtain ⟨b, rule, rfl⟩ := translated
      exact .inr ⟨_, bindings_addJoin _ _, known _ List.mem_cons_self⟩

theorem Step.known (h : Step Known p q) (hp : ∀ b ∈ p.bindings, Known b.entity) :
    ∀ b ∈ q.bindings, Known b.entity := by
  rcases h.bindings with same | ⟨b, grown, known⟩
  · rw [same]
    exact hp
  · rw [grown, List.forall_mem_append]
    exact ⟨hp, List.forall_mem_singleton.2 known⟩

theorem KeyStep.bindings {key : String × Expr} (h : KeyStep Known p key q) :
    q.bindings = p.bindings := by
  obtain ⟨grouped, known, named, reads, b, rule, rfl⟩ := h
  rfl

theorem Built.known {start : Plan} {keys : List (String × Expr)} (h : Built Known start keys p)
    (hstart : ∀ b ∈ start.bindings, Known b.entity) : ∀ b ∈ p.bindings, Known b.entity := by
  refine h.induction (motive := fun p => ∀ b ∈ p.bindings, Known b.entity) hstart
    (fun _ _ old step => step.known old) (fun _ old => old) fun p q key old step => ?_
  rw [step.bindings]
  exact old

theorem Step.extends (h : Step Known p q) : p.Extends q := by
  refine ⟨h.naming, h.grouped, fun E hE => ?_, h.before.aliases⟩
  obtain ⟨b, hb, hsame⟩ := participates_iff.1 hE
  refine participates_iff.2 ⟨b, ?_, hsame⟩
  rcases h.bindings with same | ⟨b', grown, -⟩
  · rw [same]
    exact hb
  · rw [grown]
    exact List.mem_append_left _ hb

theorem KeyStep.extends {key : String × Expr} (h : KeyStep Known p key q) : p.Extends q := by
  have naming := h.naming
  have aliases := h.before.aliases
  obtain ⟨grouped, known, named, reads, translated⟩ := h
  refine ⟨naming, translated.grouped, ?_, aliases⟩
  obtain ⟨b, rule, rfl⟩ := translated
  exact fun E hE => hE

/-- The context in which fragments of a clause are written. -/
def context (p : Plan) (c : Clause) : Context := ⟨p.naming, p.grouped, c⟩

theorem rows_context (rows : c.readsGroupedColumns = false) (unsorted : c ≠ .orderBy) :
    (p.context c).readsGroupedColumns = false := by
  have hbeq : (c == Clause.orderBy) = false := by simpa using unsorted
  simp [context, Context.readsGroupedColumns, rows, hbeq]

/-- The token stands for a field of a participant that an expression given for the clause reads. -/
def Shown (Given : Clause → Expr → Prop) (p : Plan) (c : Clause) (t : Sql.Token) : Prop :=
  ∃ x, Given c x ∧ (∀ E, .row E ∈ x.nodes → p.participates E = true) ∧
    (p.context c).Shows x p.aliases t

/-- Fragments read only fields of participants, and only select lists give names. -/
structure Showing (Given : Clause → Expr → Prop) (p : Plan) : Prop where
  reads : ∀ c f, (c, f) ∈ p.fragments → ReadsOnly (fun q n => p.Shown Given c (.column q n)) f
  bare : ∀ c f, (c, f) ∈ p.fragments → c ≠ .select → c ≠ .selectAggregate → Bare f

variable {Given : Clause → Expr → Prop} {t : Sql.Token} {a : Action}

theorem Shown.mono (h : p.Shown Given c t) (extend : p.Extends q) : q.Shown Given c t := by
  obtain ⟨x, given, rows, shows⟩ := h
  have hcontext : q.context c = p.context c := by
    rw [context, context, extend.naming, extend.grouped]
  refine ⟨x, given, fun E hE => extend.participants E (rows E hE), ?_⟩
  rw [hcontext]
  exact shows.mono (List.Subset.refl _) extend.aliases

namespace Showing

theorem new (root : Entity) (naming : Naming) (log : CallLog) :
    (Plan.new root naming log).Showing Given := by
  have only {c f} (h : (c, f) ∈ (Plan.new root naming log).fragments) :
      f = [.name root.table, .space, .name (Number.numbered naming.aliasStem 0)] :=
    (Prod.mk.inj (List.mem_singleton.1 h)).2
  refine ⟨fun c f h q n hcolumn => ?_, fun c f h _ _ => ?_⟩
  · rw [only h] at hcolumn
    simp at hcolumn
  · rw [only h]
    simp [Bare]

/-- A fragment is added that reads fields of participants. -/
theorem add (h : p.Showing Given) (extend : p.Extends q)
    (fragments : q.fragments = p.fragments ++ [(c, f)])
    (reads : ReadsOnly (fun q' n => q.Shown Given c (.column q' n)) f)
    (bare : c ≠ .select → c ≠ .selectAggregate → Bare f) : q.Showing Given := by
  have last {d g} (hg : (d, g) ∈ q.fragments) : (d, g) ∈ p.fragments ∨ d = c ∧ g = f := by
    simpa [fragments] using hg
  refine ⟨fun d g hg q' n hcolumn => ?_, fun d g hg hselect haggregate => ?_⟩
  · rcases last hg with hold | ⟨rfl, rfl⟩
    · exact (h.reads d g hold q' n hcolumn).mono extend
    · exact reads q' n hcolumn
  · rcases last hg with hold | ⟨rfl, rfl⟩
    · exact h.bare d g hold hselect haggregate
    · exact bare hselect haggregate

/-- A fragment is added whose other tokens are stock or names of tables. -/
theorem addWithin (h : p.Showing Given) (extend : p.Extends q)
    (fragments : q.fragments = p.fragments ++ [(c, f)])
    (within : Within (fun t => q.Shown Given c t ∨ ∃ s, t = .name s) f) : q.Showing Given := by
  refine h.add extend fragments ?_ fun _ _ => ?_
  · refine within.reads fun q' n special => ?_
    rcases special with shown | ⟨s, hs⟩
    · exact shown
    · cases hs
  · refine within.bare ?_
    rintro t (⟨x, -, -, shows⟩ | ⟨s, rfl⟩)
    · obtain ⟨q', n, rfl⟩ := shows.isColumn
      nofun
    · nofun

/-- Before sorting nothing changes when the rows are grouped. -/
theorem beginGrouping (h : p.Showing Given) (unsorted : p.fragmentsOf .orderBy = []) :
    p.beginGrouping.Showing Given := by
  refine ⟨fun c f hf q n hcolumn => ?_, h.bare⟩
  have hc : c ≠ .orderBy := by
    rintro rfl
    have hmem : f ∈ p.fragmentsOf .orderBy := p.mem_fragmentsOf.2 hf
    simp [unsorted] at hmem
  obtain ⟨x, given, rows, E, name, g, label, hnode, hfield, hlabel, ht⟩ :=
    h.reads c f hf q n hcolumn
  refine ⟨x, given, rows, E, name, g, label, hnode, hfield, hlabel, ht.trans ?_⟩
  have hbeq : (c == Clause.orderBy) = false := by simpa using hc
  simp [Context.written, Context.readsGroupedColumns, context, Plan.beginGrouping, hbeq]

end Showing

/-- An action whose expression was given reads only fields of participants. -/
theorem Takes.showing (h : Takes p a q) (given : ∀ x, a.expr? = some x → Given a.clause x)
    (hp : p.Showing Given) : q.Showing Given := by
  have step : Step (fun _ => True) p q := h.step fun _ _ => trivial
  have extend := step.extends
  have shown {c : Clause} {x : Expr} (given : Given c x)
      (rows : ∀ E, .row E ∈ x.nodes → q.participates E = true) (t : Sql.Token)
      (shows : (q.context c).Shows x q.aliases t) : q.Shown Given c t ∨ ∃ s, t = .name s :=
    .inl ⟨x, given, rows, shows⟩
  cases h with
  | @condition c x f _ clause reads translated =>
      have rows := participates_of_check x reads
      have other : c ≠ .select := by
        rcases clause with rfl | ⟨rfl, -⟩
        · decide
        · decide
      obtain ⟨b, rule, rfl⟩ := translated
      exact hp.addWithin extend rfl ((rule.within other).mono (shown (given x rfl) rows))
  | @order x o f _ reads translated =>
      have rows := participates_of_check x reads
      obtain ⟨b, rule, rfl⟩ := translated
      have direction : (Sql.Token.keyword o.symbol).isStock = true := by cases o <;> decide
      refine hp.addWithin extend rfl
        (within_append.2 ⟨?_, .token rfl (.token direction within_nil)⟩)
      exact (rule.within (by simp)).mono (shown (given x rfl) rows)
  | @join type left right related l r label f _ fresh leftKey old rightKey new translated registered
      apart =>
      obtain ⟨leftName, rfl⟩ := joinKeyEntity_ok leftKey
      obtain ⟨rightName, rfl⟩ := joinKeyEntity_ok rightKey
      obtain ⟨b, rule, rfl⟩ := translated
      refine hp.addWithin extend rfl (Join.within_fragment (fun s => .inr ⟨s, rfl⟩) ?_)
      refine (rule.within (by simp)).mono (shown (given _ rfl) fun E hE => ?_)
      rcases (by simpa [Expr.nodes, Expr.field] using hE : E = left ∨ E = right) with rfl | rfl
      · exact participates_addJoin.2 (.inl old)
      · exact participates_addJoin.2 (.inr (Entity.same_symm new))
  | projection constructs projected reads translated registered =>
      have rows := participates_of_check _ reads
      obtain ⟨b, rule, rfl⟩ := translated
      refine hp.add extend rfl ?_ fun h => absurd rfl h
      refine (rule.reads_projection (rows_context rfl (by simp))).mono fun _ _ shows => ?_
      exact ⟨_, given _ rfl, rows, shows⟩
  | @aggregate name x f _ grouped named reads translated =>
      have rows := participates_of_check x reads
      obtain ⟨b, rule, rfl⟩ := translated
      refine hp.add extend rfl (ReadsOnly.named ?_ _) fun _ h => absurd rfl h
      refine (rule.within (by simp)).reads fun _ _ shows => ⟨_, given x rfl, rows, shows⟩
  | limit n | offset n => exact hp.addWithin extend rfl (.token rfl within_nil)

theorem KeyStep.showing {key : String × Expr} (h : KeyStep Known p key q)
    (given : Given .groupBy key.2) (hp : p.Showing Given) : q.Showing Given := by
  have extend := h.extends
  obtain ⟨grouped, known, named, reads, translated⟩ := h
  have rows := participates_of_check _ reads
  obtain ⟨b, rule, rfl⟩ := translated
  refine hp.addWithin extend rfl ((rule.within (by simp)).mono fun t shows => ?_)
  exact .inl ⟨_, given, rows, shows⟩

/-- Every join has the property, which is given the root and the entities joined before it. -/
def EachJoin (Q : List Binding → Join → Prop) (p : Plan) : Prop :=
  ∀ before j behind, p.joins = before ++ j :: behind →
    Q (p.rootBinding :: before.map Join.related) j

theorem EachJoin.new {Q : List Binding → Join → Prop} (root : Entity) (naming : Naming)
    (log : CallLog) : (Plan.new root naming log).EachJoin Q := by
  intro before j behind hjoins
  simp [Plan.new, Plan.push] at hjoins

theorem EachJoin.addJoin {Q : List Binding → Join → Prop} (h : p.EachJoin Q) (hj : Q p.bindings j) :
    (p.addJoin j).EachJoin Q := by
  intro before k behind hjoins
  have hjoins : p.joins ++ [j] = before ++ k :: behind := hjoins
  rcases List.eq_nil_or_concat' behind with rfl | ⟨behind', l, rfl⟩
  · obtain ⟨rfl, hk⟩ := List.append_inj' hjoins rfl
    obtain rfl := (List.cons.inj hk).1
    exact hj
  · rw [← List.cons_append, ← List.append_assoc] at hjoins
    obtain ⟨hold, -⟩ := List.append_inj' hjoins rfl
    exact h before k behind' hold

/-- Every join hangs below the root or below an entity that is joined before it. -/
def LeftsPlaced : Plan → Prop :=
  EachJoin fun bindings j => ∃ b ∈ bindings, b.entity.same j.left = true

theorem Step.leftsPlaced (h : Step Known p q) (hp : p.LeftsPlaced) : q.LeftsPlaced := by
  cases h with
  | condition clause known reads translated | order known reads translated
  | projection known reads translated registered
  | aggregationKey grouped known named reads translated =>
      obtain ⟨b, rule, rfl⟩ := translated
      exact hp
  | limit n | offset n => exact hp
  | join known fresh leftKey old rightKey new translated registered apart =>
      obtain ⟨b, rule, rfl⟩ := translated
      exact EachJoin.addJoin hp (participates_iff.1 old)

theorem Built.leftsPlaced {start : Plan} {keys : List (String × Expr)}
    (h : Built Known start keys p) (hstart : start.LeftsPlaced) : p.LeftsPlaced := by
  refine h.induction hstart (fun _ _ old step => step.leftsPlaced old) (fun _ old => old) ?_
  rintro p _ key old ⟨grouped, known, named, reads, b, rule, rfl⟩
  exact old

section

variable (one : ∀ E F, Known E → Known F → E.same F = true → E = F)

include one

/-- The alias of a participant is that of its binding. -/
theorem Scoped.exists_binding {label : String} (h : p.Scoped)
    (known : ∀ b ∈ p.bindings, Known b.entity) (hE : Known E) (reads : p.participates E = true)
    (hlabel : p.aliases.lookup? E = some label) :
    ∃ b ∈ p.bindings, b.entity = E ∧ b.label = label := by
  obtain ⟨b, hb, hsame, hlookup⟩ := h.binding_of reads
  have hentity : b.entity = E := one b.entity E (known b hb) hE hsame
  exact ⟨b, hb, hentity, Option.some.inj (hlookup.symm.trans hlabel)⟩

end

end Plan

namespace Build

open Plan

variable {d : Build} {naming : Naming} {log : CallLog} {p : Plan}

/-- Entities with the same type name and table are one descriptor. -/
def OneDescriptor (d : Build) : Prop :=
  ∀ E F, E ∈ d.entities → F ∈ d.entities → E.same F = true → E = F

theorem root_mem_entities : d.root ∈ d.entities := by
  simp [entities]

theorem showing_of_plan (h : d.plan naming log = .ok p) :
    p.Showing fun c x => (c, x) ∈ d.sources := by
  refine (makes_of_plan h).induction (.new _ _ _) ?_
    (fun _ old unsorted => old.beginGrouping unsorted) ?_
  · intro a ha p q old taken
    refine taken.showing (fun x hx => ?_) old
    exact List.mem_append_left _ (List.mem_filterMap.2 ⟨a, ha, by simp [hx]⟩)
  · intro key hkey p q old step
    exact step.showing (List.mem_append_right _ (List.mem_map_of_mem hkey)) old

/-- A plan that calls lead to is scoped, and all that is joined was given. -/
theorem scoped_of_plan (h : d.plan naming log = .ok p) :
    p.Scoped ∧ ∀ b ∈ p.bindings, b.entity ∈ d.entities := by
  have built : Built (· ∈ d.entities) (.new d.root naming log) d.keys p :=
    built_of_plan (fun _ hE => hE) h
  refine ⟨built.scoped (.new _ _ _), built.known ?_⟩
  exact List.forall_mem_singleton.2 root_mem_entities

/-- What a fragment shows is a field that its call reads, of the root or of a joined entity and
behind its alias. -/
theorem field_of_shown (one : d.OneDescriptor) (h : d.plan naming log = .ok p) {c : Clause}
    {t : Sql.Token} (shown : p.Shown (fun c x => (c, x) ∈ d.sources) c t) :
    ∃ x name g, ∃ b ∈ p.bindings, (c, x) ∈ d.sources ∧ .field b.entity name ∈ x.nodes ∧
      b.entity.field? name = some g ∧ t = (p.context c).written b.label g := by
  obtain ⟨scope, known⟩ := scoped_of_plan h
  obtain ⟨x, given, reads, E, name, g, label, hnode, hfield, hlabel, ht⟩ := shown
  have row : .row E ∈ x.nodes := Expr.row_mem_nodes_of_field hnode
  have own : E ∈ x.entities := List.mem_flatMap.2 ⟨_, row, by simp [Expr.ownEntities]⟩
  have hE : E ∈ d.entities := entities_of_sources given E own
  obtain ⟨b, hb, rfl, rfl⟩ := scope.exists_binding one known hE (reads E row) hlabel
  exact ⟨x, name, g, b, hb, given, hnode, hfield, ht⟩

/-- The orders of customers with a name, the largest first. -/
def ordersOfCustomers : Build :=
  ⟨Demo.order,
    [.join .inner Demo.customer (.field Demo.order "customer_id") (.field Demo.customer "id"),
      .filter (.comparison .eq (.field Demo.customer "name") (Demo.text "Ada")),
      .orderBy Demo.total .descending], none⟩

theorem eq_of_mem_ordersOfCustomers {E : Entity} (hE : E ∈ ordersOfCustomers.entities) :
    E = Demo.order ∨ E = Demo.customer := by
  simp [entities, ordersOfCustomers, Query.Call.entities, Demo.text, Demo.total] at hE
  tauto

theorem oneDescriptor_of_demo (h : ∀ E ∈ d.entities, E = Demo.order ∨ E = Demo.customer) :
    d.OneDescriptor := by
  intro E F hE hF same
  rcases h E hE with rfl | rfl <;> rcases h F hF with rfl | rfl
  · rfl
  · exact absurd same (by decide)
  · exact absurd same (by decide)
  · rfl

end Build

end TypedQuery
