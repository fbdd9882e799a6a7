import Mathlib.Data.List.Forall2
import TypedQuery.Proofs.Outcome
import TypedQuery.Proofs.Sql.Growth
import TypedQuery.Query

/-!
# Building plans

A sequence of builder calls is a value: calls on a query, and after grouping calls on the grouped
query. Whatever the calls are, the plan grows by a few kinds of steps. Statements about all plans
that can be built are proved for each kind of step and never open the calls.
-/

namespace TypedQuery

open TypedQuery.Sql TypedQuery.Sql.Fragment

/-- A call on a query. -/
inductive Query.Call where
  | filter (x : Expr)
  | join (type : JoinType) (related : Entity) (leftKey rightKey : Expr)
  | orderBy (x : Expr) (o : SortOrder)
  | limit (n : Nat)
  | offset (n : Nat)
  | select (target : Entity) (projection : Expr)

/-- A call on a grouped query. -/
inductive GroupedQuery.Call where
  | filter (x : Expr)
  | join (type : JoinType) (related : Entity) (leftKey rightKey : Expr)
  | aggregate (name : String) (x : Expr)
  | having (x : Expr)
  | orderBy (x : Expr) (o : SortOrder)
  | limit (n : Nat)
  | offset (n : Nat)

namespace Query

def call (q : Query) : Call → Except QueryError Query
  | .filter x => q.filter x
  | .join type related l r => q.join type related l r
  | .orderBy x o => q.orderBy x o
  | .limit n => .ok (q.limit n)
  | .offset n => .ok (q.offset n)
  | .select target x => q.select target x

/-- The entities that a call reads or joins. -/
def Call.entities : Call → List Entity
  | .filter x | .orderBy x _ | .select _ x => x.entities
  | .join _ related l r => related :: (l.entities ++ r.entities)
  | .limit _ | .offset _ => []

end Query

namespace GroupedQuery

def call (q : GroupedQuery) : Call → Except QueryError GroupedQuery
  | .filter x => q.filter x
  | .join type related l r => q.join type related l r
  | .aggregate name x => q.aggregate name x
  | .having x => q.having x
  | .orderBy x o => q.orderBy x o
  | .limit n => .ok (q.limit n)
  | .offset n => .ok (q.offset n)

/-- The entities that a call reads or joins. -/
def Call.entities : Call → List Entity
  | .filter x | .aggregate _ x | .having x | .orderBy x _ => x.entities
  | .join _ related l r => related :: (l.entities ++ r.entities)
  | .limit _ | .offset _ => []

end GroupedQuery

/-- Grouping keys and the calls after them. -/
structure Build.Grouping where
  keys : List (String × Expr)
  calls : List GroupedQuery.Call

/-- A query as the calls that make it. -/
structure Build where
  root : Entity
  calls : List Query.Call
  grouping : Option Build.Grouping

namespace Build

/-- The statement that the calls end with, unless one of them fails. -/
def compile (d : Build) (naming : Naming) (log : CallLog) : Except QueryError Statement := do
  let q ← d.calls.foldlM Query.call (Query.new d.root naming log)
  match d.grouping with
  | none => q.compile
  | some grouping =>
    let grouped ← q.groupBy grouping.keys
    let grouped ← grouping.calls.foldlM GroupedQuery.call grouped
    grouped.compile

/-- The plan that the calls lead to, unless one of them fails. -/
def plan (d : Build) (naming : Naming) (log : CallLog) : Except QueryError Plan := do
  let q ← d.calls.foldlM Query.call (Query.new d.root naming log)
  match d.grouping with
  | none => .ok q.plan
  | some grouping =>
    let grouped ← q.groupBy grouping.keys
    let grouped ← grouping.calls.foldlM GroupedQuery.call grouped
    .ok grouped.plan

theorem compile_eq (d : Build) (naming : Naming) (log : CallLog) :
    d.compile naming log = d.plan naming log >>= Plan.statement := by
  unfold compile plan
  rw [bind_assoc]
  congr 1
  funext q
  split
  · rfl
  · rw [bind_assoc]
    congr 1
    funext grouped
    rw [bind_assoc]
    rfl

/-- The grouping keys. -/
def keys (d : Build) : List (String × Expr) :=
  match d.grouping with
  | none => []
  | some grouping => grouping.keys

/-- The entities that the calls read or join. -/
def entities (d : Build) : List Entity :=
  d.root :: d.calls.flatMap Query.Call.entities ++ d.grouping.toList.flatMap fun grouping =>
    (grouping.keys.flatMap fun key => key.2.entities) ++
      grouping.calls.flatMap GroupedQuery.Call.entities

end Build

namespace Plan

/-- The expression is translated for a clause, which leaves the plan with what was bound. -/
def Translated (p : Plan) (c : Clause) (x : Expr) (f : Fragment) (q : Plan) : Prop :=
  ∃ b, Translates ⟨p.naming, p.grouped, c⟩ x p.binder f b ∧ q = { p with binder := b }

/-- The ways in which a plan grows. All entities that are brought in are known. Groups are filtered
and get columns only after grouping. -/
inductive Step (Known : Entity → Prop) (p : Plan) : Plan → Prop
  | condition {c x f q} (clause : c = .where ∨ c = .having ∧ p.grouped = true)
      (known : ∀ E ∈ x.entities, Known E) (reads : p.checkParticipants x = .ok ())
      (translated : p.Translated c x f q) :
      Step Known p (q.push c f)
  | order {x o f q} (known : ∀ E ∈ x.entities, Known E)
      (reads : p.checkParticipants x = .ok ()) (translated : p.Translated .orderBy x f q) :
      Step Known p (q.push .orderBy (f ++ [.space, .keyword (SortOrder.symbol o)]))
  | join {type left right related l r label f q}
      (known : ∀ E ∈ related :: (l.entities ++ r.entities), Known E)
      (fresh : p.participates related = false)
      (leftKey : joinKeyEntity l = .ok left) (old : p.participates left = true)
      (rightKey : joinKeyEntity r = .ok right) (new : right.same related = true)
      (translated : p.Translated .join (.comparison .eq l r) f q)
      (registered : q.aliases.lookup? related = some label)
      (apart : q.collision? (.full related label) = none) :
      Step Known p (q.addJoin ⟨type, left, .full related label, f⟩)
  | projection {target constructed bindings label fields f q}
      (known : ∀ E ∈ (Expr.construct constructed bindings).entities, Known E)
      (reads : p.checkParticipants (.construct constructed bindings) = .ok ())
      (translated : p.Translated .select (.construct constructed bindings) f q)
      (registered : q.aliases.lookup? target = some label) :
      Step Known p (q.setProjection ⟨target, label, fields⟩ f)
  | aggregationKey {name x f q} (grouped : p.grouped = true) (known : ∀ E ∈ x.entities, Known E)
      (named : p.checkOutputName name = .ok ()) (reads : p.checkParticipants x = .ok ())
      (translated : p.Translated .selectAggregate x f q) :
      Step Known p (q.addAggregationKey ⟨name, x.outputKind⟩ f)
  | limit (n : Nat) : Step Known p (p.push .limit [.number n])
  | offset (n : Nat) : Step Known p (p.push .offset [.number n])

/-- A named grouping key is added to a grouped plan. -/
inductive KeyStep (Known : Entity → Prop) (p : Plan) : String × Expr → Plan → Prop
  | add {name x f q} (grouped : p.grouped = true) (known : ∀ E ∈ x.entities, Known E)
      (named : p.checkOutputName name = .ok ()) (reads : p.checkParticipants x = .ok ())
      (translated : p.Translated .groupBy x f q) :
      KeyStep Known p (name, x) (q.addGroupingKey ⟨name, x.outputKind⟩ f)

/-- Some steps in a row. -/
abbrev Steps (Known : Entity → Prop) : Plan → Plan → Prop := Relation.ReflTransGen (Step Known)

/-- Some grouping keys are added one after the other. -/
inductive KeySteps (Known : Entity → Prop) : List (String × Expr) → Plan → Plan → Prop
  | nil {p} : KeySteps Known [] p p
  | cons {key keys p q r} (first : KeyStep Known p key q) (rest : KeySteps Known keys q r) :
      KeySteps Known (key :: keys) p r

/-- A plan that steps lead to, in between which the rows are grouped by the keys, if there are
any. -/
inductive Built (Known : Entity → Prop) (start : Plan) : List (String × Expr) → Plan → Prop
  | rows {p} (steps : Steps Known start p) : Built Known start [] p
  | groups {keys p q r} (rows : Steps Known start p) (keyed : keys ≠ [])
      (group : KeySteps Known keys p.beginGrouping q) (groups : Steps Known q r) :
      Built Known start keys r

variable {Known : Entity → Prop} {start p q : Plan} {c : Clause} {x : Expr} {f : Fragment}

/-- What holds of a plan after each of some steps holds at the end. -/
theorem Steps.induction {motive : Plan → Prop} (h : Steps Known p q) (first : motive p)
    (step : ∀ p q, motive p → Step Known p q → motive q) : motive q := by
  induction h with
  | refl => exact first
  | tail _ last ih => exact step _ _ ih last

/-- What holds of a plan after each of some keys holds at the end. -/
theorem KeySteps.induction {motive : Plan → Prop} {keys : List (String × Expr)}
    (h : KeySteps Known keys p q) (first : motive p)
    (step : ∀ key ∈ keys, ∀ p q, motive p → KeyStep Known p key q → motive q) : motive q := by
  induction h with
  | nil => exact first
  | cons next rest ih =>
      obtain ⟨hnext, hrest⟩ := List.forall_mem_cons.1 step
      exact ih (hnext _ _ first next) hrest

theorem KeySteps.mono {Known' : Entity → Prop} {keys : List (String × Expr)}
    (h : KeySteps Known keys p q) (known : ∀ E, Known E → Known' E) : KeySteps Known' keys p q := by
  induction h with
  | nil => exact .nil
  | cons first rest ih =>
      obtain ⟨grouped, old, named, reads, translated⟩ := first
      exact .cons (.add grouped (fun E hE => known E (old E hE)) named reads translated) ih

/-- What holds at the start and is kept by steps, by grouping and by keys holds of a plan that is
built. -/
theorem Built.induction {motive : Plan → Prop} {keys : List (String × Expr)}
    (h : Built Known start keys p) (first : motive start)
    (step : ∀ p q, motive p → Step Known p q → motive q)
    (group : ∀ p, motive p → motive p.beginGrouping)
    (key : ∀ p q key, motive p → KeyStep Known p key q → motive q) : motive p := by
  cases h with
  | rows steps => exact steps.induction first step
  | groups rows keyed grouping groups =>
      exact groups.induction (grouping.induction (group _ (rows.induction first step))
        fun k _ p q => key p q k) step

theorem Translated.naming (h : p.Translated c x f q) : q.naming = p.naming := by
  obtain ⟨b, -, rfl⟩ := h
  rfl

theorem Translated.grouped (h : p.Translated c x f q) : q.grouped = p.grouped := by
  obtain ⟨b, -, rfl⟩ := h
  rfl

theorem Translated.before (h : p.Translated c x f q) : p.binder.Before q.binder := by
  obtain ⟨b, rule, rfl⟩ := h
  exact rule.before

theorem Step.naming (h : Step Known p q) : q.naming = p.naming := by
  cases h with
  | condition clause known reads translated | order known reads translated
  | projection known reads translated registered
  | aggregationKey grouped known named reads translated => exact translated.naming
  | join known fresh leftKey old rightKey new translated registered apart => exact translated.naming
  | limit n | offset n => rfl

theorem Steps.naming (h : Steps Known p q) : q.naming = p.naming :=
  h.induction (motive := fun q => q.naming = p.naming) rfl
    (fun _ _ old step => step.naming.trans old)

theorem KeyStep.naming {key : String × Expr} (h : KeyStep Known p key q) :
    q.naming = p.naming := by
  obtain ⟨grouped, known, named, reads, translated⟩ := h
  exact translated.naming

theorem Built.naming {keys : List (String × Expr)} (h : Built Known start keys p) :
    p.naming = start.naming := by
  refine h.induction (motive := fun p => p.naming = start.naming) rfl ?_ (fun _ old => old) ?_
  · exact fun _ _ old step => step.naming.trans old
  · exact fun _ _ _ old step => step.naming.trans old

/-- What is registered and bound is still so after a step. -/
theorem Step.before (h : Step Known p q) : p.binder.Before q.binder := by
  cases h with
  | condition clause known reads translated | order known reads translated
  | projection known reads translated registered
  | aggregationKey grouped known named reads translated => exact translated.before
  | join known fresh leftKey old rightKey new translated registered apart => exact translated.before
  | limit n | offset n => exact .refl _

theorem Steps.before (h : Steps Known p q) : p.binder.Before q.binder :=
  h.induction (motive := fun q => p.binder.Before q.binder) (.refl _)
    (fun _ _ old step => old.trans step.before)

theorem KeyStep.before {key : String × Expr} (h : KeyStep Known p key q) :
    p.binder.Before q.binder := by
  obtain ⟨grouped, known, named, reads, translated⟩ := h
  exact translated.before

theorem KeySteps.before {keys : List (String × Expr)} (h : KeySteps Known keys p q) :
    p.binder.Before q.binder :=
  h.induction (motive := fun q => p.binder.Before q.binder) (.refl _)
    (fun _ _ _ _ old step => old.trans step.before)

/-- Only grouping makes a plan a grouped one. -/
theorem Step.grouped (h : Step Known p q) : q.grouped = p.grouped := by
  cases h with
  | condition clause known reads translated | order known reads translated
  | projection known reads translated registered
  | aggregationKey grouped known named reads translated => exact translated.grouped
  | join known fresh leftKey old rightKey new translated registered apart => exact translated.grouped
  | limit n | offset n => rfl

theorem Steps.grouped (h : Steps Known p q) : q.grouped = p.grouped :=
  h.induction (motive := fun q => q.grouped = p.grouped) rfl
    (fun _ _ old step => step.grouped.trans old)

theorem KeyStep.grouped {key : String × Expr} (h : KeyStep Known p key q) : q.grouped = true := by
  obtain ⟨grouped, known, named, reads, translated⟩ := h
  exact translated.grouped.trans grouped

theorem KeySteps.grouped {keys : List (String × Expr)} (h : KeySteps Known keys p q)
    (hp : p.grouped = true) : q.grouped = true :=
  h.induction (motive := fun q => q.grouped = true) hp fun _ _ _ _ _ step => step.grouped

/-- Grouping keys and their fragments are only added by grouping. -/
theorem Step.keys (h : Step Known p q) :
    q.groupingKeys = p.groupingKeys ∧ q.fragmentsOf .groupBy = p.fragmentsOf .groupBy := by
  have other {r : Plan} {d : Clause} {g : Fragment} (hd : d ≠ .groupBy) :
      (r.push d g).fragmentsOf .groupBy = r.fragmentsOf .groupBy := fragmentsOf_push_of_ne r g hd
  cases h with
  | condition clause known reads translated =>
      obtain ⟨b, -, rfl⟩ := translated
      rcases clause with rfl | ⟨rfl, -⟩ <;> exact ⟨rfl, other (by decide)⟩
  | order known reads translated | projection known reads translated registered
  | aggregationKey grouped known named reads translated
  | join known fresh leftKey old rightKey new translated registered apart =>
      obtain ⟨b, -, rfl⟩ := translated
      exact ⟨rfl, other (by decide)⟩
  | limit n | offset n => exact ⟨rfl, other (by decide)⟩

theorem Steps.keys (h : Steps Known p q) :
    q.groupingKeys = p.groupingKeys ∧ q.fragmentsOf .groupBy = p.fragmentsOf .groupBy := by
  refine h.induction (motive := fun q => q.groupingKeys = p.groupingKeys ∧
    q.fragmentsOf .groupBy = p.fragmentsOf .groupBy) ⟨rfl, rfl⟩ fun r q old step => ?_
  obtain ⟨hkeys, hfragments⟩ := step.keys
  exact ⟨hkeys.trans old.1, hfragments.trans old.2⟩

/-- The key stands behind those before, and so does its translation. -/
theorem KeyStep.keys {key : String × Expr} (h : KeyStep Known p key q) :
    q.groupingKeys = p.groupingKeys ++ [⟨key.1, key.2.outputKind⟩] ∧
      ∃ f, q.fragmentsOf .groupBy = p.fragmentsOf .groupBy ++ [f] ∧
        TranslatesBetween ⟨p.naming, true, .groupBy⟩ p.binder q.binder key.2 f := by
  obtain ⟨grouped, known, named, reads, b, rule, rfl⟩ := h
  rw [grouped] at rule
  exact ⟨rfl, _, fragmentsOf_push_self _ _ _, p.binder, b, .refl _, rule, .refl _⟩

theorem KeySteps.keys {keys : List (String × Expr)} (h : KeySteps Known keys p q) :
    q.groupingKeys = p.groupingKeys ++ keys.map (fun key => ⟨key.1, key.2.outputKind⟩) ∧
      ∃ fs, q.fragmentsOf .groupBy = p.fragmentsOf .groupBy ++ fs ∧
        List.Forall₂ (fun key =>
          TranslatesBetween ⟨p.naming, true, .groupBy⟩ p.binder q.binder key.2) keys fs := by
  induction h with
  | nil => exact ⟨by simp, [], by simp, .nil⟩
  | cons first rest ih =>
      obtain ⟨hkeys, f, hfragment, hfirst⟩ := first.keys
      obtain ⟨hrest, fs, hfragments, hothers⟩ := ih
      rw [first.naming] at hothers
      rw [hrest, hkeys, hfragments, hfragment]
      refine ⟨by simp, f :: fs, by simp, .cons (hfirst.widen (.refl _) rest.before) ?_⟩
      exact hothers.imp fun _ _ h => h.widen first.before (.refl _)

/-- The grouping keys of a plan that is built, each with its translation. -/
theorem Built.keys {root : Entity} {naming : Naming} {log : CallLog}
    {keys : List (String × Expr)} (h : Built Known (.new root naming log) keys p) :
    p.groupingKeys = keys.map (fun key => ⟨key.1, key.2.outputKind⟩) ∧
      List.Forall₂ (fun key => TranslatesBetween ⟨naming, true, .groupBy⟩
        (Plan.new root naming log).binder p.binder key.2) keys (p.fragmentsOf .groupBy) := by
  have hnew : (Plan.new root naming log).fragmentsOf .groupBy = [] := rfl
  cases h with
  | rows steps =>
      obtain ⟨hkeys, hfragments⟩ := steps.keys
      rw [hkeys, hfragments, hnew]
      exact ⟨rfl, .nil⟩
  | @groups _ p₀ _ _ rows keyed group groups =>
      obtain ⟨hkeys, hfragments⟩ := groups.keys
      obtain ⟨hkeys', fs, hfragments', translations⟩ := group.keys
      obtain ⟨hkeys'', hfragments''⟩ := rows.keys
      have hbegin : p₀.beginGrouping.fragmentsOf .groupBy = [] := hfragments''.trans hnew
      have hbegin' : p₀.beginGrouping.groupingKeys = [] := hkeys''
      have hnaming : p₀.beginGrouping.naming = naming := rows.naming
      rw [hnaming] at translations
      rw [hkeys, hfragments, hkeys', hfragments', hbegin, hbegin']
      exact ⟨rfl, translations.imp fun _ _ h => h.widen rows.before groups.before⟩

/-- Each grouping key of a plan that is built has one fragment. -/
theorem Built.length_fragments {root : Entity} {naming : Naming} {log : CallLog}
    {keys : List (String × Expr)} (h : Built Known (.new root naming log) keys p) :
    (p.fragmentsOf .groupBy).length = p.groupingKeys.length := by
  obtain ⟨hkeys, translations⟩ := h.keys
  rw [hkeys, List.length_map, translations.length_eq]

/-- A plan that is built is grouped when it has grouping keys. -/
theorem Built.grouped {keys : List (String × Expr)} (h : Built Known start keys p)
    (hstart : start.grouped = false) : p.grouped = !keys.isEmpty := by
  cases h with
  | rows steps => exact steps.grouped.trans hstart
  | groups rows keyed group groups =>
      rw [groups.grouped, group.grouped rfl,
        Bool.eq_false_iff.2 fun h => keyed (List.isEmpty_iff.1 h)]
      rfl

theorem translated_of_run (h : p.translate c x = (.ok f, q)) : p.Translated c x f q := by
  obtain ⟨hresult, hplan⟩ := Prod.mk.inj h
  refine ⟨_, translates_of_run _ x (Prod.ext hresult rfl), hplan.symm⟩

theorem translated_ok (h : p.translated c x = .ok (f, q)) : p.Translated c x f q := by
  unfold translated at h
  split at h
  · rename_i g r hrun
    obtain ⟨rfl, rfl⟩ := Prod.mk.inj (Except.ok.inj h)
    exact translated_of_run hrun
  · cases h

theorem checkedFragment_ok (h : p.checkedFragment c x = .ok (f, q)) :
    p.checkParticipants x = .ok () ∧ p.Translated c x f q := by
  obtain ⟨_, hreads, htranslated⟩ := Outcome.bind_ok.1 h
  exact ⟨hreads, translated_ok htranslated⟩

end Plan

end TypedQuery
