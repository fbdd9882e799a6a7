import Mathlib.Logic.Relation
import TypedQuery.Proofs.Sql.Placeholders

/-!
# What translating leaves behind

A translation registers entities and binds values, and takes nothing back: an alias that was given
and a value that was bound stay as they are.
-/

namespace TypedQuery

open TypedQuery.Sql TypedQuery.Sql.Fragment

namespace Aliases

/-- Some entities are registered one after the other. -/
def Grows : Aliases → Aliases → Prop :=
  Relation.ReflTransGen fun a as => ∃ e label, a.aliasFor e = .ok (label, as)

variable {a as : Aliases} {e : Entity} {label : String}

/-- An entity is registered when its entry is there. -/
theorem aliasFor_self_iff : a.aliasFor e = .ok (label, a) ↔
    ∃ entry, a.entry? e.typeName = some entry ∧ entry.entity.table = e.table ∧
      label = entry.label := by
  constructor
  · intro h
    rcases of_aliasFor_ok h with ⟨entry, hentry, htable, hlabel, -⟩ | ⟨-, -, hgrown⟩
    · exact ⟨entry, hentry, htable, hlabel⟩
    · have hsize := congrArg size hgrown
      simp [size] at hsize
  · rintro ⟨entry, hentry, htable, rfl⟩
    exact aliasFor_of_registered hentry htable

/-- An alias that was given is the alias from then on. -/
theorem aliasFor_again (h : a.aliasFor e = .ok (label, as)) : as.aliasFor e = .ok (label, as) := by
  rcases of_aliasFor_ok h with ⟨entry, hentry, htable, rfl, rfl⟩ | ⟨hnone, -, rfl⟩
  · exact h
  · refine aliasFor_self_iff.2 ⟨⟨e, label⟩, ?_, rfl, rfl⟩
    unfold entry? at hnone ⊢
    rw [List.find?_append, hnone]
    simp

namespace Grows

theorem of_aliasFor (h : a.aliasFor e = .ok (label, as)) : a.Grows as := .single ⟨e, label, h⟩

theorem plain (h : a.Grows as) (plain : a.Plain) : as.Plain := by
  induction h with
  | refl => exact plain
  | tail _ step ih =>
      obtain ⟨e, label, h⟩ := step
      exact (ih.aliasFor h).2

/-- An entity that is registered keeps its alias. -/
theorem aliasFor (h : a.Grows as) (registered : a.aliasFor e = .ok (label, a)) :
    as.aliasFor e = .ok (label, as) := by
  induction h with
  | refl => exact registered
  | tail _ step ih =>
      obtain ⟨e', label', h⟩ := step
      obtain ⟨entry, hentry, htable, hlabel⟩ := aliasFor_self_iff.1 ih
      refine aliasFor_self_iff.2 ⟨entry, ?_, htable, hlabel⟩
      rcases of_aliasFor_ok h with ⟨-, -, -, -, rfl⟩ | ⟨-, -, rfl⟩
      · exact hentry
      · unfold entry? at hentry ⊢
        rw [List.find?_append, hentry]
        rfl

theorem lookup? (h : a.Grows as) (registered : a.lookup? e = some label) :
    as.lookup? e = some label := by
  induction h with
  | refl => exact registered
  | tail _ step ih =>
      obtain ⟨e', label', h⟩ := step
      rcases of_aliasFor_ok h with ⟨-, -, -, -, rfl⟩ | ⟨-, -, rfl⟩
      · exact ih
      · obtain ⟨entry, hentry, hlabel⟩ := Option.map_eq_some_iff.1 ih
        rw [Aliases.lookup?, List.find?_append, hentry]
        exact congrArg some hlabel

end Grows

end Aliases

namespace Sql

section

variable {c : Context} {x : Expr} {b b' : Binder} {f : Fragment}

theorem Projects.grows {target : Entity} {label : String} {seen : List String}
    {bs : List (String × Expr)} {columns : List Fragment}
    (h : Projects target label seen bs b columns b') : b.aliases.Grows b'.aliases := by
  induction h with
  | nil => exact .refl
  | cons field fresh sourceField registered others ih =>
      exact (Aliases.Grows.of_aliasFor registered).trans ih

/-- Translating only registers entities. -/
theorem Translates.grows (h : Translates c x b f b') : b.aliases.Grows b'.aliases := by
  induction h with
  | literal | constant =>
      rw [Binder.aliases_bound]
      exact .refl
  | column field rows registered => exact .of_aliasFor registered
  | groupedColumn | emptySet | countRows => exact .refl
  | testLeft null word operand ih | testRight other null word operand ih => exact ih
  | comparison order noTest left right ihl ihr => exact ihl.trans ihr
  | arithmetic noOrder reads left right ihl ihr => exact ihl.trans ihr
  | logical left right ihl ihr => exact ihl.trans ihr
  | between predicates target low high iht ihl ihh => exact (iht.trans ihl).trans ihh
  | like predicates target pattern iht ihp => exact iht.trans ihp
  | memberOf predicates membership value nonempty target ih =>
      rw [Binder.aliases_boundAll]
      exact ih
  | aggregate aggregates argument ih => exact ih
  | projection select nonempty registered bindings =>
      exact (Aliases.Grows.of_aliasFor registered).trans bindings.grows

/-- What the first state has registered and bound is still so in the second one. -/
structure Binder.Before (b last : Binder) : Prop where
  aliases : b.aliases.Grows last.aliases
  params : b.params.values <+: last.params.values
  stem : last.params.stem = b.params.stem

theorem Translates.before (h : Translates c x b f b') : b.Before b' := by
  obtain ⟨vs, hparams, -, -⟩ := h.numbers
  exact ⟨h.grows, hparams ▸ List.prefix_append _ vs, h.numbers.stem⟩

theorem Binder.Before.refl (b : Binder) : b.Before b := ⟨.refl, List.prefix_refl _, rfl⟩

theorem Binder.Before.trans {b b' b'' : Binder} (h : b.Before b') (h' : b'.Before b'') :
    b.Before b'' :=
  ⟨h.aliases.trans h'.aliases, h.params.trans h'.params, h'.stem.trans h.stem⟩

/-- The expression is translated to the fragment after the first state and before the last one. -/
def TranslatesBetween (c : Context) (first last : Binder) (x : Expr) (f : Fragment) : Prop :=
  ∃ b b', first.Before b ∧ Translates c x b f b' ∧ b'.Before last

theorem TranslatesBetween.widen {first first' last last' : Binder}
    (h : TranslatesBetween c first last x f) (before : first'.Before first)
    (behind : last.Before last') : TranslatesBetween c first' last' x f := by
  obtain ⟨b, b', hfirst, rule, hlast⟩ := h
  exact ⟨b, b', before.trans hfirst, rule, hlast.trans behind⟩

end

end Sql

end TypedQuery
