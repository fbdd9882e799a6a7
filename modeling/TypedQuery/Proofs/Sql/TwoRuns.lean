import TypedQuery.Proofs.Expr.Folding
import TypedQuery.Proofs.Sql.Rules

/-!
# Two translations side by side

Translations are compared by running both, from states with the same aliases and parameters. They
may differ in the log of calls, since an expression and its value do not call the same accessors.
Such translations match when both fail, or both succeed with related results and leave states that
differ in the log alone, again. Sequences match when their steps do.

Fragments are related by the number of places in which they differ. The pieces that stand in these
places are related, and what is around them is the same.
-/

namespace TypedQuery.Sql

open TypedQuery.Sql.Fragment

namespace Fragment

/-- The fragments are the same but for a number of places, in which related pieces stand. -/
inductive Places (R : Fragment → Fragment → Prop) : Nat → Fragment → Fragment → Prop
  | same {f} : Places R 0 f f
  | place {f g} (differ : R f g) : Places R 1 f g
  | append {m n f f' g g'} (first : Places R m f f') (second : Places R n g g') :
      Places R (m + n) (f ++ g) (f' ++ g')

/-- The fragments are the same but for one place, in which related pieces stand. -/
def ApartOnce (R : Fragment → Fragment → Prop) (f g : Fragment) : Prop :=
  ∃ before p q after, R p q ∧ f = before ++ p ++ after ∧ g = before ++ q ++ after

variable {R : Fragment → Fragment → Prop} {m n : Nat} {f f' g g' : Fragment}

namespace Places

theorem behind (before : Fragment) (h : Places R n f g) :
    Places R n (before ++ f) (before ++ g) := by
  have whole : Places R (0 + n) (before ++ f) (before ++ g) := .append .same h
  rwa [Nat.zero_add] at whole

theorem parens (h : Places R n f g) : Places R n (parens f) (Fragment.parens g) :=
  (h.behind [.lparen]).append .same

theorem around (left : Places R m f f') (t : Token) (right : Places R n g g') :
    Places R (m + n) (around f t g) (Fragment.around f' t g') :=
  left.append (right.behind [.space, t, .space])

theorem aggregateOf (a : Aggregate) (h : Places R n f g) :
    Places R n (aggregateOf a f) (Sql.aggregateOf a g) := by
  unfold Sql.aggregateOf
  split
  · exact (h.behind [.keyword "DISTINCT", .space]).parens.behind [.keyword a.symbol]
  · exact h.parens.behind [.keyword a.symbol]

theorem eq (h : Places R n f g) (none : n = 0) : f = g := by
  induction h with
  | same => rfl
  | place differ => cases none
  | append _ _ ihf ihg =>
      obtain ⟨first, second⟩ := Nat.add_eq_zero_iff.1 none
      rw [ihf first, ihg second]

/-- Around the one place everything is the same. -/
theorem apartOnce (h : Places R n f g) (one : n = 1) : ApartOnce R f g := by
  induction h with
  | same => cases one
  | place differ => exact ⟨[], _, _, [], differ, by simp, by simp⟩
  | @append _ _ f _ g _ first second ihf ihg =>
      rcases Nat.add_eq_one_iff.1 one with ⟨zero, one⟩ | ⟨one, zero⟩
      · obtain rfl := first.eq zero
        obtain ⟨before, p, q, after, differ, rfl, rfl⟩ := ihg one
        exact ⟨f ++ before, p, q, after, differ, by simp, by simp⟩
      · obtain rfl := second.eq zero
        obtain ⟨before, p, q, after, differ, rfl, rfl⟩ := ihf one
        exact ⟨before, p, q, after ++ g, differ, by simp, by simp⟩

end Places

end Fragment

/-- The states differ in the log of calls alone. -/
structure Binder.Agrees (b b' : Binder) : Prop where
  aliases : b.aliases = b'.aliases
  params : b.params = b'.params

namespace Binder.Agrees

variable {b b' : Binder}

theorem refl (b : Binder) : b.Agrees b := ⟨rfl, rfl⟩

theorem written (h : b.Agrees b') (v : Value) : b.written v = b'.written v := by
  rw [Binder.written, Binder.written, h.params]

theorem bound (h : b.Agrees b') (v : Value) : (b.bound v).Agrees (b'.bound v) := by
  rw [Binder.bound, Binder.bound]
  split
  · exact h
  · exact ⟨h.aliases, congrArg (·.push v) h.params⟩

end Binder.Agrees

namespace Translation

variable {α β : Type}

/-- Both runs have failed, or both have succeeded with related results and states that agree. -/
inductive EndAlike (R : α → α → Prop) :
    Except QueryError α × Binder → Except QueryError α × Binder → Prop
  | error {e e' b b'} : EndAlike R (.error e, b) (.error e', b')
  | ok {a a' b b'} (results : R a a') (states : b.Agrees b') : EndAlike R (.ok a, b) (.ok a', b')

/-- The translations end alike wherever the states agree. -/
def Matches (R : α → α → Prop) (x y : Translation α) : Prop :=
  ∀ ⦃b b'⦄, b.Agrees b' → EndAlike R (x.run b) (y.run b')

variable {R S : α → α → Prop} {x y : Translation α}

theorem Matches.mono (h : Matches R x y) (weaker : ∀ a a', R a a' → S a a') : Matches S x y := by
  intro b b' start
  have ends := h start
  generalize x.run b = out at ends ⊢
  generalize y.run b' = out' at ends ⊢
  cases ends with
  | error => exact .error
  | ok results states => exact .ok (weaker _ _ results) states

/-- One result differs from itself in no place. -/
theorem Matches.same {T : Fragment → Fragment → Prop} {x y : Translation Fragment}
    (h : Matches Eq x y) : Matches (Places T 0) x y :=
  h.mono fun _ _ heq => heq ▸ .same

/-- What the first run results in is a result of its translation. -/
theorem Matches.told (h : Matches R x y) :
    Matches (fun a a' => R a a' ∧ ∃ b, (x.run b).1 = .ok a) x y := by
  intro b b' start
  have ends := h start
  generalize first : x.run b = out at ends ⊢
  generalize y.run b' = out' at ends ⊢
  cases ends with
  | error => exact .error
  | ok results states => exact .ok ⟨results, b, by rw [first]⟩ states

theorem Matches.bind {T : β → β → Prop} {f g : α → Translation β} (first : Matches R x y)
    (second : ∀ a a', R a a' → Matches T (f a) (g a')) : Matches T (x >>= f) (y >>= g) := by
  intro b b' start
  rw [run_bind, run_bind]
  have ends := first start
  generalize x.run b = out at ends ⊢
  generalize y.run b' = out' at ends ⊢
  cases ends with
  | error => exact .error
  | ok results states => exact second _ _ results states

/-- Steps with one result in front of both. -/
theorem Matches.after {T : β → β → Prop} {f g : α → Translation β} (first : Matches Eq x y)
    (second : ∀ a, Matches T (f a) (g a)) : Matches T (x >>= f) (y >>= g) :=
  first.bind fun a _ heq => heq ▸ second a

theorem matches_pure {a a' : α} (h : R a a') : Matches R (pure a) (pure a') :=
  fun _ _ start => .ok h start

theorem matches_refuse (cause cause' : Unsupported) :
    Matches R (refuse cause : Translation α) (refuse cause') :=
  fun _ _ _ => .error

/-- Evaluations that give one outcome whatever was called before have it in both runs. -/
theorem matches_evaluate {x y : Eval α} {r : Except QueryError α} (hx : x.Gives r)
    (hy : y.Gives r) : Matches (fun a a' => a = a' ∧ r = .ok a) (evaluate x) (evaluate y) := by
  intro b b' start
  rw [run_evaluate, run_evaluate, hx, hy]
  cases r with
  | error e => exact .error
  | ok a => exact .ok ⟨rfl, rfl⟩ ⟨start.aliases, start.params⟩

/-- An evaluation on one side alone does no more than to give its value. -/
theorem Matches.evaluated {z : Eval β} {f : β → Translation α} {v : β} (hz : z.Gives (.ok v))
    (h : Matches R (f v) y) : Matches R (evaluate z >>= f) y := by
  intro b b' start
  rw [run_bind, run_evaluate, hz]
  exact h ⟨start.aliases, start.params⟩

theorem matches_aliasFor (e : Entity) : Matches Eq (aliasFor e) (aliasFor e) := by
  intro b b' start
  rw [run_aliasFor, run_aliasFor, start.aliases]
  cases (b'.aliases.request e).1 with
  | error err => exact .error
  | ok label => exact .ok rfl ⟨rfl, start.params⟩

theorem matches_fieldOf (e : Entity) (name : String) :
    Matches Eq (fieldOf e name) (fieldOf e name) := by
  unfold fieldOf
  cases e.field? name with
  | none => exact fun _ _ _ => .error
  | some f => exact matches_pure rfl

theorem matches_bind (v : Value) : Matches Eq (Translation.bind v) (Translation.bind v) := by
  intro b b' start
  rw [run_bind_value, run_bind_value]
  exact .ok (start.written v) (start.bound v)

theorem matches_bindScalar (v : Value) : Matches Eq (bindScalar v) (bindScalar v) := by
  cases v with
  | list items => exact matches_refuse _ _
  | _ => exact matches_bind _

theorem matches_bindAll (vs : List Value) :
    Matches Eq (Context.bindAll vs) (Context.bindAll vs) := by
  induction vs with
  | nil => exact matches_pure rfl
  | cons v vs ih =>
      exact (matches_bind v).after fun f => ih.after fun fs => matches_pure rfl

theorem matches_checkHelper (c : Context) (h : PredicateHelper) {args args' : List Expr}
    (length : args.length = args'.length) :
    Matches Eq (checkHelper c h args) (checkHelper c h args') := by
  unfold checkHelper
  rw [length]
  split
  · exact matches_refuse _ _
  split
  · exact matches_refuse _ _
  · exact matches_pure rfl

variable (c : Context)

theorem matches_column (e : Entity) (name : String) :
    Matches Eq (c.column e name) (c.column e name) := by
  unfold Context.column
  refine (matches_fieldOf e name).after fun f => ?_
  split
  · intro b b' start
    rw [run_bind, run_bind, run_get, run_get]
    dsimp only
    rw [start.aliases]
    cases b'.aliases.lookup? e with
    | none => exact .error
    | some label => exact .ok rfl start
  · exact (matches_aliasFor e).after fun label => matches_pure rfl

/-- Of a projection its names and the fields that are its sources matter. -/
theorem matches_bindings (target : Entity) (label : String) {bs bs' : List (String × Expr)}
    (sources : List.Forall₂ (fun p q => p.1 = q.1 ∧ p.2.asField? = q.2.asField?) bs bs')
    (seen : List String) : Matches Eq (Context.bindings target label seen bs)
      (Context.bindings target label seen bs') := by
  induction sources generalizing seen with
  | nil => exact matches_pure rfl
  | @cons p q bs bs' source _ ih =>
      obtain ⟨name, x⟩ := p
      obtain ⟨name', y⟩ := q
      obtain ⟨rfl, field⟩ : name = name' ∧ x.asField? = y.asField? := source
      unfold Context.bindings
      refine (matches_fieldOf target name).after fun f => ?_
      split
      · exact matches_refuse _ _
      rw [field]
      split
      · exact matches_refuse _ _
      · refine (matches_fieldOf _ _).after fun g => (matches_aliasFor _).after fun from_ => ?_
        exact (ih _).after fun columns => matches_pure rfl

theorem matches_projection (target : Entity) {bs bs' : List (String × Expr)}
    (sources : List.Forall₂ (fun p q => p.1 = q.1 ∧ p.2.asField? = q.2.asField?) bs bs') :
    Matches Eq (c.projection target bs) (c.projection target bs') := by
  unfold Context.projection
  have empty : bs.isEmpty = bs'.isEmpty := by cases sources <;> rfl
  rw [empty]
  split
  · exact matches_refuse _ _
  split
  · exact matches_refuse _ _
  · refine (matches_aliasFor target).after fun label => ?_
    exact (matches_bindings target label sources []).after fun columns => matches_pure rfl

end Translation

end TypedQuery.Sql
