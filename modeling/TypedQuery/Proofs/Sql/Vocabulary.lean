import Mathlib.Data.List.Chain
import TypedQuery.Config.Basic
import TypedQuery.Proofs.Expr.Nodes
import TypedQuery.Proofs.Number.Digits
import TypedQuery.Proofs.Sql.Rules

/-!
# The vocabulary of fragments

The text of a fragment beside its placeholders is made of few characters, provided that the
names in it are plain words. A placeholder is followed by a blank, a line break, a comma or a
closing parenthesis, so its number ends where the next token begins.
-/

namespace TypedQuery

namespace Naming

theorem isPlain_iff {s : String} :
    isPlain s = true ↔ ∃ c cs, s.toList = c :: cs ∧ Identifier.isStart c = true ∧
      cs.all Identifier.isPart = true := by
  unfold isPlain
  rcases s.toList with _ | ⟨c, cs⟩
  · simp
  · simp [Identifier.isStart, Identifier.isPart]

end Naming

namespace Identifier

theorem isPart_of_isStart {c : Char} (h : isStart c = true) : isPart c = true := by
  simp only [isStart, isPart, Char.isAlphanum, Bool.or_eq_true] at h ⊢
  tauto

theorem isPart_of_isDigit {c : Char} (h : c.isDigit = true) : isPart c = true := by
  simp [isPart, Char.isAlphanum, h]

end Identifier

/-- All characters are those of identifiers. -/
def IsWord (s : String) : Prop := ∀ c ∈ s.toList, Identifier.isPart c = true

namespace IsWord

theorem of_isPlain {s : String} (h : Naming.isPlain s = true) : IsWord s := by
  obtain ⟨c, cs, hs, hc, hcs⟩ := Naming.isPlain_iff.1 h
  intro d hd
  rw [hs] at hd
  rcases List.mem_cons.1 hd with rfl | hd
  · exact Identifier.isPart_of_isStart hc
  · exact List.all_eq_true.1 hcs d hd

theorem append {s t : String} (hs : IsWord s) (ht : IsWord t) : IsWord (s ++ t) := by
  intro c hc
  rw [String.toList_append] at hc
  exact (List.mem_append.1 hc).elim (hs c) (ht c)

theorem underscore : IsWord "_" := by
  intro c hc
  obtain rfl : c = '_' := by simpa using hc
  rfl

end IsWord

/-- The names that an entity brings into expressions are plain words. -/
structure Entity.Plain (e : Entity) : Prop where
  names : ∀ f ∈ e.fields, Naming.isPlain f.name = true
  columns : ∀ f ∈ e.fields, Naming.isPlain f.column = true

/-- The aliases, given and yet to be given, are plain words. -/
structure Aliases.Plain (a : Aliases) : Prop where
  stem : Naming.isPlain a.stem = true
  labels : ∀ entry ∈ a.entries, Naming.isPlain entry.label = true

namespace Aliases

variable {a as : Aliases} {e : Entity} {label : String}

theorem isPlain_numbered {s : String} (h : Naming.isPlain s = true) (n : Nat) :
    Naming.isPlain (Number.numbered s n) = true := by
  obtain ⟨c, cs, hs, hc, hcs⟩ := Naming.isPlain_iff.1 h
  refine Naming.isPlain_iff.2 ⟨c, cs ++ Number.digits n, ?_, hc, ?_⟩
  · rw [Number.toList_numbered, hs, List.cons_append]
  · rw [List.all_append, hcs, Bool.true_and, List.all_eq_true]
    exact fun d hd => Identifier.isPart_of_isDigit (Number.isDigit_of_mem_digits hd)

/-- An alias is one that was registered, or is registered now at the end. -/
theorem of_aliasFor_ok (h : a.aliasFor e = .ok (label, as)) :
    (∃ entry, a.entry? e.typeName = some entry ∧ entry.entity.table = e.table ∧
      label = entry.label ∧ as = a) ∨
    (a.entry? e.typeName = none ∧ label = Number.numbered a.stem a.size ∧
      as = { a with entries := a.entries ++ [⟨e, label⟩] }) := by
  rw [aliasFor_ok_iff, request] at h
  split at h
  · rename_i entry hentry
    split at h
    · rename_i htable
      obtain ⟨hlabel, rfl⟩ := Prod.mk.inj h
      exact .inl ⟨entry, hentry, htable, (Except.ok.inj hlabel).symm, rfl⟩
    · cases h
  · rename_i hnone
    obtain ⟨hlabel, rfl⟩ := Prod.mk.inj h
    obtain rfl := Except.ok.inj hlabel
    exact .inr ⟨hnone, rfl, rfl⟩

theorem Plain.aliasFor (plain : a.Plain) (h : a.aliasFor e = .ok (label, as)) :
    Naming.isPlain label = true ∧ as.Plain := by
  rcases of_aliasFor_ok h with ⟨entry, hentry, -, rfl, rfl⟩ | ⟨-, rfl, rfl⟩
  · exact ⟨plain.labels entry (List.mem_of_find?_eq_some hentry), plain⟩
  · have hlabel := isPlain_numbered plain.stem a.size
    refine ⟨hlabel, plain.stem, ?_⟩
    intro entry hentry
    rcases List.mem_append.1 hentry with hold | hnew
    · exact plain.labels entry hold
    · obtain rfl := List.mem_singleton.1 hnew
      exact hlabel

theorem Plain.lookup? (plain : a.Plain) (h : a.lookup? e = some label) :
    Naming.isPlain label = true := by
  obtain ⟨entry, hentry, rfl⟩ := Option.map_eq_some_iff.1 h
  exact plain.labels entry (List.mem_of_find?_eq_some hentry)

end Aliases

namespace Expr

/-- The entity whose row or projection a node is. -/
def ownEntities : Expr → List Entity
  | .row e => [e]
  | .construct target _ => [target]
  | _ => []

/-- The entities whose rows or projections occur in an expression. -/
def entities (x : Expr) : List Entity := x.nodes.flatMap ownEntities

@[simp] theorem entities_field (e : Entity) (name : String) : (field e name).entities = [e] := rfl

@[simp] theorem entities_literal (v : Value) : (literal v).entities = [] := rfl

@[simp] theorem entities_comparison (op : BinaryOp) (l r : Expr) :
    (comparison op l r).entities = l.entities ++ r.entities := by
  simp [entities, nodes, ownEntities]

@[simp] theorem entities_logical (op : Connective) (l r : Expr) :
    (logical op l r).entities = l.entities ++ r.entities := by
  simp [entities, nodes, ownEntities]

@[simp] theorem entities_call (f : Function) (args : List Expr) :
    (call f args).entities = args.flatMap entities := by
  rw [entities, nodes, nodesOfArgs_eq, List.flatMap_cons, List.flatMap_assoc]
  rfl

@[simp] theorem entities_construct (target : Entity) (bs : List (String × Expr)) :
    (construct target bs).entities = target :: bs.flatMap fun b => b.2.entities := by
  rw [entities, nodes, nodesOfBindings_eq, List.flatMap_cons, List.flatMap_assoc]
  rfl

end Expr

namespace Sql

open TypedQuery.Sql.Fragment

/-- The characters beside those of identifiers that statements are written with. -/
def punctuation : List Char :=
  [' ', '\n', '(', ')', ',', '.', '*', '=', '!', '<', '>', '+', '-', '/', '%', '&', '|', '^']

/-- A character that may stand in the text of a statement outside its placeholders. -/
def isOrdinary (c : Char) : Bool := Identifier.isPart c || punctuation.contains c

/-- A token whose text is made of ordinary characters, or a placeholder. -/
def Token.isOrdinary : Token → Bool
  | .placeholder _ _ => true
  | t => t.text.toList.all Sql.isOrdinary

/-- A token that ends the number of a placeholder in front of it. -/
def Token.separates : Token → Bool
  | .space | .newline | .comma | .rparen => true
  | _ => false

def Token.isPlaceholder : Token → Bool
  | .placeholder _ _ => true
  | _ => false

namespace Fragment

variable {f g : Fragment} {fs : List Fragment} {t : Token} {c : Clause.Separator}

theorem around_nil_append (f g : Fragment) (t : Token) : around f t [] ++ g = around f t g := by
  simp [around]

theorem joined_cons_cons (f g : Fragment) (fs : List Fragment) :
    joined c (f :: g :: fs) = f ++ (separation c ++ joined c (g :: fs)) := by
  simp [joined, List.intercalate]

theorem joined_singleton (f : Fragment) : joined c [f] = f := by simp [joined, List.intercalate]

/-- What every token of some fragments has, those of the fragments with a separator have. -/
theorem forall_mem_joined {P : Token → Prop} (hsep : ∀ t ∈ separation c, P t)
    (hfs : ∀ f ∈ fs, ∀ t ∈ f, P t) : ∀ t ∈ joined c fs, P t := by
  induction fs with
  | nil => simp [joined, List.intercalate]
  | cons f rest ih =>
      cases rest with
      | nil => simpa [joined_singleton] using hfs
      | cons g rest =>
          intro t ht
          rw [joined_cons_cons] at ht
          rcases List.mem_append.1 ht with hf | ht
          · exact hfs f (by simp) t hf
          rcases List.mem_append.1 ht with hs | hrest
          · exact hsep t hs
          · exact ih (fun g hg => hfs g (by simp [hg])) t hrest

/-- All tokens are ordinary. -/
def Ordinary (f : Fragment) : Prop := ∀ t ∈ f, t.isOrdinary = true

theorem ordinary_append : Ordinary (f ++ g) ↔ Ordinary f ∧ Ordinary g := by
  simp [Ordinary, or_imp, forall_and]

theorem ordinary_cons : Ordinary (t :: f) ↔ t.isOrdinary = true ∧ Ordinary f := by
  simp [Ordinary]

theorem ordinary_nil : Ordinary [] := by simp [Ordinary]

theorem ordinary_singleton : Ordinary [t] ↔ t.isOrdinary = true := by simp [Ordinary]

theorem Ordinary.parens (hf : Ordinary f) : Ordinary (parens f) := by
  simp only [Fragment.parens, ordinary_append, ordinary_cons]
  exact ⟨⟨by decide, hf⟩, by decide, ordinary_nil⟩

theorem Ordinary.around (hf : Ordinary f) (ht : t.isOrdinary = true) (hg : Ordinary g) :
    Ordinary (around f t g) := by
  simp only [Fragment.around, ordinary_append, ordinary_cons]
  exact ⟨hf, by decide, ht, by decide, hg⟩

theorem Ordinary.joined (h : ∀ f ∈ fs, Ordinary f) : Ordinary (joined c fs) :=
  forall_mem_joined (by cases c <;> decide) h

/-- Behind every placeholder the fragment ends or a token separates. -/
def Separated (f : Fragment) : Prop :=
  f.IsChain fun t u => t.isPlaceholder = true → u.separates = true

theorem separated_singleton : Separated [t] := List.IsChain.singleton t

theorem Separated.cons (ht : t.isPlaceholder = false) (hf : Separated f) : Separated (t :: f) := by
  refine List.isChain_cons.2 ⟨?_, hf⟩
  intro u _ hplaceholder
  rw [ht] at hplaceholder
  cases hplaceholder

theorem Separated.append (hf : Separated f) (hg : Separated g)
    (hhead : ∀ u ∈ g.head?, u.separates = true) : Separated (f ++ g) :=
  List.isChain_append.2 ⟨hf, hg, fun _ _ u hu _ => hhead u hu⟩

theorem Separated.parens (hf : Separated f) : Separated (parens f) := by
  apply Separated.append (Separated.cons rfl hf) separated_singleton
  simp [Token.separates]

theorem Separated.around (hf : Separated f) (ht : t.isPlaceholder = false) (hg : Separated g) :
    Separated (around f t g) := by
  apply hf.append (.cons rfl (.cons ht (.cons rfl hg)))
  simp [Token.separates]

theorem Separated.joined (h : ∀ f ∈ fs, Separated f) : Separated (joined c fs) := by
  induction fs with
  | nil => exact List.IsChain.nil
  | cons f rest ih =>
      cases rest with
      | nil => simpa [joined_singleton] using h
      | cons g rest =>
          rw [joined_cons_cons]
          have hrest := ih fun g hg => h g (by simp [hg])
          refine (h f (by simp)).append ?_ ?_
          · cases c with
            | comma => exact .cons rfl (.cons rfl hrest)
            | and => exact .cons rfl (.cons rfl (.cons rfl hrest))
            | newline => exact .cons rfl hrest
          · cases c <;> simp [separation, Token.separates]

end Fragment

theorem isOrdinary_of_isPart {c : Char} (h : Identifier.isPart c = true) : isOrdinary c = true := by
  simp [isOrdinary, h]

namespace Token

theorem isOrdinary_column {q n : String} (hq : IsWord q) (hn : IsWord n) :
    (column q n).isOrdinary = true := by
  have hdot : ∀ c ∈ ".".toList, Sql.isOrdinary c = true := by
    intro c hc
    obtain rfl : c = '.' := by simpa using hc
    rfl
  simp only [isOrdinary, text, String.toList_append, List.all_append, Bool.and_eq_true,
    List.all_eq_true]
  exact ⟨⟨fun c hc => isOrdinary_of_isPart (hq c hc), hdot⟩,
    fun c hc => isOrdinary_of_isPart (hn c hc)⟩

theorem isOrdinary_name {s : String} (hs : IsWord s) : (name s).isOrdinary = true := by
  simp only [isOrdinary, text, List.all_eq_true]
  exact fun c hc => isOrdinary_of_isPart (hs c hc)

theorem isOrdinary_operator (op : BinaryOp) : (operator op).isOrdinary = true := by
  cases op <;> decide

theorem isOrdinary_connective (op : Connective) : (connective op).isOrdinary = true := by
  cases op <;> decide

theorem isOrdinary_helper (h : PredicateHelper) : (keyword h.symbol).isOrdinary = true := by
  cases h <;> decide

theorem isOrdinary_aggregate (a : Aggregate) : (keyword a.symbol).isOrdinary = true := by
  cases a <;> decide

theorem isOrdinary_truth (b : Bool) : (truth b).isOrdinary = true := by
  cases b <;> decide

theorem isOrdinary_nullTest {op : BinaryOp} {word : String} (h : nullTest? op = some word) :
    (keyword word).isOrdinary = true := by
  cases op <;> cases h <;> decide

end Token

namespace Fragment

theorem Ordinary.named {f : Fragment} {s : String} (hf : Ordinary f) (hs : IsWord s) :
    Ordinary (f.named s) := by
  simp only [Fragment.named, ordinary_append, ordinary_cons]
  exact ⟨hf, by decide, by decide, by decide, Token.isOrdinary_name hs, ordinary_nil⟩

theorem Separated.named {f : Fragment} {s : String} (hf : Separated f) : Separated (f.named s) := by
  apply hf.append (.cons rfl (.cons rfl (.cons rfl separated_singleton)))
  simp [Token.separates]

end Fragment

namespace Binder

variable {b : Binder}

theorem ordinary_written (v : Value) : Ordinary (b.written v) := by
  unfold written
  split
  · exact ordinary_singleton.2 (by decide)
  · exact ordinary_singleton.2 rfl

theorem separated_written (v : Value) : Separated (b.written v) := by
  unfold written
  split <;> exact separated_singleton

theorem forall_mem_writtenAll {P : Fragment → Prop} (h : ∀ (b : Binder) v, P (b.written v)) :
    ∀ (vs : List Value) (b : Binder), ∀ f ∈ b.writtenAll vs, P f
  | [], _ => by simp [writtenAll]
  | v :: vs, b => by
      intro f hf
      rcases List.mem_cons.1 hf with rfl | hrest
      · exact h b v
      · exact forall_mem_writtenAll h vs (b.bound v) f hrest

theorem aliases_bound (v : Value) : (b.bound v).aliases = b.aliases := by
  unfold bound
  split <;> rfl

theorem aliases_boundAll (vs : List Value) (b : Binder) : (b.boundAll vs).aliases = b.aliases := by
  induction vs generalizing b with
  | nil => rfl
  | cons v vs ih => exact (ih (b.bound v)).trans (aliases_bound v)

end Binder

/-- What holds of every column under an output name holds of all columns of a projection. -/
theorem Projects.forall_mem {P : Fragment → Prop} (h : ∀ q n s, P (named [.column q n] s))
    {target : Entity} {label : String} {seen : List String} {bs : List (String × Expr)}
    {b b' : Binder} {columns : List Fragment}
    (hp : Projects target label seen bs b columns b') : ∀ f ∈ columns, P f := by
  induction hp with
  | nil => simp
  | cons field fresh sourceField registered others ih =>
      exact List.forall_mem_cons.2 ⟨h _ _ _, ih⟩

theorem Fragment.Separated.aggregateOf {f : Fragment} (a : Aggregate) (hf : Separated f) :
    Separated (aggregateOf a f) := by
  unfold Sql.aggregateOf
  split
  · exact .cons rfl (.parens (.cons rfl (.cons rfl hf)))
  · exact .cons rfl hf.parens

theorem Fragment.Ordinary.aggregateOf {f : Fragment} (a : Aggregate) (hf : Ordinary f) :
    Ordinary (aggregateOf a f) := by
  unfold Sql.aggregateOf
  refine ordinary_cons.2 ⟨Token.isOrdinary_aggregate a, .parens ?_⟩
  split
  · exact ordinary_cons.2 ⟨by decide, ordinary_cons.2 ⟨by decide, hf⟩⟩
  · exact hf

section

variable {c : Context} {x : Expr} {b b' : Binder} {f : Fragment}

/-- Placeholders in a translated fragment are separated from what follows. -/
theorem Translates.separated (h : Translates c x b f b') : Separated f := by
  induction h with
  | literal | constant => exact Binder.separated_written _
  | column | groupedColumn | emptySet => exact separated_singleton
  | testLeft null word operand ih | testRight other null word operand ih =>
      exact ih.append (.cons rfl separated_singleton) (by simp [Token.separates])
  | comparison order noTest left right ihl ihr => exact ihl.around rfl ihr
  | arithmetic noOrder reads left right ihl ihr => exact (ihl.around rfl ihr).parens
  | logical left right ihl ihr => exact ihl.parens.around rfl ihr.parens
  | between predicates target low high iht ihl ihh =>
      exact ((iht.around rfl ihl).around rfl ihh).parens
  | like predicates target pattern iht ihp => exact (iht.around rfl ihp).parens
  | @memberOf h x set v log b f b' predicates membership value nonempty target ih =>
      have hitems : ∀ g ∈ b'.writtenAll (membersOf v), Separated g :=
        Binder.forall_mem_writtenAll (fun _ v => Binder.separated_written v) _ _
      rw [around_nil_append]
      exact (ih.around rfl (Separated.joined hitems).parens).parens
  | countRows => exact .cons rfl (.parens separated_singleton)
  | aggregate aggregates argument ih => exact ih.aggregateOf _
  | projection select nonempty registered bindings =>
      exact .joined (bindings.forall_mem fun _ _ _ => Separated.named separated_singleton)

/-- The columns of a projection between plain entities are written in ordinary characters. -/
theorem Projects.ordinary {target : Entity} {label : String} {seen : List String}
    {bs : List (String × Expr)} {columns : List Fragment}
    (h : Projects target label seen bs b columns b') (plain : target.Plain) (hlabel : IsWord label)
    (aliases : b.aliases.Plain) (sources : ∀ p ∈ bs, ∀ E ∈ p.2.entities, E.Plain) :
    (∀ f ∈ columns, Ordinary f) ∧ b'.aliases.Plain := by
  induction h with
  | nil => exact ⟨by simp, aliases⟩
  | @cons seen name source sourceName rest b as columns b' f g sourceLabel field fresh sourceField
      registered others ih =>
      have hsource : source.Plain := sources _ List.mem_cons_self source (by simp)
      obtain ⟨hsourceLabel, has⟩ := aliases.aliasFor registered
      obtain ⟨hrest, hplain⟩ := ih has fun p hp => sources p (by simp [hp])
      refine ⟨List.forall_mem_cons.2 ⟨?_, hrest⟩, hplain⟩
      refine Ordinary.named (ordinary_singleton.2 (Token.isOrdinary_column ?_ ?_)) ?_
      · exact .of_isPlain hsourceLabel
      · exact .of_isPlain (hsource.columns g (Entity.mem_of_field? sourceField))
      · exact (hlabel.append .underscore).append
          (.of_isPlain (plain.names f (Entity.mem_of_field? field)))

/-- With plain names a translated fragment is written in ordinary characters beside its
placeholders, and the aliases stay plain. -/
theorem Translates.ordinary (h : Translates c x b f b') (cte : IsWord c.naming.cteAlias)
    (aliases : b.aliases.Plain) (entities : ∀ E ∈ x.entities, E.Plain) :
    Ordinary f ∧ b'.aliases.Plain := by
  induction h with
  | literal | constant =>
      refine ⟨Binder.ordinary_written _, ?_⟩
      rw [Binder.aliases_bound]
      exact aliases
  | @column e name g label as b field rows registered =>
      have he := entities e (by simp)
      obtain ⟨hlabel, has⟩ := aliases.aliasFor registered
      exact ⟨ordinary_singleton.2 (Token.isOrdinary_column (.of_isPlain hlabel)
        (.of_isPlain (he.columns _ (Entity.mem_of_field? field)))), has⟩
  | @groupedColumn e name g label b field groups registered =>
      have he := entities e (by simp)
      have hlabel := IsWord.of_isPlain (aliases.lookup? registered)
      exact ⟨ordinary_singleton.2 (Token.isOrdinary_column cte
        ((hlabel.append .underscore).append
          (.of_isPlain (he.names _ (Entity.mem_of_field? field))))), aliases⟩
  | testLeft null word operand ih | testRight other null word operand ih =>
      obtain ⟨hf, has⟩ := ih aliases fun E hE => entities E (by simp [hE])
      exact ⟨ordinary_append.2 ⟨hf, ordinary_cons.2 ⟨by decide,
        ordinary_singleton.2 (Token.isOrdinary_nullTest word)⟩⟩, has⟩
  | comparison order noTest left right ihl ihr =>
      obtain ⟨hf, has⟩ := ihl aliases fun E hE => entities E (by simp [hE])
      obtain ⟨hg, has⟩ := ihr has fun E hE => entities E (by simp [hE])
      exact ⟨hf.around (Token.isOrdinary_operator _) hg, has⟩
  | arithmetic noOrder reads left right ihl ihr =>
      obtain ⟨hf, has⟩ := ihl aliases fun E hE => entities E (by simp [hE])
      obtain ⟨hg, has⟩ := ihr has fun E hE => entities E (by simp [hE])
      exact ⟨(hf.around (Token.isOrdinary_operator _) hg).parens, has⟩
  | logical left right ihl ihr =>
      obtain ⟨hf, has⟩ := ihl aliases fun E hE => entities E (by simp [hE])
      obtain ⟨hg, has⟩ := ihr has fun E hE => entities E (by simp [hE])
      exact ⟨hf.parens.around (Token.isOrdinary_connective _) hg.parens, has⟩
  | between predicates target low high iht ihl ihh =>
      obtain ⟨hf, has⟩ := iht aliases fun E hE => entities E (by simp [hE])
      obtain ⟨hg, has⟩ := ihl has fun E hE => entities E (by simp [hE])
      obtain ⟨hk, has⟩ := ihh has fun E hE => entities E (by simp [hE])
      exact ⟨((hf.around (by decide) hg).around (by decide) hk).parens, has⟩
  | like predicates target pattern iht ihp =>
      obtain ⟨hf, has⟩ := iht aliases fun E hE => entities E (by simp [hE])
      obtain ⟨hg, has⟩ := ihp has fun E hE => entities E (by simp [hE])
      exact ⟨(hf.around (by decide) hg).parens, has⟩
  | emptySet => exact ⟨ordinary_singleton.2 (Token.isOrdinary_truth _), aliases⟩
  | @memberOf h x set v log b f b' predicates membership value nonempty target ih =>
      obtain ⟨hf, has⟩ := ih aliases fun E hE => entities E (by simp [hE])
      have hitems : ∀ g ∈ b'.writtenAll (membersOf v), Ordinary g :=
        Binder.forall_mem_writtenAll (fun _ v => Binder.ordinary_written v) _ _
      rw [around_nil_append, Binder.aliases_boundAll]
      exact ⟨(hf.around (Token.isOrdinary_helper h) (Ordinary.joined hitems).parens).parens, has⟩
  | countRows =>
      exact ⟨ordinary_cons.2 ⟨by decide, .parens (ordinary_singleton.2 (by decide))⟩, aliases⟩
  | aggregate aggregates argument ih =>
      obtain ⟨hf, has⟩ := ih aliases fun E hE => entities E (by simp [hE])
      exact ⟨hf.aggregateOf _, has⟩
  | @projection target label as columns b b' bs select nonempty registered bindings =>
      obtain ⟨hlabel, has⟩ := aliases.aliasFor registered
      have htarget := entities target (by simp)
      obtain ⟨hcolumns, has⟩ := bindings.ordinary htarget (.of_isPlain hlabel) has
        fun p hp E hE => entities E (by
          simp only [Expr.entities_construct, List.mem_cons, List.mem_flatMap]
          exact .inr ⟨p, hp, hE⟩)
      exact ⟨.joined hcolumns, has⟩

end

end Sql

end TypedQuery
