import Mathlib.Data.List.Forall2
import TypedQuery.Proofs.Sql.Condition

/-!
# Conditions in a row

Conditions can stand in a row with AND between them and no parentheses of their own. Without
connectives they are read as the conjunction of the whole conditions exactly when each of them is
delimited. What a condition has outside of its parentheses tells what it is.
-/

namespace TypedQuery.Sql

open TypedQuery.Sql.Fragment

variable {α β : Type}

theorem forall_mem_iff_of_forall₂ {P : α → Prop} {Q : β → Prop} {as : List α} {bs : List β}
    (h : List.Forall₂ (fun a b => P a ↔ Q b) as bs) : (∀ a ∈ as, P a) ↔ ∀ b ∈ bs, Q b := by
  induction h with
  | nil => simp
  | cons first rest ih => rw [List.forall_mem_cons, List.forall_mem_cons, first, ih]

namespace Tree

/-- The conjunction of some conditions, the first two of them first. -/
def conjunction? : List (Tree α) → Option (Tree α)
  | [] => none
  | t :: ts => some (ts.foldl (node (.connective .and)) t)

/-- The tree is one operand in front of a comparison. -/
structure IsOperand (t : Tree α) : Prop where
  delimited : t.Delimited
  connected : t.isConnected = false
  comparison : t.isComparison = false

variable {t : Tree α}

theorem delimited_eq_leaf_iff {a : α} :
    (node (.binary .eq) t (leaf a)).Delimited ↔ t.IsOperand := by
  constructor
  · rintro ⟨delimited, -, connected, comparison, -⟩
    exact ⟨delimited, connected, comparison⟩
  · rintro ⟨delimited, connected, comparison⟩
    exact ⟨delimited, trivial, connected, comparison, rfl, rfl, rfl⟩

theorem Rel.isOperand_iff {R : α → β → Prop} {u : Tree β} (h : Rel R t u) :
    t.IsOperand ↔ u.IsOperand := by
  obtain ⟨connected, comparison, -⟩ := h.head_eq
  constructor
  · rintro ⟨delimited, hconnected, hcomparison⟩
    exact ⟨h.delimited_iff.1 delimited, connected ▸ hconnected, comparison ▸ hcomparison⟩
  · rintro ⟨delimited, hconnected, hcomparison⟩
    exact ⟨h.delimited_iff.2 delimited, connected ▸ hconnected, comparison ▸ hcomparison⟩

/-- A condition without a connective is whole in front of one. -/
theorem closes_connective (op : Connective) (delimited : t.Delimited)
    (connected : t.isConnected = false) :
    ∀ o ∈ t.layout.rightEnd, o.Closes (Operator.connective op).level := by
  intro o ho
  have hlow := Operator.level_connective_le op
  have hcloses := (closes_test_iff delimited).2 connected o ho
  rw [Operator.testLevel] at hcloses
  rcases hcloses with h | ⟨h, -⟩
  · exact .inl (by omega)
  · exact .inl (by omega)

/-- A condition without a connective is taken whole behind one. -/
theorem waits_connective (op : Connective) (delimited : t.Delimited)
    (connected : t.isConnected = false) :
    ∀ level ∈ t.layout.leftEnd, (Operator.connective op).level < level := by
  have hlow := Operator.level_connective_le op
  induction t with
  | leaf a => simp [layout, Layout.leftEnd]
  | test negated t ih =>
      rw [layout, Layout.leftEnd, List.forall_mem_cons, Operator.testLevel]
      exact ⟨by omega, ih delimited.1 delimited.2⟩
  | node o l r ihl ihr =>
      cases o with
      | connective op => cases connected
      | binary op' =>
          have hlevel := Operator.le_level_binary op'
          obtain ⟨hl, -, hconnected, -⟩ := delimited
          rw [layout]
          split
          · rw [Layout.leftEnd, List.forall_mem_cons]
            exact ⟨by omega, ihl hl hconnected⟩
          · simp [Layout.leftEnd]

/-- Behind something that a connective takes whole, conditions without connectives group as they
should exactly when each of them is delimited. -/
theorem proper_foldl_iff {op : Connective} {ts : List (Tree α)} {c : Layout α}
    (closes : c.Proper → ∀ o ∈ c.rightEnd, o.Closes (Operator.connective op).level)
    (apart : ∀ t ∈ ts, t.isConnected = false) :
    ((ts.map layout).foldl (Layout.node (.connective op)) c).Proper ↔
      c.Proper ∧ ∀ t ∈ ts, t.Delimited := by
  induction ts generalizing c with
  | nil => simp
  | cons t ts ih =>
      obtain ⟨ht, hts⟩ := List.forall_mem_cons.1 apart
      have hnode : (Layout.node (.connective op) c t.layout).Proper ↔ c.Proper ∧ t.Delimited := by
        rw [Layout.Proper, proper_layout_iff]
        exact ⟨fun h => ⟨h.1, h.2.1⟩, fun h => ⟨h.1, h.2, closes h.1, waits_connective op h.2 ht⟩⟩
      rw [List.map_cons, List.foldl_cons, ih _ hts, hnode, List.forall_mem_cons, and_assoc]
      -- the row read so far ends with the connective, which takes another one of its kind
      intro proper
      rw [Layout.rightEnd, List.forall_mem_cons]
      exact ⟨.inr ⟨rfl, rfl⟩, closes_connective op (hnode.1 proper).2 ht⟩

/-- A condition by itself and others behind it group as they should exactly when each of them is
delimited. -/
theorem proper_row_iff {op : Connective} {ts : List (Tree α)}
    (apart : ∀ u ∈ t :: ts, u.isConnected = false) :
    ((ts.map layout).foldl (Layout.node (.connective op)) t.layout).Proper ↔
      ∀ u ∈ t :: ts, u.Delimited := by
  obtain ⟨ht, hts⟩ := List.forall_mem_cons.1 apart
  rw [List.forall_mem_cons, ← proper_layout_iff t]
  exact proper_foldl_iff (fun proper => closes_connective op ((proper_layout_iff t).1 proper) ht)
    hts

theorem tree_foldl (o : Operator) (ts : List (Tree α)) (c : Layout α) :
    ((ts.map layout).foldl (Layout.node o) c).tree = ts.foldl (node o) c.tree := by
  induction ts generalizing c with
  | nil => rfl
  | cons t ts ih => rw [List.map_cons, List.foldl_cons, ih, Layout.tree, tree_layout, List.foldl_cons]

theorem form_foldl (o : Operator) (ts : List (Tree α)) (t : Tree α) :
    (ts.foldl (node o) t).form = (ts.map form).foldl (node o) t.form := by
  induction ts generalizing t with
  | nil => rfl
  | cons u ts ih => exact ih _

end Tree

namespace Fragment

variable {f g : Fragment} {fs gs : List Fragment} {c d : Layout String}

theorem joined_and_cons_cons (f g : Fragment) (fs : List Fragment) :
    joined .and (f :: g :: fs) = joined .and (around f (.connective .and) g :: fs) := by
  cases fs with
  | nil => simp [joined, separation, around]
  | cons h fs => simp [joined, separation, around]

/-- Fragments with AND between them spell the row of what they spell. -/
theorem Spells.joined_and {ds : List (Layout String)} (hf : Spells f c)
    (hgs : List.Forall₂ Spells gs ds) :
    Spells (joined .and (f :: gs)) (ds.foldl (Layout.node (.connective .and)) c) := by
  induction hgs generalizing f c with
  | nil => simpa [joined] using hf
  | cons hg hrest ih =>
      rw [joined_and_cons_cons]
      exact ih (.around_connective .and hf hg)

/-- Conditions without connectives that stand in a row are read as a conjunction of trees of their
forms exactly when each of them is delimited, and then as the conjunction of the conditions. -/
theorem readCondition_joined_iff {ts : List (Tree String)} (hne : ts ≠ [])
    (spells : List.Forall₂ (fun f t => Spells f t.layout) fs ts)
    (apart : ∀ t ∈ ts, t.isConnected = false) :
    ((∃ us, us.map Tree.form = ts.map Tree.form ∧
        readCondition (joined .and fs).text = Tree.conjunction? us) ↔ ∀ t ∈ ts, t.Delimited) ∧
    ((∀ t ∈ ts, t.Delimited) →
      readCondition (joined .and fs).text = Tree.conjunction? ts) := by
  cases spells with
  | nil => exact absurd rfl hne
  | @cons f t fs ts hf hfs =>
      have row : Spells (joined .and (f :: fs))
          ((ts.map Tree.layout).foldl (Layout.node (.connective .and)) t.layout) :=
        hf.joined_and (List.forall₂_map_right_iff.2 hfs)
      have eq_of_delimited (delimited : ∀ u ∈ t :: ts, u.Delimited) :
          readCondition (joined .and (f :: fs)).text = Tree.conjunction? (t :: ts) := by
        rw [row.readCondition, readSymbols_symbols ((Tree.proper_row_iff apart).2 delimited),
          Tree.tree_foldl, Tree.tree_layout, Tree.conjunction?]
      refine ⟨⟨?_, fun delimited => ⟨t :: ts, rfl, eq_of_delimited delimited⟩⟩, eq_of_delimited⟩
      rintro ⟨us, hforms, hread⟩
      cases us with
      | nil => cases hforms
      | cons u us =>
          obtain ⟨hu, hus⟩ := List.cons.inj hforms
          rw [← Tree.proper_row_iff apart, Layout.proper_iff_readSymbols]
          refine ⟨_, row.readCondition.symm.trans hread, ?_⟩
          rw [Tree.tree_foldl, Tree.tree_layout, Tree.form_foldl, Tree.form_foldl, hu, hus]

end Fragment

namespace Symbol

/-- The symbols outside of parentheses, of which that many are open. -/
def outer : Nat → List (Symbol α) → List (Symbol α)
  | _, [] => []
  | n, .lparen :: ss => outer (n + 1) ss
  | n, .rparen :: ss => outer (n - 1) ss
  | 0, s :: ss => s :: outer 0 ss
  | n + 1, _ :: ss => outer (n + 1) ss

/-- Does the symbol bind less tightly than arithmetic? Comparisons, tests and connectives do. -/
def isLoose : Symbol α → Bool
  | .test _ | .operator (.connective _) => true
  | .operator (.binary op) => op.isComparison
  | _ => false

end Symbol

/-- The symbols of a text outside of its parentheses. -/
def outerSymbols (sql : String) : List (Symbol String) :=
  Symbol.outer 0 (Symbol.ofLexemes (Lexeme.ofText sql.toList))

namespace Layout

/-- The symbols outside of parentheses. -/
def outer : Layout α → List (Symbol α)
  | leaf a => [.leaf a]
  | parens _ => []
  | test negated c => c.outer ++ [.test negated]
  | node o l r => l.outer ++ .operator o :: r.outer

theorem outer_symbols_append (c : Layout α) (n : Nat) (ss : List (Symbol α)) :
    Symbol.outer n (c.symbols ++ ss) =
      (if n = 0 then c.outer else []) ++ Symbol.outer n ss := by
  induction c generalizing n ss with
  | leaf a => cases n <;> rfl
  | parens c ih =>
      rw [symbols, List.cons_append, List.cons_append, List.append_assoc, Symbol.outer, ih,
        if_neg (by omega)]
      simp [Symbol.outer, outer]
  | test negated c ih =>
      rw [symbols, List.append_assoc, ih]
      cases n <;> simp [Symbol.outer, outer]
  | node o l r ihl ihr =>
      rw [symbols, List.append_assoc, ihl]
      cases n <;> simp [Symbol.outer, outer, ihr]

end Layout

theorem Fragment.Spells.outerSymbols {f : Fragment} {c : Layout String} (h : Spells f c) :
    outerSymbols f.text = c.outer := by
  have hsymbols := h []
  rw [List.append_nil, Symbol.ofLexemes] at hsymbols
  rw [Sql.outerSymbols, hsymbols, Layout.outer_symbols_append]
  simp [Symbol.outer]

/-- Is the whole condition a comparison, a test or one with a connective? -/
def Tree.isLoose (t : Tree α) : Bool := t.isComparison || t.isTest || t.isConnected

theorem Tree.Rel.isLoose_eq {R : α → β → Prop} {t : Tree α} {u : Tree β} (h : Tree.Rel R t u) :
    t.isLoose = u.isLoose := by
  obtain ⟨connected, comparison, test⟩ := h.head_eq
  rw [Tree.isLoose, connected, comparison, test, Tree.isLoose]

/-- A condition that is written has a loose symbol outside of its parentheses exactly when it is
loose itself: arithmetic is put in parentheses. -/
theorem Tree.outer_layout_iff (t : Tree α) :
    (∀ y ∈ t.layout.outer, y.isLoose = false) ↔ t.isLoose = false := by
  cases t with
  | leaf a => simp [layout, Layout.outer, Symbol.isLoose, isLoose, isComparison, isTest, isConnected]
  | test negated t =>
      simp [layout, Layout.outer, Symbol.isLoose, isLoose, isTest, or_imp, forall_and]
  | node o l r =>
      cases o with
      | connective op =>
          simp [layout, Layout.outer, Symbol.isLoose, isLoose, isConnected]
      | binary op =>
          rw [layout]
          split
          · rename_i hop
            simp [Layout.outer, Symbol.isLoose, isLoose, isComparison, hop, or_imp, forall_and]
          · rename_i hop
            simp [Layout.outer, isLoose, isComparison, isTest, isConnected, hop]

end TypedQuery.Sql
