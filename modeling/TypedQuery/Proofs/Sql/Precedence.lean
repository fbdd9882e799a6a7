import Mathlib.Data.List.Basic
import TypedQuery.Expr.Operator

/-!
# Reading by precedence

How a database groups a condition. Operators wait on a stack until one arrives that binds less
tightly; comparisons do not chain. A layout is a tree with its parentheses. A proper layout is
read as its tree, nothing else is read, and the symbols of a layout with the form of its tree
tell where the parentheses are.
-/

namespace TypedQuery.Sql

/-- An operator between two operands. -/
inductive Operator where
  | binary (op : BinaryOp)
  | connective (op : Connective)
deriving DecidableEq

namespace Operator

/-- The level of a test for NULL, between the connectives and the comparisons. -/
def testLevel : Nat := 3

/-- How tightly an operator binds; arithmetic binds tighter than comparisons. -/
def level : Operator → Nat
  | connective .or => 1
  | connective .and => 2
  | binary .eq | binary .ne | binary .gt | binary .gte | binary .lt | binary .lte => 4
  | binary .bitAnd | binary .bitOr | binary .shiftLeft | binary .shiftRight => 5
  | binary .add | binary .sub => 6
  | binary .mul | binary .div | binary .rem => 7
  | binary .bitXor => 8

theorem le_level_binary (op : BinaryOp) : 4 ≤ (binary op).level := by
  cases op <;> decide

theorem level_connective_le (op : Connective) : (connective op).level ≤ 2 := by
  cases op <;> decide

/-- Does the operator take another one of its level as its left operand without parentheses? -/
def chains : Operator → Bool
  | connective _ => true
  | binary op => !op.isComparison

theorem level_of_isComparison {op : BinaryOp} (h : op.isComparison = true) :
    (binary op).level = 4 ∧ (binary op).chains = false := by
  cases op <;> first | exact ⟨rfl, rfl⟩ | cases h

/-- The operator takes its right operand before an operator of the given level is read. -/
def Closes (o : Operator) (level : Nat) : Prop :=
  level < o.level ∨ level = o.level ∧ o.chains = true

instance (o : Operator) (level : Nat) : Decidable (o.Closes level) :=
  inferInstanceAs (Decidable (_ ∨ _))

theorem Closes.not_lt {o : Operator} {level : Nat} (h : o.Closes level) : ¬ o.level < level := by
  rcases h with h | ⟨h, -⟩ <;> omega

end Operator

inductive Symbol (α : Type) where
  | lparen
  | rparen
  | leaf (a : α)
  | operator (o : Operator)
  | test (negated : Bool)
deriving DecidableEq

/-- A condition with its grouping. -/
inductive Tree (α : Type) where
  | leaf (a : α)
  | test (negated : Bool) (t : Tree α)
  | node (o : Operator) (l r : Tree α)
deriving DecidableEq

variable {α β : Type}

namespace Tree

def map (f : α → β) : Tree α → Tree β
  | leaf a => leaf (f a)
  | test negated t => test negated (t.map f)
  | node o l r => node o (l.map f) (r.map f)

/-- The tree without what stands at its leaves. -/
def form (t : Tree α) : Tree Unit := t.map fun _ => ()

/-- The leaves from left to right. -/
def leaves : Tree α → List α
  | leaf a => [a]
  | test _ t => t.leaves
  | node _ l r => l.leaves ++ r.leaves

/-- The number of leaves, tests and operators. -/
def size : Tree α → Nat
  | leaf _ => 1
  | test _ t => t.size + 1
  | node _ l r => l.size + r.size + 1

@[simp] theorem size_map (f : α → β) (t : Tree α) : (t.map f).size = t.size := by
  induction t with
  | leaf a => rfl
  | test negated t ih => simp [map, size, ih]
  | node o l r ihl ihr => simp [map, size, ihl, ihr]

theorem size_eq_of_form_eq {t : Tree α} {u : Tree β} (h : t.form = u.form) : t.size = u.size := by
  have hsize := congrArg size h
  simpa [form] using hsize

end Tree

/-- What waits for its right side: an opening parenthesis or an operator with its left operand. -/
inductive Frame (α : Type) where
  | paren
  | pending (o : Operator) (l : Tree α)

/-- What was read so far: what waits, the latest first, and the operand behind it, if there is
one. -/
structure Reader (α : Type) where
  frames : List (Frame α)
  operand : Option (Tree α)

namespace Reader

/-- Operators that wait take their operands until one waits on for the given level. -/
def settle (level : Nat) : List (Frame α) → Tree α → Option (List (Frame α) × Tree α)
  | .pending o l :: fs, t =>
    if o.Closes level then settle level fs (.node o l t)
    else if o.level < level then some (.pending o l :: fs, t)
    else none
  | fs, t => some (fs, t)

/-- All operators since the last parenthesis take their operands. -/
def close : List (Frame α) → Tree α → Option (Reader α)
  | .paren :: fs, t => some ⟨fs, some t⟩
  | .pending o l :: fs, t => close fs (.node o l t)
  | [], _ => none

/-- All operators take their operands, and no parenthesis waits. -/
def finish : List (Frame α) → Tree α → Option (Tree α)
  | [], t => some t
  | .pending o l :: fs, t => finish fs (.node o l t)
  | .paren :: _, _ => none

def step : Reader α → Symbol α → Option (Reader α)
  | ⟨fs, none⟩, .leaf a => some ⟨fs, some (.leaf a)⟩
  | ⟨fs, none⟩, .lparen => some ⟨.paren :: fs, none⟩
  | ⟨fs, some t⟩, .operator o =>
    (settle o.level fs t).map fun settled => ⟨.pending o settled.2 :: settled.1, none⟩
  | ⟨fs, some t⟩, .test negated =>
    (settle Operator.testLevel fs t).map fun settled => ⟨settled.1, some (.test negated settled.2)⟩
  | ⟨fs, some t⟩, .rparen => close fs t
  | _, _ => none

def start : Reader α := ⟨[], none⟩

end Reader

open Reader

/-- The tree that symbols are read as. -/
def readSymbols (ss : List (Symbol α)) : Option (Tree α) := do
  let r ← ss.foldlM step start
  finish r.frames (← r.operand)

/-- A tree with the parentheses that are written around its parts. -/
inductive Layout (α : Type) where
  | leaf (a : α)
  | parens (c : Layout α)
  | test (negated : Bool) (c : Layout α)
  | node (o : Operator) (l r : Layout α)

namespace Layout

def symbols : Layout α → List (Symbol α)
  | leaf a => [.leaf a]
  | parens c => .lparen :: c.symbols ++ [.rparen]
  | test negated c => c.symbols ++ [.test negated]
  | node o l r => l.symbols ++ .operator o :: r.symbols

def tree : Layout α → Tree α
  | leaf a => .leaf a
  | parens c => c.tree
  | test negated c => .test negated c.tree
  | node o l r => .node o l.tree r.tree

/-- The operators that still wait when the last symbol is read. -/
def rightEnd : Layout α → List Operator
  | node o _ r => o :: r.rightEnd
  | _ => []

/-- The levels of what is read before the layout is a whole operand. -/
def leftEnd : Layout α → List Nat
  | node o l _ => o.level :: l.leftEnd
  | test _ c => Operator.testLevel :: c.leftEnd
  | _ => []

/-- The grouping of every part is that of the precedences. -/
def Proper : Layout α → Prop
  | leaf _ => True
  | parens c => c.Proper
  | test _ c => c.Proper ∧ ∀ o ∈ c.rightEnd, o.Closes Operator.testLevel
  | node o l r =>
    l.Proper ∧ r.Proper ∧ (∀ p ∈ l.rightEnd, p.Closes o.level) ∧
      ∀ level ∈ r.leftEnd, o.level < level

/-- What waits when the layout is read behind what waited before, with the last operand. -/
def spine : Layout α → List (Frame α) → List (Frame α) × Tree α
  | node o l r, fs => r.spine (.pending o l.tree :: fs)
  | c, fs => (fs, c.tree)

end Layout

/-- The latest operator waits on for one of the level. -/
def Admits (fs : List (Frame α)) (level : Nat) : Prop :=
  ∀ o l, fs.head? = some (.pending o l) → o.level < level

theorem admits_nil (level : Nat) : Admits ([] : List (Frame α)) level := by simp [Admits]

theorem admits_paren (fs : List (Frame α)) (level : Nat) : Admits (.paren :: fs) level := by
  simp [Admits]

theorem admits_pending {o : Operator} {l : Tree α} {fs : List (Frame α)} {level : Nat} :
    Admits (.pending o l :: fs) level ↔ o.level < level := by
  simp [Admits]

namespace Reader

variable {fs : List (Frame α)} {t : Tree α} {level : Nat}

theorem settle_pending {o : Operator} {l : Tree α} (h : o.Closes level) :
    settle level (.pending o l :: fs) t = settle level fs (.node o l t) := by
  rw [settle, if_pos h]

theorem settle_of_admits (h : Admits fs level) : settle level fs t = some (fs, t) := by
  match fs with
  | [] => rfl
  | .paren :: fs => rfl
  | .pending o l :: fs =>
      have hlt : o.level < level := admits_pending.1 h
      rw [settle, if_neg fun closes => closes.not_lt hlt, if_pos hlt]

/-- The operators of a layout take their operands, so that it is whole. -/
theorem settle_spine {c : Layout α} (closes : ∀ o ∈ c.rightEnd, o.Closes level)
    (fs : List (Frame α)) :
    settle level (c.spine fs).1 (c.spine fs).2 = settle level fs c.tree := by
  induction c generalizing fs with
  | leaf | parens | test => rfl
  | node o l r ihl ihr =>
      rw [Layout.rightEnd, List.forall_mem_cons] at closes
      rw [Layout.spine, ihr closes.2, settle_pending closes.1, Layout.tree]

theorem close_spine (c : Layout α) (fs : List (Frame α)) :
    close (c.spine fs).1 (c.spine fs).2 = close fs c.tree := by
  induction c generalizing fs with
  | leaf | parens | test => rfl
  | node o l r ihl ihr => rw [Layout.spine, ihr, close, Layout.tree]

theorem finish_spine (c : Layout α) (fs : List (Frame α)) :
    finish (c.spine fs).1 (c.spine fs).2 = finish fs c.tree := by
  induction c generalizing fs with
  | leaf | parens | test => rfl
  | node o l r ihl ihr => rw [Layout.spine, ihr, finish, Layout.tree]

end Reader

/-- A proper layout is read as one operand, unless an operator before it takes a part of it. -/
theorem Layout.Proper.foldlM_symbols {c : Layout α} (proper : c.Proper) (fs : List (Frame α))
    (admits : ∀ level ∈ c.leftEnd, Admits fs level) :
    c.symbols.foldlM step ⟨fs, none⟩ = some ⟨(c.spine fs).1, some (c.spine fs).2⟩ := by
  induction c generalizing fs with
  | leaf a => rfl
  | parens c ih =>
      have hinner := ih proper (.paren :: fs) fun level _ => admits_paren fs level
      rw [symbols, List.cons_append, List.foldlM_cons, step, Option.bind_eq_bind, Option.bind_some,
        List.foldlM_append, hinner, Option.bind_eq_bind, Option.bind_some, List.foldlM_cons, step,
        close_spine]
      rfl
  | test negated c ih =>
      obtain ⟨hproper, hcloses⟩ := proper
      rw [leftEnd, List.forall_mem_cons] at admits
      rw [symbols, List.foldlM_append, ih hproper fs admits.2, Option.bind_eq_bind,
        Option.bind_some, List.foldlM_cons, step, settle_spine hcloses, settle_of_admits admits.1]
      rfl
  | node o l r ihl ihr =>
      obtain ⟨hl, hr, hcloses, hwaits⟩ := proper
      rw [leftEnd, List.forall_mem_cons] at admits
      have hright := ihr hr (.pending o l.tree :: fs) fun level h =>
        admits_pending.2 (hwaits level h)
      rw [symbols, List.foldlM_append, ihl hl fs admits.2, Option.bind_eq_bind, Option.bind_some,
        List.foldlM_cons, step, settle_spine hcloses, settle_of_admits admits.1]
      exact hright

theorem readSymbols_symbols {c : Layout α} (proper : c.Proper) :
    readSymbols c.symbols = some c.tree := by
  have hrun := proper.foldlM_symbols [] fun level _ => admits_nil level
  simp only [readSymbols, start, hrun, Option.bind_eq_bind, Option.bind_some, finish_spine]
  rfl

/-- What waits was read from the symbols. -/
inductive Stacked : List (Frame α) → List (Symbol α) → Prop
  | nil : Stacked [] []
  | paren {fs ss} (before : Stacked fs ss) : Stacked (.paren :: fs) (ss ++ [.lparen])
  | pending {fs ss o} {c : Layout α} (before : Stacked fs ss) (proper : c.Proper)
      (closes : ∀ p ∈ c.rightEnd, p.Closes o.level) (waits : Admits fs o.level)
      (admits : ∀ level ∈ c.leftEnd, Admits fs level) :
      Stacked (.pending o c.tree :: fs) (ss ++ (c.symbols ++ [.operator o]))

/-- The layout can stand behind what waits. -/
structure Stands (fs : List (Frame α)) (ss : List (Symbol α)) (c : Layout α) : Prop where
  before : Stacked fs ss
  proper : c.Proper
  admits : ∀ level ∈ c.leftEnd, Admits fs level

namespace Stands

variable {fs : List (Frame α)} {ss : List (Symbol α)} {c : Layout α} {level : Nat}

/-- An operator that waits takes the layout as its right operand. -/
theorem node {o : Operator} {l : Layout α} (before : Stacked fs ss) (left : l.Proper)
    (closes : ∀ p ∈ l.rightEnd, p.Closes o.level) (waits : Admits fs o.level)
    (admits : ∀ level ∈ l.leftEnd, Admits fs level)
    (h : Stands (.pending o l.tree :: fs) (ss ++ (l.symbols ++ [.operator o])) c) :
    Stands fs ss (.node o l c) :=
  ⟨before, ⟨left, h.proper, closes, fun level hlevel => admits_pending.1 (h.admits level hlevel)⟩,
    List.forall_mem_cons.2 ⟨waits, admits⟩⟩

theorem settle_sound (h : Stands fs ss c) (closes : ∀ o ∈ c.rightEnd, o.Closes level)
    {fs' : List (Frame α)} {t : Tree α} (run : settle level fs c.tree = some (fs', t)) :
    ∃ ss' d, Stands fs' ss' d ∧ t = d.tree ∧ ss' ++ d.symbols = ss ++ c.symbols ∧
      Admits fs' level ∧ ∀ o ∈ d.rightEnd, o.Closes level := by
  obtain ⟨before, proper, admits⟩ := h
  induction before generalizing c with
  | nil =>
      obtain ⟨rfl, rfl⟩ := Prod.mk.inj (Option.some.inj run)
      exact ⟨[], c, ⟨.nil, proper, admits⟩, rfl, rfl, admits_nil level, closes⟩
  | @paren fs ss before ih =>
      obtain ⟨rfl, rfl⟩ := Prod.mk.inj (Option.some.inj run)
      exact ⟨_, c, ⟨.paren before, proper, admits⟩, rfl, rfl, admits_paren fs level, closes⟩
  | @pending fs ss o l before left lcloses waits ladmits ih =>
      rw [settle] at run
      split at run
      · rename_i hclose
        obtain ⟨-, hproper, hadmits⟩ := Stands.node before left lcloses waits ladmits
          ⟨.pending before left lcloses waits ladmits, proper, admits⟩
        obtain ⟨ss', d, hd, ht, hsymbols, hrest⟩ :=
          ih (c := .node o l c) (List.forall_mem_cons.2 ⟨hclose, closes⟩) run hproper hadmits
        refine ⟨ss', d, hd, ht, ?_, hrest⟩
        simpa [Layout.symbols] using hsymbols
      · split at run
        · rename_i hlt
          obtain ⟨rfl, rfl⟩ := Prod.mk.inj (Option.some.inj run)
          exact ⟨_, c, ⟨.pending before left lcloses waits ladmits, proper, admits⟩, rfl, rfl,
            admits_pending.2 hlt, closes⟩
        · cases run

theorem close_sound (h : Stands fs ss c) {r : Reader α} (run : close fs c.tree = some r) :
    ∃ fs' ss', ∃ d : Layout α, Stacked fs' ss' ∧ d.Proper ∧ r = ⟨fs', some d.tree⟩ ∧
      ss' ++ .lparen :: d.symbols = ss ++ c.symbols := by
  obtain ⟨before, proper, admits⟩ := h
  induction before generalizing c with
  | nil => cases run
  | @paren fs ss before ih =>
      obtain rfl := Option.some.inj run
      exact ⟨fs, ss, c, before, proper, rfl, by simp⟩
  | @pending fs ss o l before left lcloses waits ladmits ih =>
      obtain ⟨-, hproper, hadmits⟩ := Stands.node before left lcloses waits ladmits
        ⟨.pending before left lcloses waits ladmits, proper, admits⟩
      obtain ⟨fs', ss', d, hd, hdproper, hr, hsymbols⟩ := ih (c := .node o l c) run hproper hadmits
      refine ⟨fs', ss', d, hd, hdproper, hr, ?_⟩
      simpa [Layout.symbols] using hsymbols

theorem finish_sound (h : Stands fs ss c) {t : Tree α} (run : finish fs c.tree = some t) :
    ∃ d : Layout α, d.Proper ∧ d.tree = t ∧ d.symbols = ss ++ c.symbols := by
  obtain ⟨before, proper, admits⟩ := h
  induction before generalizing c with
  | nil =>
      obtain rfl := Option.some.inj run
      exact ⟨c, proper, rfl, rfl⟩
  | paren before ih => cases run
  | @pending fs ss o l before left lcloses waits ladmits ih =>
      obtain ⟨-, hproper, hadmits⟩ := Stands.node before left lcloses waits ladmits
        ⟨.pending before left lcloses waits ladmits, proper, admits⟩
      obtain ⟨d, hd, ht, hsymbols⟩ := ih (c := .node o l c) run hproper hadmits
      refine ⟨d, hd, ht, ?_⟩
      simpa [Layout.symbols] using hsymbols

end Stands

/-- What was read so far comes from a proper layout of the symbols. -/
inductive Reached : Reader α → List (Symbol α) → Prop
  | expecting {fs ss} (before : Stacked fs ss) : Reached ⟨fs, none⟩ ss
  | operand {fs ss} {c : Layout α} (stands : Stands fs ss c) (whole : c.rightEnd = []) :
      Reached ⟨fs, some c.tree⟩ (ss ++ c.symbols)

theorem Reached.step {r r' : Reader α} {ss : List (Symbol α)} {s : Symbol α} (h : Reached r ss)
    (run : Reader.step r s = some r') : Reached r' (ss ++ [s]) := by
  cases h with
  | expecting before =>
      cases s with
      | leaf a =>
          obtain rfl := Option.some.inj run
          exact .operand (c := .leaf a) ⟨before, trivial, by simp [Layout.leftEnd]⟩ rfl
      | lparen =>
          obtain rfl := Option.some.inj run
          exact .expecting (.paren before)
      | rparen | operator o | test negated => cases run
  | @operand fs ss c stands whole =>
      have closes (level : Nat) : ∀ o ∈ c.rightEnd, o.Closes level := by simp [whole]
      cases s with
      | leaf a | lparen => cases run
      | operator o =>
          obtain ⟨⟨fs', t⟩, hsettle, rfl⟩ := Option.map_eq_some_iff.1 run
          obtain ⟨ss', d, hd, rfl, hsymbols, hwaits, hcloses⟩ :=
            stands.settle_sound (closes o.level) hsettle
          rw [← hsymbols, List.append_assoc]
          exact .expecting (.pending hd.before hd.proper hcloses hwaits hd.admits)
      | test negated =>
          obtain ⟨⟨fs', t⟩, hsettle, rfl⟩ := Option.map_eq_some_iff.1 run
          obtain ⟨ss', d, hd, rfl, hsymbols, hwaits, hcloses⟩ :=
            stands.settle_sound (closes Operator.testLevel) hsettle
          rw [← hsymbols, List.append_assoc]
          exact .operand (c := .test negated d) ⟨hd.before, ⟨hd.proper, hcloses⟩,
            List.forall_mem_cons.2 ⟨hwaits, hd.admits⟩⟩ rfl
      | rparen =>
          obtain ⟨fs', ss', d, hd, hproper, rfl, hsymbols⟩ := stands.close_sound run
          have hwhole : ss ++ c.symbols ++ [.rparen] = ss' ++ (Layout.parens d).symbols := by
            rw [← hsymbols]
            simp [Layout.symbols]
          rw [hwhole]
          exact .operand (c := .parens d) ⟨hd, hproper, by simp [Layout.leftEnd]⟩ rfl

theorem Reached.run {r r' : Reader α} {ss ss' : List (Symbol α)} (h : Reached r ss)
    (run : ss'.foldlM Reader.step r = some r') : Reached r' (ss ++ ss') := by
  induction ss' generalizing r ss with
  | nil =>
      obtain rfl := Option.some.inj run
      simpa using h
  | cons s ss' ih =>
      rw [List.foldlM_cons, Option.bind_eq_bind, Option.bind_eq_some_iff] at run
      obtain ⟨middle, hstep, hrest⟩ := run
      simpa using ih (h.step hstep) hrest

/-- What is read has a proper layout. -/
theorem exists_layout_of_readSymbols {ss : List (Symbol α)} {t : Tree α}
    (h : readSymbols ss = some t) : ∃ c : Layout α, c.Proper ∧ c.tree = t ∧ c.symbols = ss := by
  obtain ⟨r, hrun, h⟩ := Option.bind_eq_some_iff.1 h
  obtain ⟨operand, hoperand, hfinish⟩ := Option.bind_eq_some_iff.1 h
  have reached := Reached.run (.expecting .nil) hrun
  rw [List.nil_append] at reached
  cases reached with
  | expecting before => cases hoperand
  | operand stands whole =>
      obtain rfl := Option.some.inj hoperand
      exact stands.finish_sound hfinish

namespace Symbol

/-- The number of parentheses that are open behind some symbols. -/
def excess : List (Symbol α) → Int
  | [] => 0
  | .lparen :: ss => excess ss + 1
  | .rparen :: ss => excess ss - 1
  | _ :: ss => excess ss

/-- The number of symbols beside parentheses. -/
def weight : List (Symbol α) → Nat
  | [] => 0
  | .lparen :: ss | .rparen :: ss => weight ss
  | _ :: ss => weight ss + 1

theorem weight_operator (o : Operator) (ss : List (Symbol α)) :
    weight (.operator o :: ss) = weight ss + 1 := rfl

theorem excess_append (ss ts : List (Symbol α)) : excess (ss ++ ts) = excess ss + excess ts := by
  induction ss with
  | nil => simp [excess]
  | cons s ss ih =>
      cases s <;> simp only [List.cons_append, excess, ih] <;> omega

theorem weight_append (ss ts : List (Symbol α)) : weight (ss ++ ts) = weight ss + weight ts := by
  induction ss with
  | nil => simp [weight]
  | cons s ss ih =>
      cases s <;> simp only [List.cons_append, weight, ih] <;> omega

end Symbol

namespace Layout

open Sql.Symbol

theorem excess_symbols (c : Layout α) : excess c.symbols = 0 := by
  induction c with
  | leaf a => rfl
  | parens c ih => simp [symbols, excess, excess_append, ih]
  | test negated c ih => simp [symbols, excess, excess_append, ih]
  | node o l r ihl ihr => simp [symbols, excess, excess_append, ihl, ihr]

/-- No parenthesis is closed before it is opened. -/
theorem excess_nonneg (c : Layout α) {ss ts : List (Symbol α)} (h : c.symbols = ss ++ ts) :
    0 ≤ excess ss := by
  induction c generalizing ss ts with
  | leaf a =>
      rcases List.append_eq_singleton_iff.1 h.symm with ⟨rfl, -⟩ | ⟨rfl, -⟩ <;> simp [excess]
  | parens c ih =>
      rw [symbols, List.cons_append] at h
      cases ss with
      | nil => simp [excess]
      | cons s ss =>
          rw [List.cons_append, List.cons.injEq] at h
          obtain ⟨rfl, h⟩ := h
          rcases List.append_eq_append_iff.1 h with ⟨us, rfl, hus⟩ | ⟨us, hc, -⟩
          · have hinner := excess_symbols c
            rcases List.append_eq_singleton_iff.1 hus.symm with ⟨rfl, -⟩ | ⟨rfl, -⟩ <;>
              simp [excess, excess_append, hinner]
          · have hinner := ih hc
            simp only [excess]
            omega
  | test negated c ih =>
      rcases List.append_eq_append_iff.1 h with ⟨us, rfl, hus⟩ | ⟨us, hc, -⟩
      · have hinner := excess_symbols c
        rcases List.append_eq_singleton_iff.1 hus.symm with ⟨rfl, -⟩ | ⟨rfl, -⟩ <;>
          simp [excess, excess_append, hinner]
      · exact ih hc
  | node o l r ihl ihr =>
      rcases List.append_eq_append_iff.1 h with ⟨us, rfl, hus⟩ | ⟨us, hl, -⟩
      · rw [excess_append, excess_symbols, Int.zero_add]
        cases us with
        | nil => simp [excess]
        | cons u us =>
            rw [List.cons_append, List.cons.injEq] at hus
            obtain ⟨rfl, hr⟩ := hus
            show 0 ≤ excess us
            exact ihr hr
      · exact ihl hl

theorem weight_symbols (c : Layout α) : weight c.symbols = c.tree.size := by
  induction c with
  | leaf a => rfl
  | parens c ih => simp [symbols, tree, weight, weight_append, ih]
  | test negated c ih => simp [symbols, tree, Tree.size, weight, weight_append, ih]
  | node o l r ihl ihr =>
      simp only [symbols, tree, Tree.size, weight, weight_append, ihl, ihr]
      omega

theorem symbols_ne_nil (c : Layout α) : c.symbols ≠ [] := by
  cases c <;> simp [symbols]

/-- A layout in parentheses does not look like an operator with operands: the parenthesis in
front would be closed before the end. -/
theorem symbols_parens_ne_node (c l r : Layout α) (o : Operator) :
    (parens c).symbols ≠ (node o l r).symbols := by
  intro h
  rw [symbols, symbols, List.cons_append] at h
  obtain ⟨s, ss, hl⟩ := List.exists_cons_of_ne_nil (symbols_ne_nil l)
  obtain ⟨rs, s', hr⟩ := List.eq_nil_or_concat r.symbols |>.resolve_left (symbols_ne_nil r)
  have hbalance := excess_symbols l
  rw [hl, List.cons_append, List.cons.injEq] at h
  obtain ⟨rfl, h⟩ := h
  rw [hr, List.concat_eq_append, ← List.cons_append, ← List.append_assoc] at h
  obtain ⟨hinner, -⟩ := List.append_inj' h rfl
  have hopen := excess_nonneg c hinner
  rw [hl, excess] at hbalance
  omega

/-- What is in front of an operator is told by the number of its symbols. -/
theorem left_eq_of_append {l l' : Layout α} {o o' : Operator} {ss ss' : List (Symbol α)}
    (h : l.symbols ++ .operator o :: ss = l'.symbols ++ .operator o' :: ss')
    (size : l.tree.size = l'.tree.size) :
    l.symbols = l'.symbols ∧ o = o' ∧ ss = ss' := by
  rw [← weight_symbols, ← weight_symbols] at size
  have hsplit : l.symbols = l'.symbols := by
    rcases List.append_eq_append_iff.1 h with ⟨us, hus, hrest⟩ | ⟨us, hus, hrest⟩ <;>
      rcases us with _ | ⟨u, us⟩
    · simpa using hus.symm
    · obtain ⟨rfl, -⟩ := List.cons.inj hrest
      rw [hus, weight_append, weight_operator] at size
      omega
    · simpa using hus
    · obtain ⟨rfl, -⟩ := List.cons.inj hrest
      rw [hus, weight_append, weight_operator] at size
      omega
  rw [hsplit, List.append_cancel_left_eq, List.cons.injEq, Symbol.operator.injEq] at h
  exact ⟨hsplit, h⟩

/-- The symbols and the form of the tree tell the layout. -/
theorem eq_of_symbols_eq {c d : Layout α} (symbols_eq : c.symbols = d.symbols)
    (form : c.tree.form = d.tree.form) : c = d := by
  induction c generalizing d with
  | leaf a =>
      cases d with
      | leaf b => simpa [symbols] using symbols_eq
      | parens d => simp [symbols] at symbols_eq
      | test | node => cases form
  | parens c ih =>
      cases d with
      | leaf b => simp [symbols] at symbols_eq
      | parens d =>
          have hinner : c.symbols = d.symbols := by simpa [symbols] using symbols_eq
          rw [ih hinner form]
      | test negated d =>
          rw [symbols, symbols] at symbols_eq
          obtain ⟨-, hlast⟩ := List.append_inj' symbols_eq rfl
          cases hlast
      | node o l r => exact absurd symbols_eq (symbols_parens_ne_node c l r o)
  | test negated c ih =>
      cases d with
      | leaf | node => cases form
      | parens d =>
          rw [symbols, symbols] at symbols_eq
          obtain ⟨-, hlast⟩ := List.append_inj' symbols_eq rfl
          cases hlast
      | test negated' d =>
          rw [symbols, symbols] at symbols_eq
          obtain ⟨hinner, hlast⟩ := List.append_inj' symbols_eq rfl
          obtain ⟨rfl, hform⟩ : negated = negated' ∧ c.tree.form = d.tree.form := by
            simpa [tree, Tree.form, Tree.map] using form
          rw [ih hinner hform]
  | node o l r ihl ihr =>
      cases d with
      | leaf | test => cases form
      | parens d => exact absurd symbols_eq.symm (symbols_parens_ne_node d l r o)
      | node o' l' r' =>
          obtain ⟨-, hl, hr⟩ :
              o = o' ∧ l.tree.form = l'.tree.form ∧ r.tree.form = r'.tree.form := by
            simpa [tree, Tree.form, Tree.map] using form
          obtain ⟨hleft, rfl, hright⟩ := left_eq_of_append symbols_eq (Tree.size_eq_of_form_eq hl)
          rw [ihl hleft hl, ihr hright hr]

/-- The symbols of a layout are read as a tree of the same form exactly when the layout is
proper. -/
theorem proper_iff_readSymbols {c : Layout α} :
    c.Proper ↔ ∃ t, readSymbols c.symbols = some t ∧ t.form = c.tree.form := by
  constructor
  · exact fun proper => ⟨c.tree, readSymbols_symbols proper, rfl⟩
  · rintro ⟨t, hread, hform⟩
    obtain ⟨d, proper, rfl, hsymbols⟩ := exists_layout_of_readSymbols hread
    obtain rfl := eq_of_symbols_eq hsymbols hform
    exact proper

end Layout

end TypedQuery.Sql
