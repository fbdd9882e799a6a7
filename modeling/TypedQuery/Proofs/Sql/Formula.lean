import TypedQuery.Expr.Eval
import TypedQuery.Sql.Fragment

/-!
# What a condition says

The tokens of a condition are read into a formula: columns, placeholders and NULL under operators,
tests and predicates. A fragment is read only where parentheses leave one operator on each level,
so no order of precedence is needed.

A formula has a value in a row of columns with the values bound to the placeholders. What a test
for NULL says is left open, to compare tests with comparisons.
-/

namespace TypedQuery

/-- LIKE on values; NULL is like nothing known. -/
def Value.applyLike (a b : Value) : Except EvaluationError Value :=
  if a.isNull || b.isNull then .ok .null
  else match a, b with
    | .text s, .text pattern => .ok (.bool (likeMatch s.toList pattern.toList))
    | a, b => .error (.notText a.typeName b.typeName)

namespace Sql

/-- What a test for NULL says about the value of its operand. -/
abbrev NullTest := Bool → Value → Value

/-- Is the value NULL, or is it not? -/
def nullTest : NullTest := fun negated v => .bool (v.isNull != negated)

/-- Nothing known, as from a comparison with NULL. -/
def comparedWithNull : NullTest := fun _ _ => .null

/-- A condition: columns, placeholders and NULL under operators. -/
inductive Formula where
  | column (qualifier name : String)
  | placeholder (stem : String) (index : Nat)
  | null
  | binary (op : BinaryOp) (l r : Formula)
  | connective (op : Connective) (l r : Formula)
  | test (negated : Bool) (operand : Formula)
  | between (target low high : Formula)
  | like (target pattern : Formula)

namespace Formula

/-- The value of a formula in a row with the values bound to its placeholders. -/
def value (row : String → String → Value) (p : Params) (test : NullTest) :
    Formula → Except EvaluationError Value
  | column qualifier name => .ok (row qualifier name)
  | placeholder _ index => .ok (p.values.getD index .null)
  | null => .ok .null
  | binary op l r => do
    let a ← l.value row p test
    let b ← r.value row p test
    a.applyBinary op b
  | connective op l r => do
    let a ← l.value row p test
    let b ← r.value row p test
    a.applyConnective op b
  | .test negated x => do
    let v ← x.value row p test
    .ok (test negated v)
  | between x low high => do
    let v ← x.value row p test
    let a ← low.value row p test
    let b ← high.value row p test
    let lower ← v.applyBinary .gte a
    let upper ← v.applyBinary .lte b
    lower.applyConnective .and upper
  | like x pattern => do
    let v ← x.value row p test
    let a ← pattern.value row p test
    v.applyLike a

/-- The formula is true: neither false, nor unknown, nor faulty. -/
def Holds (row : String → String → Value) (p : Params) (test : NullTest) (φ : Formula) : Prop :=
  φ.value row p test = .ok (.bool true)

/-- Between two parentheses stand operands, read already, and other words. -/
inductive Item where
  | operand (φ : Formula)
  | word (t : Token)

/-- What a token is between two parentheses. -/
def Item.ofToken? : Token → Option Item
  | .column qualifier name => some (.operand (.column qualifier name))
  | .placeholder stem index => some (.operand (.placeholder stem index))
  | .keyword "NULL" => some (.operand .null)
  | .operator op => some (.word (.operator op))
  | .connective op => some (.word (.connective op))
  | .keyword w => some (.word (.keyword w))
  | _ => none

/-- One operand, or one operator with its operands. -/
def ofItems? : List Item → Option Formula
  | [.operand x] => some x
  | [.operand x, .word (.operator op), .operand y] => some (.binary op x y)
  | [.operand x, .word (.connective op), .operand y] => some (.connective op x y)
  | [.operand x, .word (.keyword "IS NULL")] => some (.test false x)
  | [.operand x, .word (.keyword "IS NOT NULL")] => some (.test true x)
  | [.operand x, .word (.keyword "BETWEEN"), .operand y, .word (.connective .and), .operand z] =>
    some (.between x y z)
  | [.operand x, .word (.keyword "LIKE"), .operand y] => some (.like x y)
  | _ => none

/-- The items of the open parentheses, the innermost first. -/
abbrev Levels := List (List Item)

/-- Reads one token. What stood between two parentheses becomes an operand. -/
def step (levels : Levels) : Token → Option Levels
  | .space => some levels
  | .lparen => some ([] :: levels)
  | .rparen =>
    match levels with
    | inner :: outer :: rest => (ofItems? inner).map fun φ => (outer ++ [.operand φ]) :: rest
    | _ => none
  | t =>
    match levels with
    | inner :: rest => (Item.ofToken? t).map fun item => (inner ++ [item]) :: rest
    | [] => none

/-- The formula that a fragment says. -/
def read? (f : Fragment) : Option Formula := do
  match ← f.foldlM step [[]] with
  | [items] => ofItems? items
  | _ => none

end Formula

namespace Fragment

open Formula

variable {f g : Fragment} {items others : List Item} {φ : Formula} {t : Token}

/-- Reading the fragment adds the items to those of the innermost parentheses. -/
def Reads (f : Fragment) (items : List Item) : Prop :=
  ∀ inner rest, f.foldlM step (inner :: rest) = some ((inner ++ items) :: rest)

namespace Reads

theorem append (hf : Reads f items) (hg : Reads g others) : Reads (f ++ g) (items ++ others) := by
  intro inner rest
  rw [List.foldlM_append, hf inner rest]
  exact (hg _ rest).trans (by rw [List.append_assoc])

theorem of_step {added : List Item} (h : ∀ inner rest, step (inner :: rest) t =
    some ((inner ++ added) :: rest)) : Reads [t] added := by
  intro inner rest
  rw [List.foldlM_cons, h inner rest]
  rfl

theorem space : Reads [.space] [] :=
  of_step fun inner rest => by rw [List.append_nil, step]

theorem token {item : Item} (h : Item.ofToken? t = some item) : Reads [t] [item] := by
  refine of_step fun inner rest => ?_
  cases t with
  | space | lparen | rparen => cases h
  | _ => simp only [step, h, Option.map_some]

theorem around (hf : Reads f items) (ht : Item.ofToken? t = some (.word t)) (hg : Reads g others) :
    Reads (around f t g) (items ++ .word t :: others) :=
  hf.append (space.append ((token ht).append (space.append hg)))

theorem parens (hf : Reads f items) (h : ofItems? items = some φ) :
    Reads (parens f) [.operand φ] := by
  have opened (inner : List Item) (rest : Levels) : f.foldlM step ([] :: inner :: rest) =
      some (items :: inner :: rest) := by
    rw [hf, List.nil_append]
  have closed (inner : List Item) (rest : Levels) : step (items :: inner :: rest) .rparen =
      some ((inner ++ [.operand φ]) :: rest) := by
    rw [step, h, Option.map_some]
  intro inner rest
  rw [Fragment.parens, List.foldlM_append, List.foldlM_cons]
  show (f.foldlM step ([] :: inner :: rest) >>= [.rparen].foldlM step) = _
  rw [opened, Option.bind_eq_bind, Option.bind_some, List.foldlM_cons, closed]
  rfl

theorem read? (hf : Reads f items) : Formula.read? f = ofItems? items := by
  have hread := hf [] []
  rw [List.nil_append] at hread
  rw [Formula.read?, hread]
  rfl

end Reads

end Fragment

end Sql

end TypedQuery
