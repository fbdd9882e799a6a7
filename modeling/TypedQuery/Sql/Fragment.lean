import TypedQuery.Clause
import TypedQuery.Expr.Operator
import TypedQuery.Params

/-!
# Pieces of statements

A statement is a list of tokens and its text is their texts in a row. Blanks are tokens of
their own, so two lists of tokens are the same exactly when they were built alike. Values
have no token: they stand behind their placeholders.
-/

namespace TypedQuery.Sql

inductive Token where
  /-- A column behind the alias of its table. -/
  | column (qualifier name : String)
  | placeholder (stem : String) (index : Nat)
  | operator (op : BinaryOp)
  | connective (op : Connective)
  | keyword (word : String)
  /-- A table, an alias or an output column. -/
  | name (s : String)
  | number (n : Nat)
  /-- A condition without operands that always or never holds. -/
  | truth (b : Bool)
  | lparen
  | rparen
  | comma
  | star
  | space
  | newline
  /-- Text that was given from outside. -/
  | raw (s : String)
deriving DecidableEq

namespace Token

def text : Token → String
  | column q n => q ++ "." ++ n
  | placeholder stem index => Number.numbered stem index
  | operator op => op.symbol
  | connective op => op.symbol
  | keyword word => word
  | name s => s
  | number n => Number.textOfNat n
  | truth b => if b then "1=1" else "1=0"
  | lparen => "("
  | rparen => ")"
  | comma => ","
  | star => "*"
  | space => " "
  | newline => "\n"
  | raw s => s

end Token

abbrev Fragment := List Token

namespace Fragment

def text (f : Fragment) : String := String.join (f.map Token.text)

@[simp] theorem text_nil : text [] = "" := rfl

/-- Does the fragment have no text? -/
def isBlank (f : Fragment) : Bool := f.text == ""

def parens (f : Fragment) : Fragment := .lparen :: f ++ [.rparen]

/-- Two operands around a token. -/
def around (l : Fragment) (t : Token) (r : Fragment) : Fragment := l ++ .space :: t :: .space :: r

/-- A keyword in front of a fragment. -/
def after (word : String) (f : Fragment) : Fragment := .keyword word :: .space :: f

/-- A fragment under an output name. -/
def named (f : Fragment) (s : String) : Fragment := f ++ [.space, .keyword "AS", .space, .name s]

/-- The tokens between two fragments of a clause. -/
def separation : Clause.Separator → Fragment
  | .comma => [.comma, .space]
  | .and => [.space, .connective .and, .space]
  | .newline => [.newline]

/-- Fragments with the tokens of a separator between them. -/
def joined (s : Clause.Separator) (fs : List Fragment) : Fragment := (separation s).intercalate fs

/-- The fragments that have text, one a line. -/
def lines (fs : List Fragment) : Fragment := joined .newline (fs.filter (!·.isBlank))

/-- Given conditions as one; several are put in parentheses. -/
def conjunction? : List Fragment → Option Fragment
  | [] => none
  | [f] => some f
  | fs => some (joined .and (fs.map parens))

/-- The placeholders of a fragment from left to right. -/
def placeholders (f : Fragment) : List (String × Nat) :=
  f.filterMap fun
    | .placeholder stem i => some (stem, i)
    | _ => none

@[simp] theorem placeholders_append (f g : Fragment) :
    placeholders (f ++ g) = placeholders f ++ placeholders g := by
  simp [placeholders, List.filterMap_append]

end Fragment

end TypedQuery.Sql
