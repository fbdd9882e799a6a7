import TypedQuery.Declaration.Token
import TypedQuery.Entity

/-!
# Types in declarations

The type of a field is text; only its tokens matter. A relation is a path whose last segment
is a list or an optional value of exactly one type.
-/

namespace TypedQuery

/-- How deep a token lies in brackets. Angle brackets count only outside all other brackets,
where they cannot be comparisons. -/
structure Nesting where
  angles : Nat
  groups : Nat
deriving DecidableEq

namespace Nesting

def outside : Nesting := ⟨0, 0⟩

def after (n : Nesting) (t : Token) : Nesting :=
  if ["(", "[", "\x7b"].any (t = .mark ·) then { n with groups := n.groups + 1 }
  else if [")", "]", "\x7d"].any (t = .mark ·) then { n with groups := n.groups - 1 }
  else if n.groups ≠ 0 then n
  else if t = .mark "<" then { n with angles := n.angles + 1 }
  else if t = .mark ">" then { n with angles := n.angles - 1 }
  else n

end Nesting

namespace TypeText

/-- The tokens in the brackets that are open, and those behind them. -/
def takeBracketed? : Nesting → List Token → Option (List Token × List Token)
  | _, [] => none
  | n, t :: ts =>
    if n.after t = .outside then some ([], ts)
    else (takeBracketed? (n.after t) ts).map fun (inner, rest) => (t :: inner, rest)

/-- Tokens between commas that are in no brackets; nothing follows a comma at the end. -/
def arguments : Nesting → List Token → List (List Token)
  | _, [] => []
  | n, t :: ts =>
    if n = .outside ∧ t = .mark "," then [] :: arguments n ts
    else match arguments (n.after t) ts with
      | [] => [[t]]
      | arg :: args => (t :: arg) :: args

/-- The last segment of a path: its word, and its arguments unless it has no angle brackets. -/
structure Segment where
  word : String
  arguments : Option (List (List Token))

/-- The tokens behind the parameters of a function, given those behind the opening bracket. A
path may go on behind parameters, and behind a result only if that is in brackets too. -/
def skipParameters? (ts : List Token) : Option (List Token) := do
  match (← takeBracketed? ⟨0, 1⟩ ts).2 with
  | .mark "->" :: .mark "(" :: ts => (takeBracketed? ⟨0, 1⟩ ts).map Prod.snd
  | .mark "->" :: _ => some []
  | ts => some ts

/-- The last segment of a path that is the whole text. -/
def lastSegment? : Nat → List Token → Option Segment
  | 0, _ => none
  | fuel + 1, .word w :: ts => do
    let (args, rest) ← match ts with
      | .mark "<" :: ts | .mark "::" :: .mark "<" :: ts =>
        (takeBracketed? ⟨1, 0⟩ ts).map fun (inner, rest) =>
          (some (TypeText.arguments .outside inner), rest)
      | .mark "(" :: ts | .mark "::" :: .mark "(" :: ts =>
        (skipParameters? ts).map fun rest => (none, rest)
      | ts => some (none, ts)
    match rest with
    | [] => some ⟨w, args⟩
    | .mark "::" :: rest => lastSegment? fuel rest
    | _ => none
  | _, _ => none

/-- Words that start types which are no paths. -/
def notPath : List String := ["dyn", "impl", "fn", "unsafe", "extern", "for"]

/-- The last segment of a type that is a path. It may start with a mark of its own or with a
type in brackets. -/
def pathEnd? (ts : List Token) : Option Segment :=
  match ts with
  | .mark "::" :: rest => lastSegment? rest.length rest
  | .mark "<" :: rest => do
    match ← takeBracketed? ⟨1, 0⟩ rest with
    | (_, .mark "::" :: rest) => lastSegment? rest.length rest
    | _ => none
  | .word w :: _ => if notPath.contains w then none else lastSegment? ts.length ts
  | _ => none

/-- Is there a mark outside all brackets? -/
def hasMark (s : String) : Nesting → List Token → Bool
  | _, [] => false
  | n, t :: ts => (n = .outside && t = .mark s) || hasMark s (n.after t) ts

/-- Is the argument a type, rather than a lifetime, a constant or a named argument? -/
def isType (arg : List Token) : Bool :=
  match arg with
  | [] | .literal _ :: _ | .mark "\x7b" :: _ | .mark "-" :: _ => false
  | .lifetime _ :: rest => rest.head? == some (.mark "+")
  | [.word "true"] | [.word "false"] => false
  | arg => !hasMark "=" .outside arg && !hasMark ":" .outside arg

/-- The related type of a field and the number of related entities. -/
def relation? (s : String) : Option (String × Cardinality) := do
  let segment ← pathEnd? (Token.ofText s)
  let cardinality ← match segment.word with
    | "Vec" => some .many
    | "Option" => some .one
    | _ => none
  match ← segment.arguments with
  | [arg] => if isType arg then some (Token.squeezed arg, cardinality) else none
  | _ => none

end TypeText

end TypedQuery
