import TypedQuery.Error
import TypedQuery.Params

/-!
# Positional placeholders

The database numbers its parameters from one, behind a dollar sign. The placeholders of a
statement are found again in its text: the stem with digits behind it. A stem without digits
is other text, and so is all that stands between placeholders.
-/

namespace TypedQuery.Sql

/-- A piece of a text in which placeholders are looked for. -/
inductive Piece where
  | char (c : Char)
  | bareStem
  | placeholder (digits : List Char)
deriving DecidableEq

namespace Piece

/-- The text of a piece under a stem. -/
def text (stem : List Char) : Piece → List Char
  | char c => [c]
  | bareStem => stem
  | placeholder digits => stem ++ digits

/-- The pieces of a text from left to right. The stem, given by its first character and the
others, is taken wherever it is met first, with all digits behind it. -/
def ofText (first : Char) (others : List Char) : List Char → List Piece
  | [] => []
  | c :: cs =>
    if (first :: others).isPrefixOf (c :: cs) then
      let after := cs.drop others.length
      let digits := after.takeWhile Char.isDigit
      let piece := if digits = [] then bareStem else placeholder digits
      piece :: ofText first others (after.drop digits.length)
    else char c :: ofText first others cs
termination_by text => text.length

/-- The piece with a position in place of a placeholder. -/
def positional (p : Params) : Piece → Except QueryError (List Char)
  | char c => .ok [c]
  | bareStem => .ok p.stem.toList
  | placeholder digits =>
    let name := p.stem ++ String.ofList digits
    match p.entries.findIdx? (·.1 == name) with
    | some i => .ok ('$' :: Number.digits (i + 1))
    | none => .error (.unsupported (.unbound name))

end Piece

/-- The text of a statement with positions in place of placeholders. -/
def positional (p : Params) (sql : String) : Except QueryError String :=
  match p.stem.toList with
  | [] => .error (.unsupported .emptyStem)
  | first :: others => do
    let parts ← (Piece.ofText first others sql.toList).mapM (Piece.positional p)
    .ok (String.ofList parts.flatten)

end TypedQuery.Sql
