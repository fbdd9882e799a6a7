import TypedQuery.Text.CaseFold

/-!
# Identifiers

Names that reach a statement verbatim: tables, grouping keys and aggregates. They are plain
ASCII words of a limited length that are no keyword. Values never reach a statement.
-/

namespace TypedQuery

/-- Why a name is no identifier. -/
inductive IdentifierError where
  | empty
  | tooLong (name : String)
  | invalidStart (name : String)
  | invalidCharacters (name : String)
  | reserved (name : String)
deriving DecidableEq

namespace Identifier

/-- The length in bytes that the database keeps of a name. -/
def maxLength : Nat := 63

def reservedWords : List String :=
  ["ALL", "AND", "AS", "ASC", "BETWEEN", "BY", "CASE", "CROSS", "DESC", "DISTINCT", "ELSE",
    "END", "EXISTS", "FALSE", "FETCH", "FROM", "FULL", "GROUP", "HAVING", "IN", "INNER", "IS",
    "JOIN", "LEFT", "LIKE", "LIMIT", "NOT", "NULL", "OFFSET", "ON", "OR", "ORDER", "OUTER",
    "RIGHT", "SELECT", "THEN", "TRUE", "UNION", "USING", "WHEN", "WHERE", "WITH", "COUNT",
    "SUM", "AVG", "MIN", "MAX", "INSERT", "UPDATE", "DELETE", "CREATE", "DROP", "ALTER",
    "TABLE"]

/-- Is the name a keyword, in any case? -/
def isReserved (name : String) : Bool := reservedWords.any (Text.alike · name)

def isStart (c : Char) : Bool := c.isAlpha || c == '_'

def isPart (c : Char) : Bool := c.isAlphanum || c == '_'

/-- Checks a name; the first fault in this order is reported. -/
def check (name : String) : Except IdentifierError Unit :=
  match name.toList with
  | [] => .error .empty
  | c :: cs =>
    if maxLength < name.utf8ByteSize then .error (.tooLong name)
    else if !isStart c then .error (.invalidStart name)
    else if !(c :: cs).all isPart then .error (.invalidCharacters name)
    else if isReserved name then .error (.reserved name)
    else .ok ()

end Identifier

namespace IdentifierError

def message : IdentifierError → String
  | empty => "Name cannot be empty"
  | tooLong name =>
    "Name '" ++ name ++ "' is too long: " ++ toString name.utf8ByteSize ++ " characters (max " ++
      toString Identifier.maxLength ++ ")"
  | invalidStart name => "Name '" ++ name ++ "' must start with a letter or underscore"
  | invalidCharacters name =>
    "Invalid characters in name '" ++ name ++
      "': only alphanumeric characters and underscores are allowed"
  | reserved name => "Name '" ++ name ++ "' is a reserved SQL keyword"

end IdentifierError

end TypedQuery
