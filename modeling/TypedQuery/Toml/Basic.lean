import TypedQuery.Number.Double

/-!
# TOML values

Settings files hold tables of named values. Dates and times are told apart from text, but no
setting is one, so only their form is checked.
-/

namespace TypedQuery

inductive Toml where
  | text (s : String)
  | integer (n : Int)
  | float (x : Double)
  | bool (b : Bool)
  | moment
  | array (items : List Toml)
  | table (fields : List (String × Toml))
deriving Inhabited

namespace Toml

def text? : Toml → Option String
  | text s => some s
  | _ => none

def integer? : Toml → Option Int
  | integer n => some n
  | _ => none

end Toml

end TypedQuery
