import TypedQuery.Value.Basic

/-!
# The order of values

Numbers are compared across their types, dates with timestamps as midnights, and all else
within one type. NULL, lists and documents are not ordered.
-/

namespace TypedQuery.Value

/-- How two values are ordered, if they are. -/
def compare? : Value → Value → Option Ordering
  | null, _ | _, null => none
  | int a, int b => some (compare a.toInt b.toInt)
  | bool a, bool b => some (compare a b)
  | text a, text b => some (compare a b)
  | uuid a, uuid b => some (a.compare b)
  | timestamp a, timestamp b => some (a.compare b)
  | date a, date b => some (a.compare b)
  | timestamp a, date b => some (a.compare (.midnight b))
  | date a, timestamp b => some (Instant.compare (.midnight a) b)
  | a, b =>
    match a.double?, b.double? with
    | some x, some y => x.compare? y
    | _, _ => none

theorem compare?_int (a b : Int64) : (int a).compare? (int b) = some (compare a.toInt b.toInt) := rfl

end TypedQuery.Value
