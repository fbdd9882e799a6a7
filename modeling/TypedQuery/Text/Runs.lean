/-!
# Classes of characters as runs

A class of characters is written as the sizes of its runs: how many character numbers lie
outside it, then how many inside, and so on in turn. Behind the last run all are outside.
-/

namespace TypedQuery.Text

/-- Is a number in the class? The first run is inside the class if `inside` is true. -/
def inRuns (inside : Bool) : List Nat → Nat → Bool
  | [], _ => false
  | size :: sizes, n => if n < size then inside else inRuns (!inside) sizes (n - size)

end TypedQuery.Text
