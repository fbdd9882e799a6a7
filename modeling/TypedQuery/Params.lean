import TypedQuery.Number.Digits
import TypedQuery.Value.Basic

/-!
# Bound parameters

The values bound to a statement in the order of their placeholders. A placeholder is the
stem followed by the position of its value.
-/

namespace TypedQuery

structure Params where
  stem : String
  values : List Value

namespace Params

def empty (stem : String) : Params := ⟨stem, []⟩

def push (p : Params) (v : Value) : Params := { p with values := p.values ++ [v] }

def size (p : Params) : Nat := p.values.length

/-- The placeholders with their values. -/
def entries (p : Params) : List (String × Value) :=
  p.values.zipIdx.map fun (v, i) => (Number.numbered p.stem i, v)

def get? (p : Params) (name : String) : Option Value := p.entries.lookup name

@[simp] theorem size_push (p : Params) (v : Value) : (p.push v).size = p.size + 1 := by
  simp [push, size]

@[simp] theorem length_entries (p : Params) : p.entries.length = p.size := by
  simp [entries, size]

end Params

end TypedQuery
