import TypedQuery.Node
import TypedQuery.Value.Key

/-!
# Graphs under construction

The nodes rebuilt from a list of rows, in the order in which they were first seen. A node is
in a slot of its own and knows the slots of its children, which come later. Roots are found by
their keys, children by the slot of the parent, the join and their keys.
-/

namespace TypedQuery

/-- A node without its children, and the relations and slots of those. -/
structure Slot where
  node : Node
  children : List (String × Nat)

/-- What a child is found by. -/
structure AttachKey where
  parent : Nat
  join : Nat
  key : Value

def AttachKey.same (a b : AttachKey) : Bool :=
  a.parent == b.parent && a.join == b.join && a.key.sameKey b.key

structure Graph where
  slots : List Slot
  roots : List Nat
  byKey : List (Value × Nat)
  attached : List (AttachKey × Nat)

namespace Graph

def empty : Graph := ⟨[], [], [], []⟩

/-- The slot of the root with a key. -/
def root? (g : Graph) (key : Value) : Option Nat :=
  (g.byKey.find? (·.1.sameKey key)).map Prod.snd

/-- The slot of a child. -/
def child? (g : Graph) (key : AttachKey) : Option Nat :=
  (g.attached.find? (·.1.same key)).map Prod.snd

/-- The slot that the next node gets. -/
def next (g : Graph) : Nat := g.slots.length

/-- Adds a root. -/
def addRoot (g : Graph) (key : Value) (n : Node) : Graph :=
  { g with
    slots := g.slots ++ [⟨n, []⟩]
    roots := g.roots ++ [g.next]
    byKey := (key, g.next) :: g.byKey }

/-- Adds a child below a slot. -/
def addChild (g : Graph) (key : AttachKey) (relation : String) (n : Node) : Graph :=
  let link (s : Slot) : Slot := { s with children := s.children ++ [(relation, g.next)] }
  { g with
    slots := g.slots.modify key.parent link ++ [⟨n, []⟩]
    attached := (key, g.next) :: g.attached }

/-- The node of a slot with all that is attached below it. Children are in later slots. -/
def build (g : Graph) (i : Nat) : Option Node :=
  if h : i < g.slots.length then
    let slot := g.slots[i]
    some (slot.children.foldl (fun n (relation, child) =>
      if child ≤ i then n
      else match build g child with
        | some c => n.push relation c
        | none => n) slot.node)
  else none
termination_by g.slots.length - i

/-- The roots with all that is attached below them. -/
def nodes (g : Graph) : List Node := g.roots.filterMap g.build

@[simp] theorem length_slots_addRoot (g : Graph) (key : Value) (n : Node) :
    (g.addRoot key n).slots.length = g.slots.length + 1 := by
  simp [addRoot]

@[simp] theorem length_slots_addChild (g : Graph) (key : AttachKey) (r : String) (n : Node) :
    (g.addChild key r n).slots.length = g.slots.length + 1 := by
  simp [addChild]

end Graph

end TypedQuery
