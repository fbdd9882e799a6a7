import TypedQuery.Error

/-!
# Entity nodes

Entities as they are rebuilt from rows: field values and related nodes, not yet checked
against the types of the fields. Every relation with a node has one list of nodes.
-/

namespace TypedQuery

inductive Node where
  | mk (entity : Entity) (values : List (String × Value)) (relations : List (String × List Node))

namespace Node

def entity : Node → Entity
  | mk e _ _ => e

def values : Node → List (String × Value)
  | mk _ vs _ => vs

def relations : Node → List (String × List Node)
  | mk _ _ rs => rs

def empty (e : Entity) : Node := mk e [] []

/-- The value of a field that was set. -/
def value? (n : Node) (field : String) : Option Value := n.values.lookup field

/-- Sets the value of a field; the latest one counts. -/
def set (n : Node) (field : String) (v : Value) : Node :=
  mk n.entity ((field, v) :: n.values) n.relations

/-- Appends to a list under a name. -/
def append (name : String) (child : Node) : List (String × List Node) → List (String × List Node)
  | [] => [(name, [child])]
  | (r, nodes) :: rest =>
    if r = name then (r, nodes ++ [child]) :: rest else (r, nodes) :: append name child rest

/-- Attaches a node under a relation. -/
def push (n : Node) (relation : String) (child : Node) : Node :=
  mk n.entity n.values (append relation child n.relations)

/-- The nodes attached under a relation. -/
def related (n : Node) (relation : String) : List Node := (n.relations.lookup relation).getD []

def hasRelated (n : Node) (relation : String) : Bool := !(n.related relation).isEmpty

/-- The value of a field as its type stores it; a field that was not set reads as NULL. -/
def get (n : Node) (t : FieldType) (field : String) : Except QueryError t.Carrier :=
  match t.ofValue ((n.value? field).getD .null) with
  | .ok x => .ok x
  | .error e => .error (.rowShape (n.entity.typeName ++ "." ++ field) (.conversion e))

@[simp] theorem value?_set_self (n : Node) (f : String) (v : Value) :
    (n.set f v).value? f = some v := by
  simp [value?, set, values]

@[simp] theorem lookup_append_self (name : String) (c : Node) (rs : List (String × List Node)) :
    (append name c rs).lookup name = some ((rs.lookup name).getD [] ++ [c]) := by
  induction rs with
  | nil => simp [append]
  | cons r rest ih =>
    obtain ⟨r, nodes⟩ := r
    by_cases h : r = name
    · simp [append, h]
    · have h' : (name == r) = false := by simp [Ne.symm h]
      simp [append, h, List.lookup_cons, h', ih]

@[simp] theorem related_push_self (n : Node) (r : String) (c : Node) :
    (n.push r c).related r = n.related r ++ [c] := by
  simp [related, push, relations]

end Node

end TypedQuery
