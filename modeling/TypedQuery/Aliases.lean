import TypedQuery.Error

/-!
# Aliases of entities

Every entity of a query has one short alias, the stem followed by the number of entities
registered before it. A type name stands for one table only.
-/

namespace TypedQuery

structure AliasEntry where
  entity : Entity
  label : String

structure Aliases where
  stem : String
  entries : List AliasEntry

namespace Aliases

def empty (stem : String) : Aliases := ⟨stem, []⟩

/-- A registry whose first alias belongs to the root of a query. -/
def rooted (stem : String) (root : Entity) : Aliases := ⟨stem, [⟨root, Number.numbered stem 0⟩]⟩

def size (a : Aliases) : Nat := a.entries.length

/-- The entry of a type name. -/
def entry? (a : Aliases) (typeName : String) : Option AliasEntry :=
  a.entries.find? (·.entity.typeName == typeName)

/-- A request for the alias of an entity, which is registered on first use: the answer, and the
registry afterwards. -/
def request (a : Aliases) (e : Entity) : Except QueryError String × Aliases :=
  match a.entry? e.typeName with
  | some entry =>
    if entry.entity.table = e.table then (.ok entry.label, a)
    else (.error (.ambiguousAlias e.typeName (.tables entry.label entry.entity.table e.table)), a)
  | none =>
    let name := Number.numbered a.stem a.size
    (.ok name, { a with entries := a.entries ++ [⟨e, name⟩] })

/-- The alias of an entity with the registry afterwards, unless the request is refused. -/
def aliasFor (a : Aliases) (e : Entity) : Except QueryError (String × Aliases) :=
  (a.request e).1.map fun name => (name, (a.request e).2)

/-- The alias of an entity that is registered. -/
def lookup? (a : Aliases) (e : Entity) : Option String :=
  (a.entries.find? (·.entity.same e)).map AliasEntry.label

def contains (a : Aliases) (e : Entity) : Bool := (a.lookup? e).isSome

theorem aliasFor_ok_iff {a as : Aliases} {e : Entity} {label : String} :
    a.aliasFor e = .ok (label, as) ↔ a.request e = (.ok label, as) := by
  unfold aliasFor
  rcases a.request e with ⟨_ | name, registry⟩ <;> simp [Except.map]

theorem aliasFor_of_registered {a : Aliases} {e : Entity} {entry : AliasEntry}
    (h : a.entry? e.typeName = some entry) (ht : entry.entity.table = e.table) :
    a.aliasFor e = .ok (entry.label, a) := by
  simp [aliasFor, request, h, ht, Except.map]

end Aliases

end TypedQuery
