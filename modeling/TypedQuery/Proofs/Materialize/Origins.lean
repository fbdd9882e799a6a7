import TypedQuery.Proofs.Materialize.Result
import TypedQuery.Proofs.Materialize.Step

/-!
# Where entities and their relations come from

Every slot of a graph has an origin: a place and the row that its entity was read from. A row that
comes to a slot belongs to the same entity as the origin of the slot: it has the same root key, and
on the way to the place the same keys wherever a parent has many of the related entities. Where a
parent has one, the first one that was attached stands for all of them, whatever their keys.

So the parent and the child of a result were met in one row. In this row the child has its key,
and the parent has its key too unless it is itself the one of a relation whose rows disagree.
-/

namespace TypedQuery

namespace Value

theorem sameKey_comm (a b : Value) : a.sameKey b = b.sameKey a := by
  show (a.digest == b.digest && a.same b) = (b.digest == a.digest && b.same a)
  rw [same_comm, Bool.beq_comm]

theorem sameKey_trans {a b c : Value} (h : a.sameKey b = true) (h' : b.sameKey c = true) :
    a.sameKey c = true := by
  rw [sameKey_comm b c] at h'
  exact sameKey_of_sameKey h h'

end Value

namespace Node

/-- The node is one of some nodes or hangs below one of them. -/
inductive Occurs (nodes : List Node) : Node → Prop
  | root {n} (h : n ∈ nodes) : Occurs nodes n
  | related {n relation c} (parent : Occurs nodes n) (child : c ∈ n.related relation) :
      Occurs nodes c

end Node

namespace Graph

variable {g : Graph} {s : Nat} {n : Node}

/-- One child is attached to a node under construction. -/
def attachBuilt (g : Graph) (s : Nat) (n : Node) (child : String × Nat) : Node :=
  if child.2 ≤ s then n
  else match g.build child.2 with
    | some c => n.push child.1 c
    | none => n

theorem build_eq_foldl (h : g.build s = some n) :
    ∃ slot, g.slots[s]? = some slot ∧ n = slot.children.foldl (g.attachBuilt s) slot.node := by
  rw [build] at h
  split at h
  · rename_i hlt
    exact ⟨g.slots[s], List.getElem?_eq_getElem hlt, (Option.some.inj h).symm⟩
  · cases h

theorem attachBuilt_keeps (n : Node) (child : String × Nat) :
    (g.attachBuilt s n child).entity = n.entity ∧ (g.attachBuilt s n child).values = n.values := by
  unfold attachBuilt
  split
  · exact ⟨rfl, rfl⟩
  · split <;> exact ⟨rfl, rfl⟩

/-- A built node has the entity and the values of its slot. -/
theorem keeps_of_build (h : g.build s = some n) : ∃ slot, g.slots[s]? = some slot ∧
    n.entity = slot.node.entity ∧ n.values = slot.node.values := by
  obtain ⟨slot, hslot, rfl⟩ := build_eq_foldl h
  refine ⟨slot, hslot, ?_⟩
  generalize slot.node = start
  induction slot.children generalizing start with
  | nil => exact ⟨rfl, rfl⟩
  | cons child children ih =>
      obtain ⟨hentity, hvalues⟩ := attachBuilt_keeps (g := g) (s := s) start child
      rw [List.foldl_cons, (ih _).1, (ih _).2]
      exact ⟨hentity, hvalues⟩

theorem mem_related_attachBuilt {child : String × Nat} {relation : String} {c : Node}
    (hc : c ∈ (g.attachBuilt s n child).related relation) :
    c ∈ n.related relation ∨ child.1 = relation ∧ g.build child.2 = some c := by
  unfold attachBuilt at hc
  split at hc
  · exact .inl hc
  split at hc
  · rename_i d hd
    rw [Node.related_push] at hc
    rcases List.mem_append.1 hc with hc | hc
    · exact .inl hc
    · split at hc
      · rename_i hrelation
        obtain rfl := List.mem_singleton.1 hc
        exact .inr ⟨hrelation, hd⟩
      · cases hc
  · exact .inl hc

/-- What hangs below a built node is built from the children of its slot. -/
theorem mem_related_of_build (h : g.build s = some n) {relation : String} {c : Node}
    (hc : c ∈ n.related relation) : ∃ slot, g.slots[s]? = some slot ∧
      (c ∈ slot.node.related relation ∨
        ∃ i, (relation, i) ∈ slot.children ∧ g.build i = some c) := by
  obtain ⟨slot, hslot, rfl⟩ := build_eq_foldl h
  refine ⟨slot, hslot, ?_⟩
  revert hc
  generalize slot.node = start
  induction slot.children generalizing start with
  | nil => exact .inl
  | cons child children ih =>
      intro hc
      rcases ih _ hc with hc | ⟨i, hi, hbuild⟩
      · rcases mem_related_attachBuilt hc with hc | ⟨rfl, hbuild⟩
        · exact .inl hc
        · exact .inr ⟨child.2, List.mem_cons_self, hbuild⟩
      · exact .inr ⟨i, List.mem_cons_of_mem _ hi, hbuild⟩

end Graph

namespace Materializer

open Outcome

variable {m : Materializer} {g g' : Graph} {rows : List Row} {r : Row} {index : Nat}

variable (m) in
/-- Does a parent have one entity at the place, and no more? -/
def isOne (place : Nat) : Bool :=
  match (m.joinAt? place).bind PlacedJoin.relation with
  | some relation => relation.cardinality = .one
  | none => false

/-- The rows belong to one entity at a place. A row is its own also where its key is a document
that does not equal itself. -/
inductive SameEntity (m : Materializer) : Nat → Row → Row → Prop
  | self {place r} : SameEntity m place r r
  | root {a b k l} (first : m.HasKey 0 a k) (second : m.HasKey 0 b l) (same : k.sameKey l = true) :
      SameEntity m 0 a b
  | related {index p a b k l} (join : m.joins[index]? = some p)
      (parents : SameEntity m p.parent a b) (first : m.HasKey (index + 1) a k)
      (second : m.HasKey (index + 1) b l)
      (same : m.isOne (index + 1) = true ∨ k.sameKey l = true) : SameEntity m (index + 1) a b

namespace SameEntity

variable {place : Nat} {a b c : Row} {k : Value}

theorem symm (h : m.SameEntity place a b) : m.SameEntity place b a := by
  induction h with
  | self => exact .self
  | root first second same => exact .root second first (Value.sameKey_comm .. ▸ same)
  | related join parents first second same ih =>
      exact .related join ih second first (same.imp_right fun h => Value.sameKey_comm .. ▸ h)

theorem trans (h : m.SameEntity place a b) (h' : m.SameEntity place b c) :
    m.SameEntity place a c := by
  induction h generalizing c with
  | self => exact h'
  | root first second same =>
      cases h' with
      | self => exact .root first second same
      | root first' second' same' =>
          obtain rfl := second.unique first'
          exact .root first second' (Value.sameKey_trans same same')
  | related join parents first second same ih =>
      cases h' with
      | self => exact .related join parents first second same
      | related join' parents' first' second' same' =>
          obtain rfl := Option.some.inj (join.symm.trans join')
          obtain rfl := second.unique first'
          refine .related join (ih parents') first second' ?_
          rcases same with one | same
          · exact .inl one
          · exact same'.imp_right fun same' => Value.sameKey_trans same same'

/-- Each of the rows has a key, and it is the same key where a parent can have many. -/
theorem hasKey (h : m.SameEntity place a b) (first : m.HasKey place a k) :
    ∃ l, m.HasKey place b l ∧ (a = b ∨ m.isOne place = true ∨ k.sameKey l = true) := by
  cases h with
  | self => exact ⟨k, first, .inl rfl⟩
  | root first' second same =>
      obtain rfl := first.unique first'
      exact ⟨_, second, .inr (.inr same)⟩
  | related join parents first' second same =>
      obtain rfl := first.unique first'
      exact ⟨_, second, .inr same⟩

end SameEntity

theorem isOne_succ {p : PlacedJoin} {relation : Relation} (hp : m.joins[index]? = some p)
    (follows : p.relation = some relation) :
    m.isOne (index + 1) = true ↔ relation.cardinality = .one := by
  simp [isOne, joinAt?, hp, follows]

/-- Where a parent has many, what is found again has the same key. -/
theorem same_of_foundBy {p : PlacedJoin} {relation : Relation} {k l : Value}
    (hp : m.joins[index]? = some p) (follows : p.relation = some relation)
    (same : (foundBy relation k).sameKey (foundBy relation l) = true) :
    m.isOne (index + 1) = true ∨ k.sameKey l = true := by
  unfold foundBy at same
  split at same
  · exact .inr same
  · rename_i one
    exact .inl ((isOne_succ hp follows).2 one)

/-- The place of an entity and the row it was read from. -/
structure Origin where
  place : Nat
  row : Row

/-- An entity of the join was read from a row that comes to the parent. -/
structure Hangs (m : Materializer) (parent child : Origin) (name : String) (index : Nat)
    (p : PlacedJoin) : Prop where
  join : m.joins[index]? = some p
  parentPlace : parent.place = p.parent
  childPlace : child.place = index + 1
  name : name = m.relationAt (index + 1)
  met : m.SameEntity p.parent parent.row child.row

/-- The origins of the slots of a graph that has taken in some of the rows. -/
structure Origins (m : Materializer) (g : Graph) (o : Nat → Origin) (rows : List Row) : Prop where
  ofRow : ∀ s, s < g.next → (o s).row ∈ rows ∧ ∃ key, m.HasKey (o s).place (o s).row key
  read : ∀ (s : Nat) (slot : Slot), g.slots[s]? = some slot →
    (m.binding (o s).place).readNode (o s).row = .ok slot.node
  child : ∀ (s : Nat) (slot : Slot), g.slots[s]? = some slot → ∀ c ∈ slot.children,
    c.2 < g.next ∧ ∃ index p, m.Hangs (o s) (o c.2) c.1 index p
  byKey : ∀ key s, (key, s) ∈ g.byKey →
    s < g.next ∧ (o s).place = 0 ∧ m.HasKey 0 (o s).row key
  attached : ∀ a c, (a, c) ∈ g.attached → a.parent < g.next ∧ c < g.next ∧
    ∃ p relation key, m.Hangs (o a.parent) (o c) relation.name a.join p ∧
      p.relation = some relation ∧ m.HasKey (a.join + 1) (o c).row key ∧
      a.key = foundBy relation key

/-- The row has come to the slots: each of them is that of its entity at the place. -/
def Reached (m : Materializer) (g : Graph) (o : Nat → Origin) (r : Row)
    (resolved : List (Option Nat)) : Prop :=
  ∀ (place s : Nat), resolved[place]? = some (some s) →
    s < g.next ∧ (o s).place = place ∧ m.SameEntity place (o s).row r

namespace Reached

variable {o o' : Nat → Origin} {resolved : List (Option Nat)}

theorem of_parent {place s : Nat} (h : m.Reached g o r resolved)
    (hs : resolved.getD place none = some s) :
    s < g.next ∧ (o s).place = place ∧ m.SameEntity place (o s).row r :=
  h place s (getElem?_of_resolved hs)

/-- Slots that are there keep their origins while a graph grows. -/
theorem mono (h : m.Reached g o r resolved) (grows : g.next ≤ g'.next)
    (keeps : ∀ s, s < g.next → o' s = o s) : m.Reached g' o' r resolved := by
  intro place s hs
  obtain ⟨present, hplace, met⟩ := h place s hs
  rw [keeps s present]
  exact ⟨Nat.lt_of_lt_of_le present grows, hplace, met⟩

theorem append {slot : Option Nat} (h : m.Reached g o r resolved)
    (last : ∀ s, slot = some s → s < g.next ∧ (o s).place = resolved.length ∧
      m.SameEntity resolved.length (o s).row r) : m.Reached g o r (resolved ++ [slot]) := by
  intro place s hs
  rcases Nat.lt_or_ge place resolved.length with hlt | hge
  · rw [List.getElem?_append_left hlt] at hs
    exact h place s hs
  · rw [List.getElem?_append_right hge, List.getElem?_singleton] at hs
    split at hs
    · obtain rfl : place = resolved.length := by omega
      exact last s (Option.some.inj hs)
    · cases hs

end Reached

namespace Origins

variable {o : Nat → Origin} {resolved : List (Option Nat)} {key : Value} {n : Node} {s : Nat}

theorem empty (m : Materializer) (o : Nat → Origin) (rows : List Row) :
    Origins m .empty o rows := by
  constructor <;> simp [Graph.empty, Graph.next]

/-- The origins after a slot was added. -/
def withSlot (g : Graph) (o : Nat → Origin) (place : Nat) (r : Row) : Nat → Origin :=
  Function.update o g.next ⟨place, r⟩

theorem withSlot_new (place : Nat) : withSlot g o place r g.next = ⟨place, r⟩ :=
  Function.update_self ..

theorem withSlot_old (place : Nat) (hs : s < g.next) : withSlot g o place r s = o s :=
  Function.update_of_ne (Nat.ne_of_lt hs) ..

/-- A property of all slots after one was added. -/
theorem forall_withSlot {P : Origin → Prop} {place : Nat} (hnext : g'.next = g.next + 1)
    (old : ∀ s, s < g.next → P (o s)) (new : P ⟨place, r⟩) :
    ∀ s, s < g'.next → P (withSlot g o place r s) := by
  intro s hs
  rcases Nat.lt_succ_iff_lt_or_eq.1 (hnext ▸ hs) with hlt | rfl
  · rw [withSlot_old place hlt]
    exact old s hlt
  · rw [withSlot_new]
    exact new

theorem addRoot (h : m.Origins g o rows) (hasKey : m.HasKey 0 r key)
    (read : (m.binding 0).readNode r = .ok n) (hr : r ∈ rows) :
    m.Origins (g.addRoot key n) (withSlot g o 0 r) rows := by
  have hnext : (g.addRoot key n).next = g.next + 1 := Graph.length_slots_addRoot ..
  refine ⟨forall_withSlot hnext (P := fun x => x.row ∈ rows ∧ ∃ key, m.HasKey x.place x.row key)
    h.ofRow ⟨hr, key, hasKey⟩, ?_, ?_, ?_, ?_⟩
  · intro s slot hslot
    rcases Graph.slot_addRoot hslot with ⟨hlt, hslot⟩ | ⟨rfl, rfl⟩
    · rw [withSlot_old 0 hlt]
      exact h.read s slot hslot
    · rw [withSlot_new]
      exact read
  · intro s slot hslot c hc
    rcases Graph.slot_addRoot hslot with ⟨hlt, hslot⟩ | ⟨rfl, rfl⟩
    · obtain ⟨present, hangs⟩ := h.child s slot hslot c hc
      rw [withSlot_old 0 hlt, withSlot_old 0 present]
      exact ⟨by omega, hangs⟩
    · cases hc
  · intro k s hs
    rcases List.mem_cons.1 hs with hnew | hold
    · obtain ⟨rfl, rfl⟩ := Prod.mk.inj hnew
      rw [withSlot_new]
      exact ⟨by omega, rfl, hasKey⟩
    · obtain ⟨present, hplace, hkey⟩ := h.byKey k s hold
      rw [withSlot_old 0 present]
      exact ⟨by omega, hplace, hkey⟩
  · intro a c ha
    obtain ⟨parent, present, hangs⟩ := h.attached a c ha
    rw [withSlot_old 0 parent, withSlot_old 0 present]
    exact ⟨by omega, by omega, hangs⟩

theorem addChild {p : PlacedJoin} {relation : Relation} {parent : Nat} (h : m.Origins g o rows)
    (hp : m.joins[index]? = some p) (follows : p.relation = some relation)
    (present : parent < g.next) (hplace : (o parent).place = p.parent)
    (met : m.SameEntity p.parent (o parent).row r) (hasKey : m.HasKey (index + 1) r key)
    (read : (m.binding (index + 1)).readNode r = .ok n) (hr : r ∈ rows) :
    m.Origins (g.addChild ⟨parent, index, foundBy relation key⟩ relation.name n)
      (withSlot g o (index + 1) r) rows := by
  have hnext : (g.addChild ⟨parent, index, foundBy relation key⟩ relation.name n).next =
      g.next + 1 := Graph.length_slots_addChild ..
  have hangs : m.Hangs (o parent) ⟨index + 1, r⟩ relation.name index p :=
    ⟨hp, hplace, rfl, (relationAt_succ hp follows).symm, met⟩
  refine ⟨forall_withSlot hnext (P := fun x => x.row ∈ rows ∧ ∃ key, m.HasKey x.place x.row key)
    h.ofRow ⟨hr, key, hasKey⟩, ?_, ?_, ?_, ?_⟩
  · intro s slot hslot
    rcases Graph.slot_addChild hslot with ⟨hlt, old, hold, hnode, -⟩ | ⟨rfl, rfl⟩
    · rw [withSlot_old _ hlt, hnode]
      exact h.read s old hold
    · rw [withSlot_new]
      exact read
  · intro s slot hslot c hc
    rcases Graph.slot_addChild hslot with ⟨hlt, old, hold, -, hchildren⟩ | ⟨rfl, rfl⟩
    · rw [withSlot_old _ hlt]
      rcases List.mem_append.1 (hchildren ▸ hc) with hearlier | hlast
      · obtain ⟨present, hangs⟩ := h.child s old hold c hearlier
        rw [withSlot_old _ present]
        exact ⟨by omega, hangs⟩
      · split at hlast
        · rename_i hs
          obtain rfl : s = parent := hs
          obtain rfl := List.mem_singleton.1 hlast
          rw [withSlot_new]
          exact ⟨by omega, index, p, hangs⟩
        · cases hlast
    · cases hc
  · intro k s hs
    obtain ⟨present, hplace, hkey⟩ := h.byKey k s hs
    rw [withSlot_old _ present]
    exact ⟨by omega, hplace, hkey⟩
  · intro a c ha
    rcases List.mem_cons.1 ha with hnew | hold
    · obtain ⟨rfl, rfl⟩ := Prod.mk.inj hnew
      rw [withSlot_new, withSlot_old _ present]
      exact ⟨Nat.lt_of_lt_of_le present (by omega), by omega, p, relation, key, hangs, follows,
        hasKey, rfl⟩
    · obtain ⟨parent, present, hangs⟩ := h.attached a c hold
      rw [withSlot_old _ parent, withSlot_old _ present]
      exact ⟨by omega, by omega, hangs⟩

/-- The root of a row. -/
theorem root (h : m.Origins g o rows) (hr : r ∈ rows) (step : m.TakesRoot g r s g') :
    ∃ o', m.Origins g' o' rows ∧ m.Reached g' o' r [some s] := by
  have nothing (o : Nat → Origin) : m.Reached g' o r [] := fun _ _ hs => by cases hs
  cases step with
  | again hasKey found =>
      obtain ⟨k, hentry, same⟩ := Graph.mem_of_root? found
      obtain ⟨present, hplace, first⟩ := h.byKey k s hentry
      refine ⟨o, h, (nothing o).append fun s' hs => ?_⟩
      obtain rfl := Option.some.inj hs
      exact ⟨present, hplace, .root first hasKey same⟩
  | @fresh key n hasKey new read =>
      have hnext : (g.addRoot key n).next = g.next + 1 := Graph.length_slots_addRoot ..
      refine ⟨_, h.addRoot hasKey read hr, (nothing _).append fun s hs => ?_⟩
      obtain rfl := Option.some.inj hs
      rw [withSlot_new]
      exact ⟨hnext ▸ Nat.lt_succ_self _, rfl, .self⟩

/-- One join of a row. -/
theorem join {p : PlacedJoin} {slot : Option Nat} (h : m.Origins g o rows) (hr : r ∈ rows)
    (reached : m.Reached g o r resolved) (hlength : resolved.length = index + 1)
    (hp : m.joins[index]? = some p) (step : m.TakesJoin g r index p resolved slot g') :
    ∃ o', m.Origins g' o' rows ∧ m.Reached g' o' r (resolved ++ [slot]) := by
  cases step with
  | unresolved | unrelated | unmatched => exact ⟨o, h, reached.append fun s hs => by cases hs⟩
  | @again parent relation key c resolvedParent follows hasKey found =>
      obtain ⟨-, -, met⟩ := reached.of_parent resolvedParent
      obtain ⟨⟨parent', index', key'⟩, hentry, same⟩ := Graph.mem_of_child? found
      simp only [AttachKey.same, Bool.and_eq_true, beq_iff_eq] at same
      obtain ⟨⟨rfl, rfl⟩, same⟩ := same
      obtain ⟨-, present, p', relation', first, hangs, follows', firstKey, rfl⟩ :=
        h.attached _ c hentry
      obtain rfl : p' = p := Option.some.inj (hangs.join.symm.trans hp)
      obtain rfl : relation' = relation := Option.some.inj (follows'.symm.trans follows)
      refine ⟨o, h, reached.append fun c' hc => ?_⟩
      obtain rfl := Option.some.inj hc
      rw [hlength]
      exact ⟨present, hangs.childPlace,
        .related hp (hangs.met.symm.trans met) firstKey hasKey (same_of_foundBy hp follows same)⟩
  | @fresh parent relation key n resolvedParent follows hasKey new read =>
      obtain ⟨present, hplace, met⟩ := reached.of_parent resolvedParent
      have hnext : (g.addChild ⟨parent, index, foundBy relation key⟩ relation.name n).next =
        g.next + 1 := Graph.length_slots_addChild ..
      refine ⟨_, h.addChild hp follows present hplace met hasKey read hr,
        (reached.mono (by omega) fun s hs => withSlot_old _ hs).append fun c hc => ?_⟩
      obtain rfl := Option.some.inj hc
      rw [withSlot_new, hlength]
      exact ⟨by omega, rfl, .self⟩

/-- A whole row. -/
theorem absorb (h : m.Origins g o rows) (hr : r ∈ rows) (run : m.absorb g r = .ok g') :
    ∃ o', m.Origins g' o' rows := by
  rw [Materializer.absorb, bind_ok] at run
  obtain ⟨⟨s, g₁⟩, hroot, hjoins⟩ := run
  obtain ⟨o₁, h₁, reached₁⟩ := h.root hr (takesRoot_of_absorbRoot hroot)
  have start : [some s].length = 0 + 1 ∧ ∃ o, m.Origins g₁ o rows ∧ m.Reached g₁ o r [some s] :=
    ⟨rfl, o₁, h₁, reached₁⟩
  obtain ⟨_, -, o', h', -⟩ := absorbJoins_induction
    (motive := fun g index resolved => resolved.length = index + 1 ∧
      ∃ o, m.Origins g o rows ∧ m.Reached g o r resolved)
    hjoins (Nat.zero_le _) start (by
      rintro _ _ _ _ _ _ hp ⟨hlength, _, origins, reached⟩ hjoin
      exact ⟨by rw [List.length_append, hlength]; rfl,
        origins.join hr reached hlength hp (takesJoin_of_absorbJoin hp hjoin)⟩)
  exact ⟨o', h'⟩

/-- All rows, one after the other. -/
theorem absorbAll (run : m.absorbAll .empty rows = .ok g) : ∃ o, m.Origins g o rows :=
  foldlM_induction (motive := fun g => ∃ o, m.Origins g o rows) run
    ⟨fun _ => ⟨0, ⟨[]⟩⟩, empty m _ rows⟩ fun _ hr _ _ ⟨_, origins⟩ hrow => origins.absorb hr hrow

end Origins

end Materializer

end TypedQuery
