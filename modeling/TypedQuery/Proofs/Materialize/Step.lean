import TypedQuery.Proofs.Materialize.Grouping

/-!
# What a row does to a graph

A row comes to a slot for its root, and to one for the entity of each join whose parent it has
come to. One rule for every way in which that can go says what was read and what became of the
graph. Later statements are proved from these rules and never open the taking in of a row itself.
-/

namespace TypedQuery

namespace Materializer

open Outcome

variable {m : Materializer} {g g' : Graph} {r : Row} {index : Nat} {p : PlacedJoin}
variable {resolved : List (Option Nat)}

variable (m) in
/-- The row has an entity at the place: its key can be read and is not NULL. -/
def HasKey (place : Nat) (r : Row) (key : Value) : Prop :=
  (m.binding place).readKey m.shape.defaultKeyField r = .ok key ∧ key.isNull = false

theorem HasKey.unique {place : Nat} {k l : Value} (h : m.HasKey place r k)
    (h' : m.HasKey place r l) : k = l :=
  Except.ok.inj (h.1.symm.trans h'.1)

/-- A key is read when the row holds one. -/
theorem readKey_ok_iff {place : Nat} {key : Value} :
    (m.binding place).readKey m.shape.defaultKeyField r = .ok key ↔ m.key? place r = some key := by
  unfold Binding.readKey Binding.keyColumn key?
  cases (m.binding place).entity.keyField? m.shape.defaultKeyField with
  | none => simp [bind, Except.bind]
  | some f =>
      show r.read ((m.binding place).column f.name) (some f.kind) = .ok key ↔ _
      exact Row.read_ok_iff

theorem HasKey.key? {place : Nat} {key : Value} (h : m.HasKey place r key) :
    m.key? place r = some key :=
  readKey_ok_iff.1 h.1

theorem HasKey.keyAt {place : Nat} {key : Value} (h : m.HasKey place r key) :
    m.keyAt place r = key := by
  rw [Materializer.keyAt, h.key?]
  rfl

theorem HasKey.nullAt {place : Nat} {key : Value} (h : m.HasKey place r key) :
    m.nullAt place r = false := by
  rw [Materializer.nullAt, h.key?]
  exact h.2

theorem nodeAt_of_ok {place : Nat} {n : Node} (h : (m.binding place).readNode r = .ok n) :
    m.nodeAt place r = n :=
  (Binding.readNode_ok_iff.1 h).2.symm

/-- A row whose key and fields were read holds an entity. -/
theorem HasKey.hasEntity {place : Nat} {key : Value} {n : Node} (h : m.HasKey place r key)
    (read : (m.binding place).readNode r = .ok n) : m.HasEntity place r :=
  ⟨⟨key, h.key?, h.2⟩, (Binding.readNode_ok_iff.1 read).1⟩

theorem binding_succ (hp : m.joins[index]? = some p) :
    m.binding (index + 1) = p.join.related := by
  simp [binding, hp]

theorem relationAt_succ {relation : Relation} (hp : m.joins[index]? = some p)
    (hrelation : p.relation = some relation) : m.relationAt (index + 1) = relation.name := by
  simp [relationAt, joinAt?, hp, hrelation]

/-- The slot that a row has come to at a place. -/
theorem getElem?_of_resolved {place s : Nat} (h : resolved.getD place none = some s) :
    resolved[place]? = some (some s) := by
  rw [List.getD_eq_getElem?_getD] at h
  cases hget : resolved[place]? with
  | none =>
      rw [hget] at h
      cases h
  | some slot =>
      rw [hget] at h
      exact congrArg some h

/-- What a related entity is found by below its parent: its key, where the parent has many, and
nothing more where it has one. -/
def foundBy (relation : Relation) (key : Value) : Value :=
  match relation.cardinality with
  | .many => key
  | .one => .null

/-- A row comes to the slot of its root. -/
inductive TakesRoot (m : Materializer) (g : Graph) (r : Row) : Nat → Graph → Prop
  | again {key s} (hasKey : m.HasKey 0 r key) (found : g.root? key = some s) : TakesRoot m g r s g
  | fresh {key n} (hasKey : m.HasKey 0 r key) (new : g.root? key = none)
      (read : (m.binding 0).readNode r = .ok n) : TakesRoot m g r g.next (g.addRoot key n)

/-- A row comes to the slot of a related entity, or to none; `resolved` are the slots that it has
come to before. -/
inductive TakesJoin (m : Materializer) (g : Graph) (r : Row) (index : Nat) (p : PlacedJoin)
    (resolved : List (Option Nat)) : Option Nat → Graph → Prop
  | unresolved (parent : resolved.getD p.parent none = none) : TakesJoin m g r index p resolved none g
  | unrelated (relation : p.relation = none) : TakesJoin m g r index p resolved none g
  | unmatched {key}
      (read : (m.binding (index + 1)).readKey m.shape.defaultKeyField r = .ok key)
      (null : key.isNull = true) : TakesJoin m g r index p resolved none g
  | again {parent relation key c} (resolvedParent : resolved.getD p.parent none = some parent)
      (follows : p.relation = some relation) (hasKey : m.HasKey (index + 1) r key)
      (found : g.child? ⟨parent, index, foundBy relation key⟩ = some c) :
      TakesJoin m g r index p resolved (some c) g
  | fresh {parent relation key n} (resolvedParent : resolved.getD p.parent none = some parent)
      (follows : p.relation = some relation) (hasKey : m.HasKey (index + 1) r key)
      (new : g.child? ⟨parent, index, foundBy relation key⟩ = none)
      (read : (m.binding (index + 1)).readNode r = .ok n) :
      TakesJoin m g r index p resolved (some g.next)
        (g.addChild ⟨parent, index, foundBy relation key⟩ relation.name n)

theorem takesRoot_of_absorbRoot {s : Nat} (h : m.absorbRoot g r = .ok (s, g')) :
    m.TakesRoot g r s g' := by
  unfold absorbRoot at h
  dsimp only at h
  rw [bind_ok] at h
  obtain ⟨key, hkey, h⟩ := h
  split at h
  · rw [bind_ok] at h
    obtain ⟨_, -, h⟩ := h
    cases h
  rename_i hnull
  have hasKey : m.HasKey 0 r key := ⟨hkey, Bool.eq_false_iff.2 hnull⟩
  split at h
  · rename_i slot hfound
    obtain ⟨rfl, rfl⟩ := Prod.mk.inj (Except.ok.inj h)
    exact .again hasKey hfound
  · rename_i hnew
    rw [bind_ok] at h
    obtain ⟨n, hn, h⟩ := h
    obtain ⟨rfl, rfl⟩ := Prod.mk.inj (Except.ok.inj h)
    exact .fresh hasKey hnew hn

/-- A join whose parent and relation are known is looked up under its key. -/
theorem absorbJoin_of_related {parent : Nat} {relation : Relation}
    (hparent : resolved.getD p.parent none = some parent) (hrelation : p.relation = some relation) :
    m.absorbJoin g r index p resolved = (do
      let key ← p.join.related.readKey m.shape.defaultKeyField r
      if key.isNull then .ok (none, g)
      else match g.child? ⟨parent, index, foundBy relation key⟩ with
        | some child => .ok (some child, g)
        | none => do
          let n ← p.join.related.readNode r
          .ok (some g.next,
            g.addChild ⟨parent, index, foundBy relation key⟩ relation.name n)) := by
  rw [absorbJoin, hparent, hrelation]
  rfl

theorem takesJoin_of_absorbJoin {slot : Option Nat} (hp : m.joins[index]? = some p)
    (h : m.absorbJoin g r index p resolved = .ok (slot, g')) :
    m.TakesJoin g r index p resolved slot g' := by
  cases hparent : resolved.getD p.parent none with
  | none =>
      rw [absorbJoin, hparent] at h
      obtain ⟨rfl, rfl⟩ := Prod.mk.inj (Except.ok.inj h)
      exact .unresolved hparent
  | some parent =>
      cases hrelation : p.relation with
      | none =>
          rw [absorbJoin, hparent, hrelation] at h
          obtain ⟨rfl, rfl⟩ := Prod.mk.inj (Except.ok.inj h)
          exact .unrelated hrelation
      | some relation =>
          rw [absorbJoin_of_related hparent hrelation, bind_ok] at h
          obtain ⟨key, hkey, h⟩ := h
          rw [← binding_succ hp] at hkey
          split at h
          · rename_i hnull
            obtain ⟨rfl, rfl⟩ := Prod.mk.inj (Except.ok.inj h)
            exact .unmatched hkey hnull
          rename_i hnull
          have hasKey : m.HasKey (index + 1) r key := ⟨hkey, Bool.eq_false_iff.2 hnull⟩
          split at h
          · rename_i c hfound
            obtain ⟨rfl, rfl⟩ := Prod.mk.inj (Except.ok.inj h)
            exact .again hparent hrelation hasKey hfound
          · rename_i hnew
            rw [bind_ok] at h
            obtain ⟨n, hn, h⟩ := h
            obtain ⟨rfl, rfl⟩ := Prod.mk.inj (Except.ok.inj h)
            rw [← binding_succ hp] at hn
            exact .fresh hparent hrelation hasKey hnew hn

/-- What holds before the joins of a row and is kept by each of them holds after the last one. The
property is told how many joins have been looked at and what they came to. -/
theorem absorbJoins_induction {motive : Graph → Nat → List (Option Nat) → Prop}
    (h : m.absorbJoins r g index resolved (m.joins.drop index) = .ok g')
    (hindex : index ≤ m.joins.length) (start : motive g index resolved)
    (step : ∀ (g g₁ : Graph) (index : Nat) (p : PlacedJoin) (resolved : List (Option Nat))
      (slot : Option Nat), m.joins[index]? = some p → motive g index resolved →
      m.absorbJoin g r index p resolved = .ok (slot, g₁) →
      motive g₁ (index + 1) (resolved ++ [slot])) :
    ∃ resolved', motive g' m.joins.length resolved' := by
  induction hps : m.joins.drop index generalizing g index resolved with
  | nil =>
      rw [hps] at h
      obtain rfl := Except.ok.inj h
      have hlength := List.drop_eq_nil_iff.1 hps
      obtain rfl : index = m.joins.length := by omega
      exact ⟨resolved, start⟩
  | cons p ps ih =>
      rw [hps, absorbJoins, bind_ok] at h
      obtain ⟨⟨slot, g₁⟩, hjoin, hrest⟩ := h
      have hp : m.joins[index]? = some p := by
        rw [← List.head?_drop, hps, List.head?_cons]
      have hrestJoins : m.joins.drop (index + 1) = ps := by
        rw [← List.tail_drop, hps, List.tail_cons]
      have hlt : index < m.joins.length := (List.getElem?_eq_some_iff.1 hp).1
      exact ih (hrestJoins ▸ hrest) hlt (step g g₁ index p resolved slot hp start hjoin) hrestJoins

/-- Graphs are built when all joins follow relations and all rows can be taken in. -/
theorem materialize_ok_iff (builds : m.buildsGraphs = true) {rows : List Row} {nodes : List Node} :
    m.materialize rows = .ok nodes ↔
      m.checkRelations = .ok () ∧ ∃ g, m.absorbAll .empty rows = .ok g ∧ g.nodes = nodes := by
  rw [materialize, if_pos builds, bind_ok]
  constructor
  · rintro ⟨_, hcheck, hrun⟩
    obtain ⟨g, hg, hnodes⟩ := bind_ok.1 hrun
    exact ⟨hcheck, g, hg, Except.ok.inj hnodes⟩
  · rintro ⟨hcheck, g, hg, rfl⟩
    exact ⟨(), hcheck, bind_ok.2 ⟨g, hg, rfl⟩⟩

end Materializer

end TypedQuery
