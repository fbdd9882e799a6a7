import Mathlib.Logic.Function.Basic
import TypedQuery.Proofs.Materialize.Grouping

/-!
# What a graph has taken in

Every slot of a graph under construction has a trace: the place and the rows of its entity, and
the visits below it that were attached so far. The traces determine the graph. One lemma for
each step that changes a graph says how the traces grow.
-/

namespace TypedQuery

namespace Materializer

variable {m : Materializer}

theorem euclidean_sameRoot (m : Materializer) : Euclidean (m.sameRoot Value.sameKey) :=
  fun _ _ _ => Value.sameKey_of_sameKey

theorem euclidean_sameVisit (m : Materializer) : Euclidean (m.sameVisit Value.sameKey) := by
  intro v w x hv hw
  simp only [sameVisit, Bool.and_eq_true, beq_iff_eq] at hv hw ⊢
  exact ⟨hv.1.trans hw.1.symm, Value.sameKey_of_sameKey hv.2 hw.2⟩

end Materializer

/-- What became of a slot. -/
structure SlotTrace where
  place : Nat
  parent : Nat
  first : Row
  others : List Row
  seen : List Materializer.Visit

namespace SlotTrace

open Materializer

/-- The rows of the entity. -/
def rows (x : SlotTrace) : List Row := x.first :: x.others

/-- The entity as one below its parent. -/
def childClass (x : SlotTrace) : Visit × List Visit :=
  (⟨x.place, x.first⟩, x.others.map (Visit.mk x.place))

def addRow (x : SlotTrace) (r : Row) : SlotTrace := { x with others := x.others ++ [r] }

def addVisit (x : SlotTrace) (v : Visit) : SlotTrace := { x with seen := x.seen ++ [v] }

end SlotTrace

namespace Materializer

/-- The traces after a slot `s` has seen a visit of the slot `c`, whose trace is now `x`. -/
def visitChild (t : Nat → SlotTrace) (s c : Nat) (x : SlotTrace) (v : Visit) : Nat → SlotTrace :=
  Function.update (Function.update t c x) s ((t s).addVisit v)

section visitChild

variable {t : Nat → SlotTrace} {s c : Nat} {x : SlotTrace} {v : Visit}

theorem visitChild_parent : visitChild t s c x v s = (t s).addVisit v :=
  Function.update_self ..

theorem visitChild_child (hcs : c ≠ s) : visitChild t s c x v c = x := by
  rw [visitChild, Function.update_of_ne hcs, Function.update_self]

theorem visitChild_of_ne {y : Nat} (hs : y ≠ s) (hc : y ≠ c) : visitChild t s c x v y = t y := by
  rw [visitChild, Function.update_of_ne hs, Function.update_of_ne hc]

/-- All but the child keep their entities and their rows. -/
theorem visitChild_keeps {y : Nat} (hc : y ≠ c) :
    (visitChild t s c x v y).place = (t y).place ∧ (visitChild t s c x v y).parent = (t y).parent ∧
      (visitChild t s c x v y).first = (t y).first ∧
      (visitChild t s c x v y).others = (t y).others := by
  rcases eq_or_ne y s with rfl | hs
  · rw [visitChild_parent]
    exact ⟨rfl, rfl, rfl, rfl⟩
  · rw [visitChild_of_ne hs hc]
    exact ⟨rfl, rfl, rfl, rfl⟩

theorem childClass_visitChild {y : Nat} (hc : y ≠ c) :
    (visitChild t s c x v y).childClass = (t y).childClass := by
  obtain ⟨hplace, -, hfirst, hothers⟩ := visitChild_keeps hc
  rw [SlotTrace.childClass, hplace, hfirst, hothers]
  rfl

end visitChild

/-- A child of a slot and its trace. -/
structure IsChild (m : Materializer) (s : Nat) (c : String × Nat) (next : Nat) (x : SlotTrace) :
    Prop where
  later : s < c.2
  present : c.2 < next
  parent : x.parent = s
  place : x.place ≠ 0
  relation : c.1 = m.relationAt x.place

/-- The traces of a graph that has taken in the roots of some rows. -/
structure Traces (m : Materializer) (g : Graph) (t : Nat → SlotTrace) (rows : List Row) : Prop where
  node : ∀ (s : Nat) (slot : Slot), g.slots[s]? = some slot →
    slot.node = m.nodeAt (t s).place (t s).first
  hasEntity : ∀ s < g.next, m.HasEntity (t s).place (t s).first
  roots : classes (m.sameRoot Value.sameKey) rows = g.roots.map fun s => ((t s).first, (t s).others)
  rootSlot : ∀ s ∈ g.roots, s < g.next ∧ (t s).place = 0
  rootsNodup : g.roots.Nodup
  byKey : ∀ k s, (k, s) ∈ g.byKey ↔ s ∈ g.roots ∧ k = m.keyAt 0 (t s).first
  children : ∀ (s : Nat) (slot : Slot), g.slots[s]? = some slot →
    classes (m.sameVisit Value.sameKey) (t s).seen = slot.children.map fun c => (t c.2).childClass
  child : ∀ (s : Nat) (slot : Slot), g.slots[s]? = some slot →
    ∀ c ∈ slot.children, m.IsChild s c g.next (t c.2)
  childrenNodup : ∀ (s : Nat) (slot : Slot), g.slots[s]? = some slot →
    (slot.children.map Prod.snd).Nodup
  attached : ∀ a c, (a, c) ∈ g.attached ↔
    (∃ (slot : Slot) (relation : String), g.slots[a.parent]? = some slot ∧
      (relation, c) ∈ slot.children) ∧
      (t c).place = a.join + 1 ∧ a.key = m.keyAt (t c).place (t c).first

end Materializer

namespace Graph

variable {g : Graph} {k : Value} {s : Nat}

theorem mem_of_root? (h : g.root? k = some s) :
    ∃ found, (found, s) ∈ g.byKey ∧ found.sameKey k = true := by
  obtain ⟨⟨found, s'⟩, hfind, rfl⟩ := Option.map_eq_some_iff.1 h
  have hsame := List.find?_some hfind
  exact ⟨found, List.mem_of_find?_eq_some hfind, hsame⟩

theorem not_sameKey_of_root? (h : g.root? k = none) {found : Value} (hmem : (found, s) ∈ g.byKey) :
    found.sameKey k = false := by
  have hnone := List.find?_eq_none.1 (Option.map_eq_none_iff.1 h) _ hmem
  simpa using hnone

theorem mem_of_child? {a : AttachKey} (h : g.child? a = some s) :
    ∃ found, (found, s) ∈ g.attached ∧ found.same a = true := by
  obtain ⟨⟨found, s'⟩, hfind, rfl⟩ := Option.map_eq_some_iff.1 h
  have hsame := List.find?_some hfind
  exact ⟨found, List.mem_of_find?_eq_some hfind, hsame⟩

theorem not_same_of_child? {a found : AttachKey} (h : g.child? a = none)
    (hmem : (found, s) ∈ g.attached) : found.same a = false := by
  have hnone := List.find?_eq_none.1 (Option.map_eq_none_iff.1 h) _ hmem
  simpa using hnone

theorem lt_next_of_slot {slot : Slot} (h : g.slots[s]? = some slot) : s < g.next :=
  (List.getElem?_eq_some_iff.1 h).1

theorem slot_addRoot {n : Node} {slot : Slot} (h : (g.addRoot k n).slots[s]? = some slot) :
    (s < g.next ∧ g.slots[s]? = some slot) ∨ (s = g.next ∧ slot = ⟨n, []⟩) := by
  rcases Nat.lt_or_ge s g.slots.length with hlt | hge
  · rw [addRoot, List.getElem?_append_left hlt] at h
    exact .inl ⟨hlt, h⟩
  · rw [addRoot, List.getElem?_append_right hge, List.getElem?_singleton] at h
    split at h
    · exact .inr ⟨by unfold next; omega, (Option.some.inj h).symm⟩
    · cases h

theorem slot_addRoot_of {n : Node} {slot : Slot} (h : g.slots[s]? = some slot) :
    (g.addRoot k n).slots[s]? = some slot := by
  rw [addRoot, List.getElem?_append_left (lt_next_of_slot h)]
  exact h

/-- After a child was added its parent has one more child and the child is in the last slot. -/
theorem slot_addChild {a : AttachKey} {relation : String} {n : Node} {slot : Slot}
    (h : (g.addChild a relation n).slots[s]? = some slot) :
    (s < g.next ∧ ∃ old, g.slots[s]? = some old ∧ slot.node = old.node ∧
      slot.children = old.children ++ if s = a.parent then [(relation, g.next)] else []) ∨
    (s = g.next ∧ slot = ⟨n, []⟩) := by
  rcases Nat.lt_or_ge s g.slots.length with hlt | hge
  · rw [addChild, List.getElem?_append_left (by simpa using hlt), List.getElem?_modify] at h
    obtain ⟨old, hold, rfl⟩ := Option.map_eq_some_iff.1 h
    refine .inl ⟨hlt, old, hold, ?_, ?_⟩
    · by_cases hs : a.parent = s <;> simp [hs]
    · by_cases hs : a.parent = s
      · simp [hs]
      · simp [hs, Ne.symm hs]
  · rw [addChild, List.getElem?_append_right (by simpa using hge), List.getElem?_singleton] at h
    split at h
    · rename_i hzero
      exact .inr ⟨by simp at hzero; unfold next; omega, (Option.some.inj h).symm⟩
    · cases h

theorem slot_addChild_of {a : AttachKey} {relation : String} {n : Node} {slot : Slot}
    (h : g.slots[s]? = some slot) :
    ∃ slot', (g.addChild a relation n).slots[s]? = some slot' ∧
      slot'.children = slot.children ++ if s = a.parent then [(relation, g.next)] else [] := by
  have hlt := lt_next_of_slot h
  obtain ⟨slot', hslot'⟩ : ∃ slot', (g.addChild a relation n).slots[s]? = some slot' := by
    rw [addChild, List.getElem?_append_left (by rwa [List.length_modify]), List.getElem?_modify, h]
    exact ⟨_, rfl⟩
  rcases slot_addChild hslot' with ⟨-, old, hold, -, hchildren⟩ | ⟨heq, -⟩
  · obtain rfl : slot = old := Option.some.inj (h.symm.trans hold)
    exact ⟨slot', hslot', hchildren⟩
  · exact absurd heq (Nat.ne_of_lt hlt)

end Graph

namespace Materializer

variable {m : Materializer} {g : Graph} {t : Nat → SlotTrace} {rows : List Row} {s : Nat} {r : Row}

section withRoot

/-- The graph after the root of a row was added. -/
def withRoot (m : Materializer) (g : Graph) (r : Row) : Graph :=
  g.addRoot (m.keyAt 0 r) (m.nodeAt 0 r)

/-- The traces of that graph. -/
def tracesWithRoot (g : Graph) (t : Nat → SlotTrace) (r : Row) : Nat → SlotTrace :=
  Function.update t g.next ⟨0, 0, r, [], []⟩

theorem next_withRoot : (withRoot m g r).next = g.next + 1 :=
  Graph.length_slots_addRoot ..

theorem withRoot_new : tracesWithRoot g t r g.next = ⟨0, 0, r, [], []⟩ :=
  Function.update_self ..

theorem withRoot_of_ne {x : Nat} (hx : x ≠ g.next) : tracesWithRoot g t r x = t x :=
  Function.update_of_ne hx ..

end withRoot

section withChild

variable {join : Nat}

/-- The graph after the entity of a join was added below a slot. -/
def withChild (m : Materializer) (g : Graph) (s join : Nat) (r : Row) : Graph :=
  g.addChild ⟨s, join, m.keyAt (join + 1) r⟩ (m.relationAt (join + 1)) (m.nodeAt (join + 1) r)

/-- The traces of that graph. -/
def tracesWithChild (g : Graph) (t : Nat → SlotTrace) (s join : Nat) (r : Row) :
    Nat → SlotTrace :=
  visitChild t s g.next ⟨join + 1, s, r, [], []⟩ ⟨join + 1, r⟩

theorem next_withChild : (withChild m g s join r).next = g.next + 1 :=
  Graph.length_slots_addChild ..

theorem withChild_new (hs : s < g.next) :
    tracesWithChild g t s join r g.next = ⟨join + 1, s, r, [], []⟩ :=
  visitChild_child (Nat.ne_of_lt hs).symm

theorem withChild_keeps (t : Nat → SlotTrace) (s join : Nat) (r : Row) {x : Nat} (hx : x < g.next) :
    (tracesWithChild g t s join r x).place = (t x).place ∧
      (tracesWithChild g t s join r x).parent = (t x).parent ∧
      (tracesWithChild g t s join r x).first = (t x).first ∧
      (tracesWithChild g t s join r x).others = (t x).others :=
  visitChild_keeps (Nat.ne_of_lt hx)

end withChild

namespace Traces

theorem empty (m : Materializer) (t : Nat → SlotTrace) : Traces m .empty t [] := by
  constructor <;> simp [Graph.empty, Graph.next, classes]

/-- Where no slot is new, only the rows and visits of slots have to be looked at. -/
theorem revisit {t' : Nat → SlotTrace} {rows' : List Row} (h : Traces m g t rows)
    (same : ∀ x, (t' x).place = (t x).place ∧ (t' x).parent = (t x).parent ∧
      (t' x).first = (t x).first)
    (roots : classes (m.sameRoot Value.sameKey) rows' =
      g.roots.map fun s => ((t' s).first, (t' s).others))
    (children : ∀ (s : Nat) (slot : Slot), g.slots[s]? = some slot →
      classes (m.sameVisit Value.sameKey) (t' s).seen =
        slot.children.map fun c => (t' c.2).childClass) :
    Traces m g t' rows' := by
  refine ⟨?_, ?_, roots, ?_, h.rootsNodup, ?_, children, ?_, h.childrenNodup, ?_⟩
  · intro s slot hslot
    rw [(same s).1, (same s).2.2]
    exact h.node s slot hslot
  · intro s hs
    rw [(same s).1, (same s).2.2]
    exact h.hasEntity s hs
  · intro s hs
    rw [(same s).1]
    exact h.rootSlot s hs
  · intro k s
    rw [(same s).2.2]
    exact h.byKey k s
  · intro s slot hslot c hc
    obtain ⟨later, present, parent, place, relation⟩ := h.child s slot hslot c hc
    refine ⟨later, present, ?_, ?_, ?_⟩
    · rw [(same c.2).2.1, parent]
    · rwa [(same c.2).1]
    · rwa [(same c.2).1]
  · intro a c
    rw [(same c).1, (same c).2.2]
    exact h.attached a c

/-- A root is seen again. -/
theorem revisitRoot (h : Traces m g t rows) (hs : s ∈ g.roots)
    (hkey : (m.keyAt 0 (t s).first).sameKey (m.keyAt 0 r) = true) :
    Traces m g (Function.update t s ((t s).addRow r)) (rows ++ [r]) := by
  have hother (c : Nat) (hc : c ≠ s) : Function.update t s ((t s).addRow r) c = t c :=
    Function.update_of_ne hc _ _
  refine h.revisit ?_ ?_ ?_
  · intro x
    rcases eq_or_ne x s with rfl | hx
    · rw [Function.update_self]
      exact ⟨rfl, rfl, rfl⟩
    · rw [hother x hx]
      exact ⟨rfl, rfl, rfl⟩
  · rw [classes_concat, h.roots]
    refine addTo_map hs hkey ?_ h.rootsNodup ?_ ?_
    · exact fun j hj hjr => eq_of_same_classes (euclidean_sameRoot m) h.roots hj hs hjr hkey
    · rw [Function.update_self]
      rfl
    · intro j hj hjs
      rw [hother j hjs]
  · intro x slot hslot
    have hseen : (Function.update t s ((t s).addRow r) x).seen = (t x).seen := by
      rcases eq_or_ne x s with rfl | hx
      · rw [Function.update_self]
        rfl
      · rw [hother x hx]
    rw [hseen, h.children x slot hslot]
    apply List.map_congr_left
    intro d hd
    rw [hother d.2]
    rintro rfl
    exact (h.child x slot hslot d hd).place (h.rootSlot _ hs).2

theorem byKey_withRoot (h : Traces m g t rows) (k : Value) (s : Nat) :
    (k, s) ∈ (withRoot m g r).byKey ↔
      s ∈ (withRoot m g r).roots ∧ k = m.keyAt 0 (tracesWithRoot g t r s).first := by
  have hentry : (k, s) ∈ (withRoot m g r).byKey ↔
      k = m.keyAt 0 r ∧ s = g.next ∨ (k, s) ∈ g.byKey := by
    rw [withRoot, Graph.addRoot, List.mem_cons, Prod.mk.injEq]
  have hroot : s ∈ (withRoot m g r).roots ↔ s ∈ g.roots ∨ s = g.next := by
    rw [withRoot, Graph.addRoot, List.mem_append, List.mem_singleton]
  rw [hentry, hroot, h.byKey]
  rcases eq_or_ne s g.next with rfl | hs
  · have hnot : g.next ∉ g.roots := fun hmem => Nat.lt_irrefl _ (h.rootSlot _ hmem).1
    simp [hnot, withRoot_new]
  · simp [hs, withRoot_of_ne]

/-- No child is added with a root. -/
theorem attached_withRoot (h : Traces m g t rows) (a : AttachKey) (c : Nat) :
    (a, c) ∈ (withRoot m g r).attached ↔
      (∃ (slot : Slot) (relation : String), (withRoot m g r).slots[a.parent]? = some slot ∧
        (relation, c) ∈ slot.children) ∧
        (tracesWithRoot g t r c).place = a.join + 1 ∧
        a.key = m.keyAt (tracesWithRoot g t r c).place (tracesWithRoot g t r c).first := by
  refine (h.attached a c).trans ⟨?_, ?_⟩
  · rintro ⟨⟨slot, relation, hslot, hmem⟩, hrest⟩
    rw [withRoot_of_ne (Nat.ne_of_lt (h.child _ slot hslot _ hmem).present)]
    exact ⟨⟨slot, relation, Graph.slot_addRoot_of hslot, hmem⟩, hrest⟩
  · rintro ⟨⟨slot, relation, hslot, hmem⟩, hrest⟩
    rcases Graph.slot_addRoot hslot with ⟨-, hslot⟩ | ⟨-, rfl⟩
    · rw [withRoot_of_ne (Nat.ne_of_lt (h.child _ slot hslot _ hmem).present)] at hrest
      exact ⟨⟨slot, relation, hslot, hmem⟩, hrest⟩
    · cases hmem

/-- A root is seen for the first time. -/
theorem addRoot (h : Traces m g t rows) (hasEntity : m.HasEntity 0 r)
    (hnew : ∀ s ∈ g.roots, (m.keyAt 0 (t s).first).sameKey (m.keyAt 0 r) = false) :
    Traces m (withRoot m g r) (tracesWithRoot g t r) (rows ++ [r]) := by
  have hold (c : Nat) (hc : c < g.next) : tracesWithRoot g t r c = t c :=
    withRoot_of_ne (Nat.ne_of_lt hc)
  have hrootsOld : ∀ s ∈ g.roots, s < g.next := fun s hs => (h.rootSlot s hs).1
  refine ⟨?_, ?_, ?_, ?_, ?_, h.byKey_withRoot, ?_, ?_, ?_, h.attached_withRoot⟩
  · intro c slot hslot
    rcases Graph.slot_addRoot hslot with ⟨hc, hslot⟩ | ⟨rfl, rfl⟩
    · rw [hold c hc]
      exact h.node c slot hslot
    · rw [withRoot_new]
  · intro c hc
    rw [next_withRoot] at hc
    rcases Nat.lt_or_eq_of_le (Nat.le_of_lt_succ hc) with hc | rfl
    · rw [hold c hc]
      exact h.hasEntity c hc
    · rw [withRoot_new]
      exact hasEntity
  · rw [classes_concat, addTo_of_new, h.roots]
    · show _ = (g.roots ++ [g.next]).map _
      rw [List.map_append, List.map_singleton, withRoot_new]
      congr 1
      exact List.map_congr_left fun s hs => by rw [hold s (hrootsOld s hs)]
    · rw [h.roots]
      intro c hc
      obtain ⟨s, hs, rfl⟩ := List.mem_map.1 hc
      exact hnew s hs
  · intro s hs
    rcases List.mem_append.1 hs with hs | hs
    · rw [hold s (hrootsOld s hs), next_withRoot]
      exact ⟨Nat.lt_succ_of_lt (hrootsOld s hs), (h.rootSlot s hs).2⟩
    · obtain rfl := List.mem_singleton.1 hs
      rw [withRoot_new, next_withRoot]
      exact ⟨Nat.lt_succ_self _, rfl⟩
  · refine List.nodup_append.2 ⟨h.rootsNodup, List.nodup_singleton _, ?_⟩
    rintro a ha b hb rfl
    obtain rfl := List.mem_singleton.1 hb
    exact Nat.lt_irrefl _ (hrootsOld _ ha)
  · intro c slot hslot
    rcases Graph.slot_addRoot hslot with ⟨hc, hslot⟩ | ⟨rfl, rfl⟩
    · rw [hold c hc, h.children c slot hslot]
      exact List.map_congr_left fun d hd => by rw [hold d.2 (h.child c slot hslot d hd).present]
    · rw [withRoot_new]
      simp [classes]
  · intro c slot hslot d hd
    rcases Graph.slot_addRoot hslot with ⟨hc, hslot⟩ | ⟨rfl, rfl⟩
    · obtain ⟨later, present, parent, place, relation⟩ := h.child c slot hslot d hd
      rw [hold d.2 present, next_withRoot]
      exact ⟨later, Nat.lt_succ_of_lt present, parent, place, relation⟩
    · cases hd
  · intro c slot hslot
    rcases Graph.slot_addRoot hslot with ⟨hc, hslot⟩ | ⟨rfl, rfl⟩
    · exact h.childrenNodup c slot hslot
    · exact List.nodup_nil

/-- A slot below which a slot hangs is the parent in its trace. -/
theorem parent_unique (h : Traces m g t rows) {s₁ s₂ : Nat} {slot₁ slot₂ : Slot}
    (h₁ : g.slots[s₁]? = some slot₁) (h₂ : g.slots[s₂]? = some slot₂) {c₁ c₂ : String × Nat}
    (hc₁ : c₁ ∈ slot₁.children) (hc₂ : c₂ ∈ slot₂.children) (heq : c₁.2 = c₂.2) : s₁ = s₂ := by
  rw [← (h.child s₁ slot₁ h₁ c₁ hc₁).parent, ← (h.child s₂ slot₂ h₂ c₂ hc₂).parent, heq]

/-- A related entity is seen again below its parent. -/
theorem revisitChild (h : Traces m g t rows) {slot : Slot} {relation : String} {c : Nat}
    (hslot : g.slots[s]? = some slot) (hmem : (relation, c) ∈ slot.children)
    (hkey : (m.keyAt (t c).place (t c).first).sameKey (m.keyAt (t c).place r) = true) :
    Traces m g (visitChild t s c ((t c).addRow r) ⟨(t c).place, r⟩) rows := by
  have hchild := h.child s slot hslot _ hmem
  have hcs : c ≠ s := (Nat.ne_of_lt hchild.later).symm
  refine h.revisit ?_ ?_ ?_
  · intro x
    rcases eq_or_ne x c with rfl | hc
    · rw [visitChild_child hcs]
      exact ⟨rfl, rfl, rfl⟩
    · obtain ⟨hplace, hparent, hfirst, -⟩ := visitChild_keeps hc
      exact ⟨hplace, hparent, hfirst⟩
  · rw [h.roots]
    apply List.map_congr_left
    intro x hx
    have hc : x ≠ c := by
      rintro rfl
      exact hchild.place (h.rootSlot x hx).2
    obtain ⟨-, -, hfirst, hothers⟩ := visitChild_keeps hc
    rw [hfirst, hothers]
  · intro x slot' hslot'
    rcases eq_or_ne x s with rfl | hs
    · obtain rfl : slot' = slot := Option.some.inj (hslot'.symm.trans hslot)
      have hclasses := h.children x slot' hslot'
      have hsame : m.sameVisit Value.sameKey (t c).childClass.1 ⟨(t c).place, r⟩ = true := by
        simpa [sameVisit, SlotTrace.childClass] using hkey
      rw [visitChild_parent, SlotTrace.addVisit, classes_concat, hclasses]
      refine addTo_map hmem hsame ?_ (List.Nodup.of_map _ (h.childrenNodup x slot' hslot')) ?_ ?_
      · intro d hd hdr
        exact eq_of_same_classes (euclidean_sameVisit m) hclasses hd hmem hdr hsame
      · rw [visitChild_child hcs]
        simp [SlotTrace.childClass, SlotTrace.addRow]
      · intro d hd hne
        refine childClass_visitChild fun heq => hne ?_
        exact List.inj_on_of_nodup_map (h.childrenNodup x slot' hslot') hd hmem heq
    · have hseen : (visitChild t s c ((t c).addRow r) ⟨(t c).place, r⟩ x).seen = (t x).seen := by
        rcases eq_or_ne x c with rfl | hc
        · rw [visitChild_child hcs]
          rfl
        · rw [visitChild_of_ne hs hc]
      rw [hseen, h.children x slot' hslot']
      refine List.map_congr_left fun d hd => (childClass_visitChild fun heq => hs ?_).symm
      exact h.parent_unique hslot' hslot hd hmem heq

section addChild

variable {join : Nat}

/-- The classes of what each slot has seen are still its children. -/
theorem children_withChild (h : Traces m g t rows) (hs : s < g.next)
    (hnew : ∀ slot : Slot, g.slots[s]? = some slot → ∀ c ∈ slot.children, (t c.2).place = join + 1 →
      (m.keyAt (join + 1) (t c.2).first).sameKey (m.keyAt (join + 1) r) = false)
    {x : Nat} {slot : Slot} (hslot : (withChild m g s join r).slots[x]? = some slot) :
    classes (m.sameVisit Value.sameKey) (tracesWithChild g t s join r x).seen =
      slot.children.map fun c => (tracesWithChild g t s join r c.2).childClass := by
  rcases Graph.slot_addChild hslot with ⟨hx, before, hbefore, -, hchildren⟩ | ⟨rfl, rfl⟩
  · have hclasses := h.children x before hbefore
    have hkept : before.children.map (fun c => (tracesWithChild g t s join r c.2).childClass) =
        before.children.map fun c => (t c.2).childClass :=
      List.map_congr_left fun c hc =>
        childClass_visitChild (Nat.ne_of_lt (h.child x before hbefore c hc).present)
    rcases eq_or_ne x s with rfl | hxs
    · have hseen : (tracesWithChild g t x join r x).seen = (t x).seen ++ [⟨join + 1, r⟩] := by
        rw [tracesWithChild, visitChild_parent]
        rfl
      rw [hchildren, if_pos rfl, List.map_append, hkept, hseen, classes_concat, hclasses,
        addTo_of_new, List.map_singleton, withChild_new hs]
      · rfl
      · intro c hc
        obtain ⟨d, hd, rfl⟩ := List.mem_map.1 hc
        rw [sameVisit, Bool.and_eq_false_imp]
        intro hplace
        have hplace : (t d.2).place = join + 1 := by simpa [SlotTrace.childClass] using hplace
        have hfalse := hnew before hbefore d hd hplace
        rw [← hplace] at hfalse
        simpa [SlotTrace.childClass, hplace] using hfalse
    · have hseen : (tracesWithChild g t s join r x).seen = (t x).seen := by
        rw [tracesWithChild, visitChild_of_ne hxs (Nat.ne_of_lt hx)]
      rw [hchildren, if_neg hxs, List.append_nil, hkept, hseen, hclasses]
  · rw [withChild_new hs]
    simp [classes]

theorem child_withChild (h : Traces m g t rows) (hs : s < g.next) {x : Nat} {slot : Slot}
    (hslot : (withChild m g s join r).slots[x]? = some slot) {c : String × Nat}
    (hc : c ∈ slot.children) :
    m.IsChild x c (g.next + 1) (tracesWithChild g t s join r c.2) := by
  rcases Graph.slot_addChild hslot with ⟨hx, before, hbefore, -, hchildren⟩ | ⟨rfl, rfl⟩
  · rw [hchildren] at hc
    rcases List.mem_append.1 hc with hc | hc
    · obtain ⟨later, present, parent, place, relation⟩ := h.child x before hbefore c hc
      obtain ⟨hplace, hparent, -⟩ := withChild_keeps t s join r present
      refine ⟨later, Nat.lt_succ_of_lt present, ?_, ?_, ?_⟩
      · rw [hparent, parent]
      · rwa [hplace]
      · rwa [hplace]
    · split at hc
      · rename_i hxs
        obtain rfl := List.mem_singleton.1 hc
        rw [withChild_new hs]
        exact ⟨hx, Nat.lt_succ_self _, hxs.symm, Nat.succ_ne_zero _, rfl⟩
      · cases hc
  · cases hc

theorem nodup_withChild (h : Traces m g t rows) {x : Nat} {slot : Slot}
    (hslot : (withChild m g s join r).slots[x]? = some slot) :
    (slot.children.map Prod.snd).Nodup := by
  rcases Graph.slot_addChild hslot with ⟨hx, before, hbefore, -, hchildren⟩ | ⟨rfl, rfl⟩
  · rw [hchildren, List.map_append]
    refine List.nodup_append.2 ⟨h.childrenNodup x before hbefore, ?_, ?_⟩
    · split <;> simp
    · rintro a ha b hb rfl
      obtain ⟨c, hc, rfl⟩ := List.mem_map.1 ha
      have hpresent := (h.child x before hbefore c hc).present
      split at hb
      · obtain hlast : c.2 = g.next := by simpa using hb
        omega
      · cases hb
  · exact List.nodup_nil

/-- The new child is found by its key, and the others are still found by theirs. -/
theorem attached_withChild (h : Traces m g t rows) (hs : s < g.next) (a : AttachKey) (c : Nat) :
    (a, c) ∈ (withChild m g s join r).attached ↔
      (∃ (slot : Slot) (relation : String), (withChild m g s join r).slots[a.parent]? = some slot ∧
        (relation, c) ∈ slot.children) ∧
        (tracesWithChild g t s join r c).place = a.join + 1 ∧
        a.key = m.keyAt (tracesWithChild g t s join r c).place
          (tracesWithChild g t s join r c).first := by
  have hentry : (a, c) ∈ (withChild m g s join r).attached ↔
      a = ⟨s, join, m.keyAt (join + 1) r⟩ ∧ c = g.next ∨ (a, c) ∈ g.attached := by
    rw [withChild, Graph.addChild, List.mem_cons, Prod.mk.injEq]
  rw [hentry]
  constructor
  · rintro (⟨rfl, rfl⟩ | hmem)
    · obtain ⟨slot, hslot⟩ : ∃ slot, g.slots[s]? = some slot := ⟨_, List.getElem?_eq_getElem hs⟩
      obtain ⟨slot', hslot', hchildren⟩ := Graph.slot_addChild_of hslot
      rw [withChild_new hs]
      refine ⟨⟨slot', m.relationAt (join + 1), hslot', ?_⟩, rfl, rfl⟩
      rw [hchildren, if_pos rfl]
      exact List.mem_append_right _ (List.mem_singleton_self _)
    · obtain ⟨⟨slot, relation, hslot, hmem⟩, hrest⟩ := (h.attached a c).1 hmem
      obtain ⟨slot', hslot', hchildren⟩ := Graph.slot_addChild_of hslot
      obtain ⟨hplace, -, hfirst, -⟩ := withChild_keeps t s join r
        (h.child _ slot hslot _ hmem).present
      rw [hplace, hfirst]
      exact ⟨⟨slot', relation, hslot', hchildren ▸ List.mem_append_left _ hmem⟩, hrest⟩
  · rintro ⟨⟨slot, relation, hslot, hmem⟩, hplace, hkey⟩
    rcases Graph.slot_addChild hslot with ⟨hx, before, hbefore, -, hchildren⟩ | ⟨-, rfl⟩
    · rw [hchildren] at hmem
      rcases List.mem_append.1 hmem with hmem | hmem
      · obtain ⟨hplace', -, hfirst, -⟩ := withChild_keeps t s join r
          (h.child _ before hbefore _ hmem).present
        rw [hplace', hfirst] at hkey
        rw [hplace'] at hplace
        exact .inr ((h.attached a c).2 ⟨⟨before, relation, hbefore, hmem⟩, hplace, hkey⟩)
      · split at hmem
        · rename_i hparent
          obtain ⟨-, rfl⟩ : relation = m.relationAt (join + 1) ∧ c = g.next := by simpa using hmem
          rw [withChild_new hs] at hplace hkey
          obtain ⟨parent, index, key⟩ := a
          obtain rfl : parent = s := hparent
          obtain rfl : join = index := Nat.succ.inj hplace
          obtain rfl : key = m.keyAt (join + 1) r := hkey
          exact .inl ⟨rfl, rfl⟩
        · cases hmem
    · cases hmem

/-- A related entity is seen for the first time below its parent. -/
theorem addChild (h : Traces m g t rows) (hs : s < g.next) (hasEntity : m.HasEntity (join + 1) r)
    (hnew : ∀ slot : Slot, g.slots[s]? = some slot → ∀ c ∈ slot.children, (t c.2).place = join + 1 →
      (m.keyAt (join + 1) (t c.2).first).sameKey (m.keyAt (join + 1) r) = false) :
    Traces m (withChild m g s join r) (tracesWithChild g t s join r) rows := by
  have hroot (x : Nat) (hx : x ∈ g.roots) :=
    withChild_keeps t s join r (h.rootSlot x hx).1
  refine ⟨?_, ?_, ?_, ?_, h.rootsNodup, ?_,
    fun x slot hslot => h.children_withChild hs hnew hslot, ?_,
    fun x slot hslot => h.nodup_withChild hslot, h.attached_withChild hs⟩
  · intro x slot hslot
    rcases Graph.slot_addChild hslot with ⟨hx, before, hbefore, hnode, -⟩ | ⟨rfl, rfl⟩
    · obtain ⟨hplace, -, hfirst, -⟩ := withChild_keeps t s join r hx
      rw [hnode, hplace, hfirst]
      exact h.node x before hbefore
    · rw [withChild_new hs]
  · intro x hx
    rw [next_withChild] at hx
    rcases Nat.lt_or_eq_of_le (Nat.le_of_lt_succ hx) with hx | rfl
    · obtain ⟨hplace, -, hfirst, -⟩ := withChild_keeps t s join r hx
      rw [hplace, hfirst]
      exact h.hasEntity x hx
    · rw [withChild_new hs]
      exact hasEntity
  · rw [h.roots]
    apply List.map_congr_left
    intro x hx
    obtain ⟨-, -, hfirst, hothers⟩ := hroot x hx
    rw [hfirst, hothers]
  · intro x hx
    rw [next_withChild, (hroot x hx).1]
    exact ⟨Nat.lt_succ_of_lt (h.rootSlot x hx).1, (h.rootSlot x hx).2⟩
  · intro k x
    refine (h.byKey k x).trans (and_congr_right fun hx => ?_)
    rw [(hroot x hx).2.2.1]
  · intro x slot hslot c hc
    rw [next_withChild]
    exact h.child_withChild hs hslot hc

end addChild

end Traces

end Materializer

end TypedQuery
