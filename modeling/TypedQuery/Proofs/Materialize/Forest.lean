import Mathlib.Data.List.Nodup
import Mathlib.Data.List.Pairwise
import Mathlib.Data.List.Perm.Basic
import TypedQuery.Proofs.Materialize.Groups
import TypedQuery.Proofs.Materialize.Origins

/-!
# Graphs are forests

A graph under construction keeps its nodes in numbered slots, and roots, children and keys are
numbers of slots. Every child comes behind its parent, and every slot is listed once: as a root, or
as the child of one slot. Taking in a row keeps this, so building a root comes to an end without
bounds on the recursion, and all roots together are built from every slot once.
-/

namespace TypedQuery

namespace Node

mutual

/-- The node and all that is attached below it, each without what is attached to it. -/
def parts : Node → List Node
  | .mk e values relations => .mk e values [] :: partsOfRelations relations
termination_by structural n => n

def partsOfRelations : List (String × List Node) → List Node
  | [] => []
  | (_, nodes) :: rest => partsOfNodes nodes ++ partsOfRelations rest
termination_by structural relations => relations

def partsOfNodes : List Node → List Node
  | [] => []
  | n :: nodes => n.parts ++ partsOfNodes nodes
termination_by structural nodes => nodes

end

theorem partsOfNodes_append (nodes others : List Node) :
    partsOfNodes (nodes ++ others) = partsOfNodes nodes ++ partsOfNodes others := by
  induction nodes with
  | nil => rfl
  | cons n nodes ih => rw [List.cons_append, partsOfNodes, partsOfNodes, ih, List.append_assoc]

theorem partsOfRelations_append (name : String) (child : Node)
    (relations : List (String × List Node)) :
    (partsOfRelations (append name child relations)).Perm
      (partsOfRelations relations ++ child.parts) := by
  have single : partsOfNodes [child] = child.parts := List.append_nil _
  induction relations with
  | nil =>
      rw [append, partsOfRelations, partsOfRelations, single]
      exact List.perm_append_comm
  | cons entry rest ih =>
      obtain ⟨relation, nodes⟩ := entry
      rw [append]
      split
      · rw [partsOfRelations, partsOfRelations, partsOfNodes_append, single, List.append_assoc,
          List.append_assoc]
        exact List.perm_append_comm.append_left _
      · rw [partsOfRelations, partsOfRelations, List.append_assoc]
        exact ih.append_left _

/-- Attaching a node adds its parts. -/
theorem parts_push (n child : Node) (relation : String) :
    (n.push relation child).parts.Perm (n.parts ++ child.parts) := by
  obtain ⟨e, values, relations⟩ := n
  exact (partsOfRelations_append relation child relations).cons _

theorem parts_of_bare {n : Node} (bare : n.relations = []) : n.parts = [n] := by
  obtain ⟨e, values, relations⟩ := n
  obtain rfl : relations = [] := bare
  rfl

end Node

/-- The list holds some numbers and the successors of all its members, each as often as it comes. -/
def Closed (next : Nat → List Nat) (start xs : List Nat) : Prop :=
  xs.Perm (start ++ xs.flatMap next)

namespace Closed

variable {next : Nat → List Nat}

theorem nil : Closed next [] [] := .refl _

theorem cons {x : Nat} {start xs ys : List Nat} (hx : Closed next [x] xs)
    (hy : Closed next start ys) : Closed next (x :: start) (xs ++ ys) := by
  refine (List.Perm.append hx hy).trans ?_
  rw [List.flatMap_append]
  show (x :: (xs.flatMap next ++ (start ++ ys.flatMap next))).Perm
    (x :: (start ++ (xs.flatMap next ++ ys.flatMap next)))
  exact (List.perm_append_comm_assoc ..).cons x

/-- When successors are greater, what is closed is determined up to order. -/
theorem unique {start xs ys : List Nat} (later : ∀ x, ∀ y ∈ next x, x < y)
    (hx : Closed next start xs) (hy : Closed next start ys) : xs.Perm ys := by
  -- only members before a number can have it as a successor
  have early (s : Nat) (zs : List Nat) :
      (zs.flatMap next).count s = ((zs.filter (· < s)).flatMap next).count s := by
    induction zs with
    | nil => rfl
    | cons z zs ih =>
        rw [List.flatMap_cons, List.count_append, ih, List.filter_cons]
        split
        · rw [List.flatMap_cons, List.count_append]
        · rename_i notBefore
          have absent : s ∉ next z := fun hmem => notBefore (by simpa using later z s hmem)
          rw [List.count_eq_zero.2 absent, Nat.zero_add]
  rw [List.perm_iff_count]
  intro s
  induction s using Nat.strongRecOn with
  | _ s ih =>
      have before : (xs.filter (· < s)).Perm (ys.filter (· < s)) := by
        rw [List.perm_iff_count]
        intro z
        by_cases hz : z < s
        · rw [List.count_filter (by simpa using hz), List.count_filter (by simpa using hz), ih z hz]
        · rw [List.count_eq_zero.2 (by simp [hz]), List.count_eq_zero.2 (by simp [hz])]
      rw [List.Perm.count_eq hx, List.Perm.count_eq hy, List.count_append, List.count_append,
        early s xs, early s ys, (before.flatMap_right next).count_eq]

end Closed

namespace Graph

/-- The slots of the children of a slot. -/
def childrenOf (g : Graph) (s : Nat) : List Nat :=
  ((g.slots[s]?).map fun slot => slot.children.map Prod.snd).getD []

/-- Nothing is attached to the nodes in the slots themselves. -/
def Bare (g : Graph) : Prop :=
  ∀ (s : Nat) (slot : Slot), g.slots[s]? = some slot → slot.node.relations = []

/-- All lists of slots in a graph name slots that are there. Children come behind their parents,
and every slot is listed once, as a root or as a child. -/
structure IsForest (g : Graph) : Prop where
  later : ∀ s, ∀ c ∈ g.childrenOf s, s < c ∧ c < g.next
  once : (g.roots ++ (List.range g.next).flatMap g.childrenOf).Perm (List.range g.next)
  byKey : ∀ key s, (key, s) ∈ g.byKey → s < g.next
  attached : ∀ key s, (key, s) ∈ g.attached → key.parent < g.next ∧ s < g.next
  bare : g.Bare

/-- The node in a slot. -/
def node? (g : Graph) (s : Nat) : Option Node := (g.slots[s]?).map Slot.node

mutual

/-- A run of building a slot, of which nothing but the slots bounds the recursion: the slot is
looked up, and its children are attached. The slots are all that are looked up, in this order. -/
inductive Builds (g : Graph) : Nat → List Nat → Node → Prop
  | slot {s slot visited n} (present : g.slots[s]? = some slot)
      (children : Attaches g slot.children slot.node visited n) : Builds g s (s :: visited) n

/-- Children are built and attached to a node one after the other. -/
inductive Attaches (g : Graph) : List (String × Nat) → Node → List Nat → Node → Prop
  | nil {n} : Attaches g [] n [] n
  | cons {relation c cs n child visited rest n'} (first : Builds g c visited child)
      (others : Attaches g cs (n.push relation child) rest n') :
      Attaches g ((relation, c) :: cs) n (visited ++ rest) n'

end

/-- A slot is a root that is listed once, or the child of one slot before it that lists it once. -/
inductive Placed (g : Graph) (s : Nat) : Prop
  | root (once : g.roots.count s = 1) (noChild : ∀ p, s ∉ g.childrenOf p)
  | child {p} (noRoot : s ∉ g.roots) (before : p < s) (once : (g.childrenOf p).count s = 1)
      (only : ∀ q, s ∈ g.childrenOf q → q = p)

/-- The runs that build the nodes of a graph, each with the slots it looks up: one for each root,
and all together look up every slot once. -/
structure BuiltBy (g : Graph) (runs : List (List Nat × Node)) : Prop where
  roots : List.Forall₂ (fun s run => g.Builds s run.1 run.2) g.roots runs
  nodes : g.nodes = runs.map Prod.snd
  once : (runs.flatMap Prod.fst).Perm (List.range g.next)

/-- What a forest comes to. Children come behind their parents, every slot is a root that is listed
once or the child of one slot, and keys lead to slots that are there. Building a slot needs no bound
on the recursion, and the nodes of the graph are built from every slot once. -/
structure Grown (g : Graph) : Prop where
  later : ∀ s, ∀ c ∈ g.childrenOf s, s < c ∧ c < g.next
  roots : ∀ s ∈ g.roots, s < g.next
  placed : ∀ s < g.next, g.Placed s
  byKey : ∀ key s, (key, s) ∈ g.byKey → s < g.next
  attached : ∀ key s, (key, s) ∈ g.attached → key.parent < g.next ∧ s < g.next
  builds : ∀ s < g.next, ∃ visited n, g.Builds s visited n ∧ g.build s = some n
  built : ∃ runs, g.BuiltBy runs
  parts : (g.nodes.flatMap Node.parts).Perm (g.slots.map Slot.node)

variable {g : Graph} {s : Nat} {n : Node}

theorem childrenOf_of_slot {slot : Slot} (h : g.slots[s]? = some slot) :
    g.childrenOf s = slot.children.map Prod.snd := by
  rw [childrenOf, h]
  rfl

theorem childrenOf_of_le (h : g.next ≤ s) : g.childrenOf s = [] := by
  rw [childrenOf, List.getElem?_eq_none h]
  rfl

theorem exists_slot (h : s < g.next) : ∃ slot, g.slots[s]? = some slot :=
  ⟨g.slots[s], List.getElem?_eq_getElem h⟩

theorem childrenOf_addRoot (key : Value) (n : Node) (s : Nat) :
    (g.addRoot key n).childrenOf s = g.childrenOf s := by
  rcases Nat.lt_or_ge s g.next with hlt | hge
  · obtain ⟨slot, hslot⟩ := exists_slot hlt
    rw [childrenOf_of_slot hslot, childrenOf_of_slot (slot_addRoot_of hslot)]
  · rw [childrenOf_of_le hge]
    rcases Nat.lt_or_ge s (g.addRoot key n).next with hlt | hge'
    · obtain ⟨slot, hslot⟩ := exists_slot hlt
      rcases slot_addRoot hslot with ⟨hs, -⟩ | ⟨-, rfl⟩
      · omega
      · exact childrenOf_of_slot hslot
    · exact childrenOf_of_le hge'

theorem childrenOf_addChild (key : AttachKey) (relation : String) (n : Node)
    (present : key.parent < g.next) (s : Nat) :
    (g.addChild key relation n).childrenOf s =
      g.childrenOf s ++ if s = key.parent then [g.next] else [] := by
  rcases Nat.lt_or_ge s g.next with hlt | hge
  · obtain ⟨slot, hslot⟩ := exists_slot hlt
    obtain ⟨slot', hslot', hchildren⟩ : ∃ slot', (g.addChild key relation n).slots[s]? = some slot' ∧
        slot'.children = slot.children ++ if s = key.parent then [(relation, g.next)] else [] :=
      slot_addChild_of hslot
    rw [childrenOf_of_slot hslot, childrenOf_of_slot hslot', hchildren, List.map_append]
    split <;> rfl
  · rw [childrenOf_of_le hge, if_neg (by omega), List.append_nil]
    rcases Nat.lt_or_ge s (g.addChild key relation n).next with hlt | hge'
    · obtain ⟨slot, hslot⟩ := exists_slot hlt
      rcases slot_addChild hslot with ⟨hs, -⟩ | ⟨-, rfl⟩
      · omega
      · exact childrenOf_of_slot hslot
    · exact childrenOf_of_le hge'

theorem flatMap_range_single (p x : Nat) (k : Nat) :
    ((List.range k).flatMap fun s => if s = p then [x] else []) = if p < k then [x] else [] := by
  induction k with
  | zero => rfl
  | succ k ih =>
      rw [List.range_succ, List.flatMap_append, ih, List.flatMap_singleton]
      rcases Nat.lt_trichotomy p k with hlt | rfl | hgt
      · rw [if_pos hlt, if_neg (by omega), if_pos (by omega), List.append_nil]
      · rw [if_neg (by omega), if_pos rfl, if_pos (by omega), List.nil_append]
      · rw [if_neg (by omega), if_neg (by omega), if_neg (by omega), List.append_nil]

namespace IsForest

theorem empty : IsForest .empty := by
  refine ⟨?_, List.Perm.refl _, ?_, ?_, ?_⟩
  · intro s c hc
    cases hc
  · intro key s hs
    cases hs
  · intro key s hs
    cases hs
  · intro s slot hslot
    cases hslot

/-- A root gets a slot of its own. -/
theorem addRoot (h : g.IsForest) (key : Value) (bare : n.relations = []) :
    (g.addRoot key n).IsForest := by
  have hnext : (g.addRoot key n).next = g.next + 1 := length_slots_addRoot ..
  have hsame : (g.addRoot key n).childrenOf = g.childrenOf := funext (childrenOf_addRoot key n)
  refine ⟨?_, ?_, ?_, ?_, ?_⟩
  · intro s c hc
    rw [hsame] at hc
    obtain ⟨later, present⟩ := h.later s c hc
    exact ⟨later, by omega⟩
  · rw [hnext, hsame, List.range_succ, List.flatMap_append, List.flatMap_singleton,
      childrenOf_of_le (Nat.le_refl _), List.append_nil]
    show ((g.roots ++ [g.next]) ++ _).Perm _
    rw [List.append_assoc]
    refine (List.perm_append_comm.append_left _).trans ?_
    rw [← List.append_assoc]
    exact h.once.append_right _
  · intro k s hs
    rcases List.mem_cons.1 hs with hnew | hold
    · obtain ⟨-, rfl⟩ := Prod.mk.inj hnew
      omega
    · have := h.byKey k s hold
      omega
  · intro k s hs
    obtain ⟨parent, present⟩ := h.attached k s hs
    exact ⟨by omega, by omega⟩
  · intro s slot hslot
    rcases slot_addRoot hslot with ⟨-, hold⟩ | ⟨-, rfl⟩
    · exact h.bare s slot hold
    · exact bare

/-- A child gets a slot of its own behind that of its parent. -/
theorem addChild (h : g.IsForest) {key : AttachKey} (relation : String)
    (present : key.parent < g.next) (bare : n.relations = []) :
    (g.addChild key relation n).IsForest := by
  have hnext : (g.addChild key relation n).next = g.next + 1 := length_slots_addChild ..
  have hmore := childrenOf_addChild key relation n present
  refine ⟨?_, ?_, ?_, ?_, ?_⟩
  · intro s c hc
    rw [hmore s] at hc
    rcases List.mem_append.1 hc with hold | hnew
    · obtain ⟨later, there⟩ := h.later s c hold
      exact ⟨later, by omega⟩
    · split at hnew
      · rename_i hs
        obtain rfl := List.mem_singleton.1 hnew
        exact ⟨by omega, by omega⟩
      · cases hnew
  · rw [hnext, funext hmore, List.range_succ, List.flatMap_append, List.flatMap_singleton,
      childrenOf_of_le (Nat.le_refl _), if_neg (Nat.ne_of_gt present), List.append_nil,
      List.append_nil]
    have hgrown := List.flatMap_append_perm (List.range g.next) g.childrenOf
      fun s => if s = key.parent then [g.next] else []
    rw [flatMap_range_single, if_pos present] at hgrown
    refine (hgrown.symm.append_left g.roots).trans ?_
    rw [← List.append_assoc]
    exact h.once.append_right _
  · intro k s hs
    have := h.byKey k s hs
    omega
  · intro k s hs
    rcases List.mem_cons.1 hs with hnew | hold
    · obtain ⟨rfl, rfl⟩ := Prod.mk.inj hnew
      exact ⟨by omega, by omega⟩
    · obtain ⟨parent, there⟩ := h.attached k s hold
      exact ⟨by omega, by omega⟩
  · intro s slot hslot
    rcases slot_addChild hslot with ⟨-, old, hold, hnode, -⟩ | ⟨-, rfl⟩
    · rw [hnode]
      exact h.bare s old hold
    · exact bare

theorem roots_lt (h : g.IsForest) (hs : s ∈ g.roots) : s < g.next :=
  List.mem_range.1 (h.once.mem_iff.1 (List.mem_append_left _ hs))

theorem placed (h : g.IsForest) (hs : s < g.next) : g.Placed s := by
  have listed : s ∈ g.roots ++ (List.range g.next).flatMap g.childrenOf :=
    h.once.mem_iff.2 (List.mem_range.2 hs)
  have nodup := h.once.nodup_iff.2 List.nodup_range
  obtain ⟨hroots, hchildren, hdisjoint⟩ := List.nodup_append'.1 nodup
  obtain ⟨hlists, hapart⟩ := List.nodup_flatMap.1 hchildren
  have inRange {q : Nat} (hq : s ∈ g.childrenOf q) : q ∈ List.range g.next := by
    have := h.later q s hq
    exact List.mem_range.2 (by omega)
  rcases List.mem_append.1 listed with hroot | hchild
  · refine .root (List.count_eq_one_of_mem hroots hroot) fun p hp => ?_
    exact hdisjoint hroot (List.mem_flatMap.2 ⟨p, inRange hp, hp⟩)
  · obtain ⟨p, hp, hsp⟩ := List.mem_flatMap.1 hchild
    refine .child (fun hroot => hdisjoint hroot hchild) (h.later p s hsp).1
      (List.count_eq_one_of_mem (hlists p hp) hsp) fun q hq => ?_
    by_contra hne
    have symm : Std.Symm (Function.onFun List.Disjoint g.childrenOf) :=
      ⟨fun _ _ apart _ second first => apart first second⟩
    exact hapart.forall (inRange hq) hp hne hq hsp

end IsForest

mutual

/-- A run looks up its slot, and the children of all the slots that it looks up. -/
theorem Builds.closed : ∀ {s : Nat} {visited : List Nat} {n : Node}, g.Builds s visited n →
    Closed g.childrenOf [s] visited
  | s, _, _, .slot present children => by
      have below := children.closed
      rw [← childrenOf_of_slot present] at below
      exact List.Perm.cons s below

theorem Attaches.closed : ∀ {cs : List (String × Nat)} {n : Node} {visited : List Nat}
    {n' : Node}, g.Attaches cs n visited n' → Closed g.childrenOf (cs.map Prod.snd) visited
  | _, _, _, _, .nil => .nil
  | _, _, _, _, .cons first others => first.closed.cons others.closed

end

mutual

/-- What is built from bare slots has the nodes of all the slots that were looked up. -/
theorem Builds.parts (bare : g.Bare) : ∀ {s : Nat} {visited : List Nat} {n : Node},
    g.Builds s visited n → n.parts.Perm (visited.filterMap g.node?)
  | s, _, _, @Builds.slot _ _ slot _ _ present children => by
      have hnode : g.node? s = some slot.node := by rw [node?, present, Option.map_some]
      have below := children.parts bare
      rw [Node.parts_of_bare (bare s slot present)] at below
      rw [List.filterMap_cons_some hnode]
      exact below

theorem Attaches.parts (bare : g.Bare) : ∀ {cs : List (String × Nat)} {n : Node}
    {visited : List Nat} {n' : Node}, g.Attaches cs n visited n' →
    n'.parts.Perm (n.parts ++ visited.filterMap g.node?)
  | _, n, _, _, .nil => by
      rw [List.filterMap_nil, List.append_nil]
  | _, n, _, _, @Attaches.cons _ relation _ _ _ child _ _ _ first others => by
      refine (others.parts bare).trans ?_
      refine ((Node.parts_push n child relation).append_right _).trans ?_
      rw [List.append_assoc, List.filterMap_append]
      exact ((first.parts bare).append_right _).append_left _

end

theorem attachBuilt_of_later {relation : String} {c : Nat} {child : Node} (later : s < c)
    (built : g.build c = some child) :
    g.attachBuilt s n (relation, c) = n.push relation child := by
  rw [attachBuilt, if_neg (Nat.not_le_of_lt later), built]

/-- Children of which each can be built are attached. -/
theorem exists_attaches {cs : List (String × Nat)}
    (build : ∀ c ∈ cs, s < c.2 ∧ ∃ visited child,
      g.Builds c.2 visited child ∧ g.build c.2 = some child) (n : Node) :
    ∃ visited, g.Attaches cs n visited (cs.foldl (g.attachBuilt s) n) := by
  induction cs generalizing n with
  | nil => exact ⟨[], .nil⟩
  | cons c cs ih =>
      obtain ⟨relation, c⟩ := c
      obtain ⟨⟨later, visited, child, first, built⟩, hrest⟩ := List.forall_mem_cons.1 build
      obtain ⟨rest, others⟩ := ih hrest (n.push relation child)
      refine ⟨visited ++ rest, ?_⟩
      rw [List.foldl_cons, attachBuilt_of_later later built]
      exact .cons first others

namespace IsForest

/-- Every slot has a run that builds it, and the guards of the recursion are never taken. -/
theorem exists_builds (h : g.IsForest) (hs : s < g.next) :
    ∃ visited n, g.Builds s visited n ∧ g.build s = some n := by
  induction hn : g.next - s using Nat.strongRecOn generalizing s with
  | _ k ih =>
      obtain ⟨slot, hslot⟩ := exists_slot hs
      have hbuild : g.build s = some (slot.children.foldl (g.attachBuilt s) slot.node) := by
        have hlt : s < g.slots.length := hs
        have hget : g.slots[s] = slot :=
          Option.some.inj ((List.getElem?_eq_getElem hlt).symm.trans hslot)
        rw [build, dif_pos hlt, hget]
        rfl
      have below : ∀ c ∈ slot.children, s < c.2 ∧ ∃ visited child,
          g.Builds c.2 visited child ∧ g.build c.2 = some child := by
        intro c hc
        have listed : c.2 ∈ g.childrenOf s := by
          rw [childrenOf_of_slot hslot]
          exact List.mem_map_of_mem hc
        obtain ⟨later, present⟩ := h.later s c.2 listed
        exact ⟨later, ih (g.next - c.2) (by omega) present rfl⟩
      obtain ⟨visited, children⟩ := exists_attaches below slot.node
      exact ⟨s :: visited, _, .slot hslot children, hbuild⟩

/-- The runs that build some slots. -/
theorem exists_runs (h : g.IsForest) {roots : List Nat} (present : ∀ s ∈ roots, s < g.next) :
    ∃ runs : List (List Nat × Node),
      List.Forall₂ (fun s run => g.Builds s run.1 run.2) roots runs ∧
        roots.filterMap g.build = runs.map Prod.snd := by
  induction roots with
  | nil => exact ⟨[], .nil, rfl⟩
  | cons s roots ih =>
      obtain ⟨hs, hroots⟩ := List.forall_mem_cons.1 present
      obtain ⟨visited, n, builds, hbuild⟩ := h.exists_builds hs
      obtain ⟨runs, hruns, hnodes⟩ := ih hroots
      refine ⟨(visited, n) :: runs, .cons builds hruns, ?_⟩
      rw [List.filterMap_cons_some hbuild, hnodes, List.map_cons]

end IsForest

theorem closed_of_runs {roots : List Nat} {runs : List (List Nat × Node)}
    (h : List.Forall₂ (fun s run => g.Builds s run.1 run.2) roots runs) :
    Closed g.childrenOf roots (runs.flatMap Prod.fst) := by
  induction h with
  | nil => exact .nil
  | cons first _ ih => exact first.closed.cons ih

theorem parts_of_runs (bare : g.Bare) {roots : List Nat} {runs : List (List Nat × Node)}
    (h : List.Forall₂ (fun s run => g.Builds s run.1 run.2) roots runs) :
    ((runs.map Prod.snd).flatMap Node.parts).Perm
      ((runs.flatMap Prod.fst).filterMap g.node?) := by
  induction h with
  | nil => exact .refl _
  | cons first _ ih =>
      rw [List.map_cons, List.flatMap_cons, List.flatMap_cons, List.filterMap_append]
      exact (first.parts bare).append ih

theorem filterMap_node?_range (g : Graph) :
    (List.range g.next).filterMap g.node? = g.slots.map Slot.node := by
  have row : (List.range g.next).map g.node? = g.slots.map fun slot => some slot.node := by
    apply List.ext_getElem (by simp [next])
    intro s h₁ h₂
    have hs : s < g.slots.length := by simpa using h₂
    rw [List.getElem_map, List.getElem_map, List.getElem_range, node?, List.getElem?_eq_getElem hs,
      Option.map_some]
  calc (List.range g.next).filterMap g.node?
      = ((List.range g.next).map g.node?).filterMap id := by
        rw [List.filterMap_map, Function.id_comp]
    _ = g.slots.map Slot.node := by
        rw [row, List.filterMap_map, ← List.filterMap_eq_map]
        rfl

/-- The runs of the roots look up all slots, since no other list of slots is closed. -/
theorem IsForest.grown (h : g.IsForest) : g.Grown := by
  obtain ⟨runs, hruns, hnodes⟩ := h.exists_runs fun s hs => h.roots_lt hs
  have later (s c : Nat) (hc : c ∈ g.childrenOf s) : s < c := (h.later s c hc).1
  have once : (runs.flatMap Prod.fst).Perm (List.range g.next) :=
    Closed.unique later (closed_of_runs hruns) h.once.symm
  have parts : (g.nodes.flatMap Node.parts).Perm (g.slots.map Slot.node) := by
    rw [nodes, hnodes, ← filterMap_node?_range]
    exact (parts_of_runs h.bare hruns).trans (once.filterMap g.node?)
  exact {
    later := h.later
    roots := fun s hs => h.roots_lt hs
    placed := fun s hs => h.placed hs
    byKey := h.byKey
    attached := h.attached
    builds := fun s hs => h.exists_builds hs
    built := ⟨runs, hruns, hnodes, once⟩
    parts := parts }

end Graph

namespace Materializer

open Outcome

variable {m : Materializer} {g g' : Graph} {r : Row}

theorem isForest_of_takesRoot {s : Nat} (h : g.IsForest) (taken : m.TakesRoot g r s g') :
    g'.IsForest ∧ s < g'.next := by
  cases taken with
  | again hasKey found =>
      obtain ⟨key, hmem, -⟩ := Graph.mem_of_root? found
      exact ⟨h, h.byKey key s hmem⟩
  | fresh hasKey new read =>
      refine ⟨h.addRoot _ (Binding.relations_of_readNode read), ?_⟩
      show g.slots.length < (Graph.addRoot g _ _).slots.length
      rw [Graph.length_slots_addRoot]
      exact Nat.lt_succ_self _

/-- The graph is a forest, and a row has come to slots of it. -/
def ForestWith (g : Graph) (resolved : List (Option Nat)) : Prop :=
  g.IsForest ∧ ∀ s, some s ∈ resolved → s < g.next

theorem ForestWith.skip {resolved : List (Option Nat)} (h : ForestWith g resolved) :
    ForestWith g (resolved ++ [none]) := by
  refine ⟨h.1, fun s hs => h.2 s ?_⟩
  simpa using hs

theorem forestWith_of_takesJoin {index : Nat} {p : PlacedJoin} {resolved : List (Option Nat)}
    {slot : Option Nat} (h : ForestWith g resolved)
    (taken : m.TakesJoin g r index p resolved slot g') : ForestWith g' (resolved ++ [slot]) := by
  cases taken with
  | unresolved parent => exact h.skip
  | unrelated none => exact h.skip
  | unmatched read null => exact h.skip
  | again resolvedParent follows hasKey found =>
      rename_i parent relation key c
      obtain ⟨k, hmem, -⟩ := Graph.mem_of_child? found
      refine ⟨h.1, fun s hs => ?_⟩
      rcases List.mem_append.1 hs with hs | hs
      · exact h.2 s hs
      · obtain rfl : s = c := by simpa using hs
        exact (h.1.attached k s hmem).2
  | fresh resolvedParent follows hasKey new read =>
      rename_i parent relation key n
      have hparent : parent < g.next := by
        exact h.2 parent (List.mem_of_getElem? (getElem?_of_resolved resolvedParent))
      have grown : (g.addChild ⟨parent, index, foundBy relation key⟩ relation.name n).next =
        g.next + 1 := Graph.length_slots_addChild ..
      have bare := Binding.relations_of_readNode read
      refine ⟨h.1.addChild relation.name hparent bare, fun s hs => ?_⟩
      rw [grown]
      rcases List.mem_append.1 hs with hs | hs
      · exact Nat.lt_succ_of_lt (h.2 s hs)
      · obtain rfl : s = g.next := by simpa using hs
        exact Nat.lt_succ_self _

/-- Taking in a row keeps a forest. -/
theorem isForest_of_absorb (h : g.IsForest) (run : m.absorb g r = .ok g') : g'.IsForest := by
  rw [absorb, bind_ok] at run
  obtain ⟨⟨root, g₁⟩, hroot, hjoins⟩ := run
  obtain ⟨hg₁, present⟩ := isForest_of_takesRoot h (takesRoot_of_absorbRoot hroot)
  have start : ForestWith g₁ [some root] := by
    refine ⟨hg₁, fun s hs => ?_⟩
    obtain rfl : s = root := by simpa using hs
    exact present
  obtain ⟨resolved, done⟩ := absorbJoins_induction
    (motive := fun g _ resolved => ForestWith g resolved) hjoins (Nat.zero_le _) start
    fun _ _ _ _ _ _ hp hg hjoin => forestWith_of_takesJoin hg (takesJoin_of_absorbJoin hp hjoin)
  exact done.1

theorem isForest_of_absorbAll {rows : List Row} (h : g.IsForest)
    (run : m.absorbAll g rows = .ok g') : g'.IsForest :=
  foldlM_induction (motive := Graph.IsForest) run h
    fun _ _ _ _ hg hrow => isForest_of_absorb hg hrow

/-- The graph of rows is a forest, from which building the roots takes every slot once. -/
theorem forest_of_absorbAll (m : Materializer) (rows : List Row) (g : Graph)
    (run : m.absorbAll .empty rows = .ok g) : g.Grown :=
  (isForest_of_absorbAll .empty run).grown

/-- Three customers with three orders and three parcels. -/
theorem forest_of_shipping :
    ∃ g, shipping.absorbAll .empty shippingRows = .ok g ∧ g.roots = [0, 3, 6] ∧
      (List.range g.next).map g.childrenOf = [[1, 4], [2, 5], [], [], [], [], [7], [8], []] ∧
      (g.nodes.flatMap Node.parts).Perm (g.slots.map Slot.node) := by
  have shown : (shipping.absorbAll .empty shippingRows).toOption.map
      (fun g => (g.roots, (List.range g.next).map g.childrenOf)) =
        some ([0, 3, 6], [[1, 4], [2, 5], [], [], [], [], [7], [8], []]) := by decide +kernel
  cases run : shipping.absorbAll .empty shippingRows with
  | error e =>
      rw [run] at shown
      cases shown
  | ok g =>
      rw [run] at shown
      obtain ⟨hroots, hchildren⟩ := Prod.mk.inj (Option.some.inj shown)
      have grown := forest_of_absorbAll shipping shippingRows g run
      exact ⟨g, rfl, hroots, hchildren, grown.parts⟩

/-- With groups, the graph of each group is such a forest of its own. -/
theorem forest_of_absorbGrouped {rows : List Row} {groups : List (GroupKey × Graph)}
    (run : rows.foldlM m.absorbGrouped [] = .ok groups) : ∀ group ∈ groups, group.2.Grown := by
  intro group hgroup
  obtain ⟨-, absorbed⟩ := foldlM_absorbGrouped_iff.1 run
  obtain ⟨i, hi, rfl⟩ := List.getElem_of_mem hgroup
  have hi' : i < (m.partition GroupKey.sameGroup rows).length := absorbed.length_eq ▸ hi
  obtain ⟨-, own⟩ := absorbed.get hi' hi
  exact (isForest_of_absorbAll .empty own).grown

end Materializer

end TypedQuery
