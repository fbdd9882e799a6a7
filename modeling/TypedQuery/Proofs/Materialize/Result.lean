import TypedQuery.Demo
import TypedQuery.Proofs.Materialize.Absorb

/-!
# Materializing is grouping

The graph of all rows is built into the entities that grouping the rows gives: nothing is lost
and nothing is there twice, however the rows and the joins come. Entities are looked up by digests
and told apart by equality of keys, so this is grouping by equality as long as equal keys have one
digest. All keys do but documents, whose zeros may differ in their signs.
-/

namespace TypedQuery

namespace Materializer

open Outcome

variable {m : Materializer} {g : Graph} {t : Nat → SlotTrace} {rows : List Row}

theorem placeJoins_ok {earlier : List Binding} {js : List Join} {ps : List PlacedJoin}
    (h : placeJoins earlier js = .ok ps) :
    ps.map PlacedJoin.join = js ∧
      ∀ (index : Nat) (p : PlacedJoin), ps[index]? = some p →
        p.parent < earlier.length + index := by
  induction js generalizing earlier ps with
  | nil =>
      obtain rfl := Except.ok.inj h
      exact ⟨rfl, by simp⟩
  | cons j js ih =>
      rw [placeJoins] at h
      split at h
      · cases h
      rename_i parent hparent
      rw [bind_ok] at h
      obtain ⟨rest, hrest, h⟩ := h
      obtain rfl := Except.ok.inj h
      obtain ⟨hjoins, hparents⟩ := ih hrest
      refine ⟨by rw [List.map_cons, hjoins], ?_⟩
      intro index p hp
      cases index with
      | zero =>
          obtain rfl := Option.some.inj hp
          have := (List.findIdx?_eq_some_iff_findIdx_eq.1 hparent).1
          omega
      | succ index =>
          have := hparents index p hp
          simp only [List.length_append, List.length_singleton] at this
          omega

theorem ofShape_ok {s : Shape} (h : ofShape s = .ok m) :
    m.shape = s ∧ m.joins.map PlacedJoin.join = s.joins ∧ m.Placed := by
  unfold ofShape at h
  rw [bind_ok] at h
  obtain ⟨ps, hps, h⟩ := h
  obtain rfl := Except.ok.inj h
  obtain ⟨hjoins, hparents⟩ := placeJoins_ok hps
  refine ⟨rfl, hjoins, fun index p hp => ?_⟩
  have := hparents index p hp
  simp only [List.length_singleton] at this
  omega

/-- A complete slot is built into the entity over its rows. -/
theorem build_eq_nodeOver (placed : m.Placed) (traces : Traces m g t rows)
    (complete : m.Complete g t) {s : Nat} (hs : s < g.next) :
    g.build s = some (m.nodeOver Value.sameKey (t s).place (t s).first (t s).others) := by
  induction hn : g.next - s using Nat.strongRecOn generalizing s with
  | _ n ih =>
      subst hn
      have hlength : s < g.slots.length := hs
      obtain ⟨slot, hget⟩ : ∃ slot, g.slots[s] = slot := ⟨_, rfl⟩
      have hslot : g.slots[s]? = some slot := by rw [← hget, List.getElem?_eq_getElem]
      have hclasses := traces.children s slot hslot
      rw [complete s hs, SlotTrace.rows] at hclasses
      rw [Graph.build, dif_pos hlength, nodeOver, hclasses, List.foldl_map]
      dsimp only
      rw [hget, ← traces.node s slot hslot]
      refine congrArg some (List.foldl_ext _ _ _ fun n c hc => ?_)
      obtain ⟨later, present, -, -, relation⟩ := traces.child s slot hslot c hc
      have hvisit : (t c.2).childClass.1 ∈ m.visits (t s).place ((t s).first :: (t s).others) := by
        have hclass : (t c.2).childClass ∈ classes (m.sameVisit Value.sameKey)
            (m.visits (t s).place ((t s).first :: (t s).others)) := by
          rw [hclasses]
          exact List.mem_map_of_mem hc
        exact mem_of_mem_classes _ hclass
      have hplace : (t s).place < (t c.2).place := place_lt_of_mem_visits placed hvisit
      have hjoins : (t c.2).place ≤ m.joins.length := (mem_visits hvisit).2.2.2
      rw [if_neg (Nat.not_le_of_lt later), ih (g.next - c.2) (by omega) present rfl, relation]
      simp [SlotTrace.childClass, hplace, hjoins, Function.comp_def]

theorem nodes_eq_grouping (placed : m.Placed) (traces : Traces m g t rows)
    (complete : m.Complete g t) : g.nodes = m.grouping Value.sameKey rows := by
  rw [Graph.nodes, grouping, traces.roots, List.map_map, ← List.filterMap_eq_map]
  apply List.filterMap_congr
  intro s hs
  obtain ⟨hpresent, hplace⟩ := traces.rootSlot s hs
  rw [build_eq_nodeOver placed traces complete hpresent, hplace]
  rfl

theorem allMany_of_checkRelations (check : m.checkRelations = .ok ())
    (many : ∀ p ∈ m.joins, ∀ relation, p.relation = some relation → relation.cardinality = .many) :
    m.AllMany := by
  intro p hp
  cases hrelation : p.relation with
  | some relation => exact ⟨relation, rfl, many p hp relation hrelation⟩
  | none =>
      have hjoin := forM_ok check p hp
      simp [hrelation] at hjoin

/-- A path of keys leads to a slot that has its rows. -/
theorem exists_slot_of_path (traces : Traces m g t rows) (complete : m.Complete g t) {place : Nat}
    {first : Row} {others : List Row} (path : m.Path Value.sameKey rows place first others) :
    ∃ s < g.next, (t s).place = place ∧ (t s).first = first ∧ (t s).others = others := by
  induction path with
  | root hc =>
      rw [traces.roots] at hc
      obtain ⟨s, hs, rfl⟩ := List.mem_map.1 hc
      exact ⟨s, (traces.rootSlot s hs).1, (traces.rootSlot s hs).2, rfl, rfl⟩
  | related _ hc ih =>
      obtain ⟨s, hs, rfl, rfl, rfl⟩ := ih
      obtain ⟨slot, hslot⟩ : ∃ slot, g.slots[s]? = some slot := ⟨_, List.getElem?_eq_getElem hs⟩
      have hclasses := traces.children s slot hslot
      rw [complete s hs, SlotTrace.rows] at hclasses
      rw [hclasses] at hc
      obtain ⟨d, hd, rfl⟩ := List.mem_map.1 hc
      refine ⟨d.2, (traces.child s slot hslot d hd).present, rfl, rfl, ?_⟩
      simp [SlotTrace.childClass, Function.comp_def]

/-- Rows that were all taken in leave complete traces, from which the entities are built. -/
theorem exists_traces (placed : m.Placed) (builds : m.buildsGraphs = true)
    (many : ∀ p ∈ m.joins, ∀ relation, p.relation = some relation → relation.cardinality = .many)
    {nodes : List Node} (run : m.materialize rows = .ok nodes) :
    ∃ g t, Traces m g t rows ∧ m.Complete g t ∧ g.nodes = nodes := by
  obtain ⟨check, g, hall, hnodes⟩ := (materialize_ok_iff builds).1 run
  have start : Traces m .empty (fun _ => ⟨0, 0, ⟨[]⟩, [], []⟩) [] := .empty m _
  have nothing : m.Complete .empty fun _ => ⟨0, 0, ⟨[]⟩, [], []⟩ := fun s hs => by cases hs
  obtain ⟨t, traces, complete⟩ :=
    complete_of_absorbAll placed (allMany_of_checkRelations check many) start nothing hall
  exact ⟨g, t, traces, complete, hnodes⟩

variable (m rows) in
/-- Keys at one place that are equal have one digest. -/
def LawfulKeys : Prop :=
  ∀ place ≤ m.joins.length, ∀ a ∈ rows, ∀ b ∈ rows,
    (m.keyAt place a).same (m.keyAt place b) = true →
    (m.keyAt place a).digest = (m.keyAt place b).digest

theorem LawfulKeys.same_eq_sameKey (lawful : m.LawfulKeys rows) :
    ∀ place ≤ m.joins.length, ∀ a ∈ rows, ∀ b ∈ rows,
      (m.keyAt place a).same (m.keyAt place b) = (m.keyAt place a).sameKey (m.keyAt place b) := by
  intro place hplace a ha b hb
  cases hsame : (m.keyAt place a).same (m.keyAt place b) with
  | false => exact (Bool.and_eq_false_imp.2 fun _ => hsame).symm
  | true =>
      have hdigest := lawful place hplace a ha b hb hsame
      exact (Bool.and_eq_true_iff.2 ⟨beq_iff_eq.2 hdigest, hsame⟩).symm

/-- Only documents can be equal and have two digests. -/
theorem lawfulKeys_of_kind (noJson : ∀ place ≤ m.joins.length, ∀ f,
    (m.binding place).entity.keyField? m.shape.defaultKeyField = some f → f.kind ≠ .json) :
    m.LawfulKeys rows := by
  intro place hplace a _ b _
  refine Value.NoDocument.digest_eq ?_
  unfold keyAt key?
  cases hf : (m.binding place).entity.keyField? m.shape.defaultKeyField with
  | none => exact fun notNull => (notNull rfl).elim
  | some f => exact Row.noDocument_valueAs? (noJson place hplace f hf) a _

/-- The entities of the rows of a joined query are those of the grouping of the rows by what keys are
looked up by. As long as equal keys have one digest this is the grouping by equality: one root for
every root key, and below every path of keys one entity for every key of a join in the rows of the
path. Keys and field values are those that the columns hold. -/
theorem materialize_eq_grouping (s : Shape) (m : Materializer) (rows : List Row)
    (nodes : List Node) (shape : ofShape s = .ok m) (noProjection : s.projection = none)
    (joined : s.joins ≠ [])
    (many : ∀ p ∈ m.joins, ∀ relation, p.relation = some relation → relation.cardinality = .many)
    (run : m.materialize rows = .ok nodes) :
    nodes = m.grouping Value.sameKey rows ∧
      (m.LawfulKeys rows → nodes = m.grouping Value.same rows ∧
        ∀ place first others, m.Path Value.same rows place first others →
          m.Represents Value.same place first others
            (m.nodeOver Value.same place first others)) := by
  obtain ⟨rfl, -, placed⟩ := ofShape_ok shape
  have builds : m.buildsGraphs = true := by
    simp [buildsGraphs, noProjection, joined]
  obtain ⟨g, t, traces, complete, rfl⟩ := exists_traces placed builds many run
  have found := nodes_eq_grouping placed traces complete
  refine ⟨found, fun lawful => ?_⟩
  have agree := lawful.same_eq_sameKey
  rw [grouping_congr agree]
  refine ⟨found, fun place first others path => ?_⟩
  obtain ⟨slot, hslot, rfl, rfl, rfl⟩ := exists_slot_of_path traces complete (path.congr agree)
  exact represents_nodeOver placed (traces.hasEntity slot hslot) _

def parcel : Entity :=
  { ref := "Parcel"
    typeName := "Parcel"
    table := "parcels"
    fields := [Demo.key "id" (.integer .i64)]
    relations := [] }

/-- Customers with their orders and the parcels of each order, of which only the keys are read. -/
def shipping : Materializer :=
  let key := Demo.key "id" (.integer .i64)
  let order := { Demo.order with relations := [⟨"parcels", parcel.toEntityName, .many⟩] }
  let orders : Join := ⟨.left, Demo.customer, ⟨order, "Extend1", [key]⟩, []⟩
  let parcels : Join := ⟨.left, order, ⟨parcel, "Extend2", [key]⟩, []⟩
  { shape :=
      { root := ⟨Demo.customer, "Extend0", [key]⟩
        projection := none
        joins := [orders, parcels]
        groupingKeys := []
        aggregationKeys := []
        defaultKeyField := "id" }
    joins :=
      [⟨orders, 0, Demo.customer.relations.head?⟩, ⟨parcels, 1, order.relations.head?⟩] }

def shippingRow (customer : Int64) (order parcel : Value) : Row :=
  ⟨[("Extend0_id", .int customer), ("Extend1_id", order), ("Extend2_id", parcel)]⟩

/-- The first order has two parcels, one of them in two rows, and its key is also that of an order
of another customer. -/
def shippingRows : List Row :=
  [shippingRow 1 (.int 10) (.int 100), shippingRow 2 .null .null, shippingRow 1 (.int 11) .null,
    shippingRow 1 (.int 10) (.int 101), shippingRow 3 (.int 10) (.int 100),
    shippingRow 1 (.int 10) (.int 100)]

theorem shipping_eq_grouping :
    ofShape shipping.shape = .ok shipping ∧ shipping.shape.projection = none ∧
      shipping.shape.joins ≠ [] ∧
      (∀ p ∈ shipping.joins, ∀ relation, p.relation = some relation →
        relation.cardinality = .many) ∧
      shipping.LawfulKeys shippingRows ∧
      ∃ nodes, shipping.materialize shippingRows = .ok nodes ∧
        nodes = shipping.grouping Value.same shippingRows ∧
        nodes.map (fun n => (n.related "orders").map fun o => (o.related "parcels").length) =
          [[2, 0], [], [1]] := by
  have shape : ofShape shipping.shape = .ok shipping := rfl
  have joined : shipping.shape.joins ≠ [] := by simp [shipping]
  have many : ∀ p ∈ shipping.joins, ∀ relation, p.relation = some relation →
      relation.cardinality = .many := by
    intro p hp relation hrelation
    have hp : p = shipping.joins[0] ∨ p = shipping.joins[1] := by simpa [shipping] using hp
    rcases hp with rfl | rfl <;> cases hrelation <;> rfl
  have lawful : shipping.LawfulKeys shippingRows := by
    refine lawfulKeys_of_kind fun place hplace f hf => ?_
    have hplace : place = 0 ∨ place = 1 ∨ place = 2 := by
      simp only [shipping, List.length_cons, List.length_nil] at hplace
      omega
    rcases hplace with rfl | rfl | rfl <;> cases hf <;> decide
  have counts : (shipping.materialize shippingRows).toOption.map (fun nodes => nodes.map fun n =>
      (n.related "orders").map fun o => (o.related "parcels").length) = some [[2, 0], [], [1]] := by
    decide +kernel
  obtain ⟨nodes, hnodes, hcounts⟩ := Option.map_eq_some_iff.1 counts
  have run := eq_ok_of_toOption hnodes
  obtain ⟨-, grouped⟩ := materialize_eq_grouping shipping.shape shipping shippingRows nodes shape rfl
    joined many run
  obtain ⟨grouped, -⟩ := grouped lawful
  exact ⟨shape, rfl, joined, many, lawful, nodes, run, grouped, hcounts⟩

/-- Drafts, which are known by a document, with their notes. -/
def drafts : Materializer :=
  let key := Demo.key "id" (.integer .i64)
  let document := Demo.key "document" .json
  let note : Entity :=
    { ref := "Note", typeName := "Note", table := "notes", fields := [key], relations := [] }
  let draft : Entity :=
    { ref := "Draft"
      typeName := "Draft"
      table := "drafts"
      fields := [document]
      relations := [⟨"notes", note.toEntityName, .many⟩] }
  let notes : Join := ⟨.left, draft, ⟨note, "Extend1", [key]⟩, []⟩
  { shape :=
      { root := ⟨draft, "Extend0", [document]⟩
        projection := none
        joins := [notes]
        groupingKeys := []
        aggregationKeys := []
        defaultKeyField := "id" }
    joins := [⟨notes, 0, draft.relations.head?⟩] }

/-- A row whose document is a zero. -/
def draftRow (negative : Bool) (note : Int64) : Row :=
  ⟨[("Extend0_document", .json (.number (.real (.zero negative)))), ("Extend1_id", .int note)]⟩

/-- Two rows have equal keys, and yet they become two roots. -/
theorem drafts_ne_grouping :
    ofShape drafts.shape = .ok drafts ∧ drafts.shape.projection = none ∧
      drafts.shape.joins ≠ [] ∧
      (drafts.joins.all fun p => p.relation.all (·.cardinality == .many)) = true ∧
      (drafts.keyAt 0 (draftRow false 1)).same (drafts.keyAt 0 (draftRow true 2)) = true ∧
      ((drafts.materialize [draftRow false 1, draftRow true 2]).toOption.map List.length) = some 2 ∧
      (drafts.grouping Value.same [draftRow false 1, draftRow true 2]).length = 1 := by
  refine ⟨rfl, rfl, by simp [drafts], ?_⟩
  decide +kernel

end Materializer

end TypedQuery
