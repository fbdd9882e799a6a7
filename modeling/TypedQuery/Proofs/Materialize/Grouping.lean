import TypedQuery.Materialize
import TypedQuery.Proofs.Field.Coerced
import TypedQuery.Proofs.Materialize.Classes
import TypedQuery.Proofs.Outcome
import TypedQuery.Proofs.Value.SameKey

/-!
# Grouping rows into entities

What the rows of a joined query stand for, said of the list of all rows and of what their columns
hold: rows with one root key are one root, and of the rows of an entity those with one key at a join
are one related entity. So an entity belongs to a path of keys, and its rows are all rows that carry
that path. Which keys are one is left open; for the entities themselves it is equality of values.

Places are those of the shape, 0 for the root and one more than its position for a join. A key or a
field without a value of its kind counts as NULL where a value is needed. No result has one.
-/

namespace TypedQuery

open Outcome

/-- The value of a column where there is one, as one of a kind if one is given. -/
def Row.valueAs? (r : Row) (column : String) : Option Kind → Option Value
  | none => r.get? column
  | some k => (r.get? column).bind (·.coerce? k)

theorem Row.read_ok_iff {r : Row} {column : String} {kind : Option Kind} {v : Value} :
    r.read column kind = .ok v ↔ r.valueAs? column kind = some v := by
  unfold read
  cases kind <;> cases hget : r.get? column with
  | none => simp [valueAs?, hget]
  | some w => simp [valueAs?, hget] <;> cases w.coerce? _ <;> simp

theorem Row.noDocument_valueAs? {k : Kind} (other : k ≠ .json) (r : Row) (column : String) :
    ((r.valueAs? column (some k)).getD .null).NoDocument := by
  intro notNull
  cases hvalue : r.valueAs? column (some k) with
  | none =>
      rw [hvalue] at notNull
      exact (notNull rfl).elim
  | some w =>
      rw [hvalue] at notNull
      obtain ⟨v, -, hv⟩ := Option.bind_eq_some_iff.1 hvalue
      refine ⟨k, Value.kind?_of_coerce? ?_ hv, other⟩
      rintro rfl
      exact notNull (Option.some.inj hv).symm

namespace Binding

variable {b : Binding} {r : Row} {n : Node}

/-- What a row holds for a field: the value of the field's column, as one of the field's kind. -/
def valueOf? (b : Binding) (r : Row) (f : Field) : Option Value :=
  r.valueAs? (b.column f.name) (some f.kind)

/-- The row holds a value for every selected field. -/
def Legible (b : Binding) (r : Row) : Prop := ∀ f ∈ b.fields, (b.valueOf? r f).isSome = true

/-- What a row holds for fields, the last of them first. -/
def entries (b : Binding) (r : Row) (fields : List Field) : List (String × Value) :=
  (fields.map fun f => (f.name, (b.valueOf? r f).getD .null)).reverse

/-- The entity that a row holds, without related entities. -/
def nodeOf (b : Binding) (r : Row) : Node := .mk b.entity (b.entries r b.fields) []

variable (b r) in
/-- Reads one more field of a node. -/
def readField (n : Node) (f : Field) : Except QueryError Node := do
  let v ← r.read (b.column f.name) (some f.kind)
  .ok (n.set f.name v)

theorem readField_ok {f : Field} {n' : Node} : b.readField r n f = .ok n' ↔
    ∃ v, r.read (b.column f.name) (some f.kind) = .ok v ∧ n' = n.set f.name v := by
  rw [readField, bind_ok]
  simp [eq_comm]

/-- Fields are read when the row holds a value for each, and these are set one after the other. -/
theorem readFields_ok_iff {fields : List Field} {start : Node} :
    fields.foldlM (b.readField r) start = .ok n ↔ (∀ f ∈ fields, (b.valueOf? r f).isSome = true) ∧
      n = .mk start.entity (b.entries r fields ++ start.values) start.relations := by
  induction fields generalizing start with
  | nil =>
      obtain ⟨e, values, relations⟩ := start
      rw [List.foldlM_nil]
      refine ⟨fun h => ⟨by simp, (Except.ok.inj h).symm⟩, fun h => ?_⟩
      rw [h.2]
      rfl
  | cons f fields ih =>
      simp only [List.foldlM_cons, bind_ok, readField_ok, Row.read_ok_iff, ih, List.forall_mem_cons]
      have hset {v : Value} (hv : b.valueOf? r f = some v) :
          Node.mk (start.set f.name v).entity (b.entries r fields ++ (start.set f.name v).values)
            (start.set f.name v).relations =
          .mk start.entity (b.entries r (f :: fields) ++ start.values) start.relations := by
        simp [entries, hv, Node.set, Node.entity, Node.values, Node.relations]
      constructor
      · rintro ⟨_, ⟨v, hv, rfl⟩, hfields, rfl⟩
        exact ⟨⟨Option.isSome_of_eq_some hv, hfields⟩, hset hv⟩
      · rintro ⟨⟨hf, hfields⟩, rfl⟩
        obtain ⟨v, hv⟩ := Option.isSome_iff_exists.1 hf
        exact ⟨_, ⟨v, hv, rfl⟩, hfields, (hset hv).symm⟩

theorem readNode_ok_iff : b.readNode r = .ok n ↔ b.Legible r ∧ n = b.nodeOf r :=
  readFields_ok_iff.trans (by rw [Node.empty, Node.values, List.append_nil]; rfl)

theorem relations_of_readNode (h : b.readNode r = .ok n) : n.relations = [] := by
  rw [(readNode_ok_iff.1 h).2]
  rfl

end Binding

namespace Materializer

variable (m : Materializer)

/-- The binding at a place. -/
def binding (place : Nat) : Binding :=
  (m.shape.root :: m.joins.map fun p => p.join.related).getD place m.shape.root

/-- What a row holds for the primary key of the entity at a place. -/
def key? (place : Nat) (r : Row) : Option Value :=
  ((m.binding place).entity.keyField? m.shape.defaultKeyField).bind ((m.binding place).valueOf? r)

/-- The key of the entity at a place. -/
def keyAt (place : Nat) (r : Row) : Value := (m.key? place r).getD .null

/-- Is the key of the entity at a place NULL? -/
def nullAt (place : Nat) (r : Row) : Bool := (m.key? place r).any Value.isNull

/-- The entity at a place with its field values, without related entities. -/
def nodeAt (place : Nat) (r : Row) : Node := (m.binding place).nodeOf r

/-- The row holds an entity at the place: a key that is not NULL, and a value for every field. -/
structure HasEntity (place : Nat) (r : Row) : Prop where
  key : ∃ k, m.key? place r = some k ∧ k.isNull = false
  fields : (m.binding place).Legible r

/-- The join at a place. -/
def joinAt? : Nat → Option PlacedJoin
  | 0 => none
  | index + 1 => m.joins[index]?

/-- The relation that leads to a place. -/
def relationAt (place : Nat) : String :=
  match (m.joinAt? place).bind PlacedJoin.relation with
  | some relation => relation.name
  | none => ""

/-- A row that has an entity at the place of a join. -/
structure Visit where
  place : Nat
  row : Row

/-- Does the row have an entity at the place that hangs below the one at the other place? -/
def leadsTo (parent : Nat) (r : Row) (place : Nat) : Bool :=
  (m.joinAt? place).any (·.parent == parent) && !m.nullAt place r

/-- The entities of a row below the one at a place, as far as the place of the given join. -/
def visitsUpTo (parent : Nat) (r : Row) (joins : Nat) : List Visit :=
  ((List.range joins).map Nat.succ).filterMap fun place =>
    if m.leadsTo parent r place then some ⟨place, r⟩ else none

/-- The entities below the one at a place, row by row and join by join. -/
def visits (parent : Nat) (rows : List Row) : List Visit :=
  rows.flatMap fun r => m.visitsUpTo parent r m.joins.length

section

variable (same : Value → Value → Bool)

/-- Is it one root? -/
def sameRoot (a b : Row) : Bool := same (m.keyAt 0 a) (m.keyAt 0 b)

/-- Is it one related entity, when the rows belong to one parent? -/
def sameVisit (v w : Visit) : Bool :=
  v.place == w.place && same (m.keyAt v.place v.row) (m.keyAt w.place w.row)

/-- The entity at a place over its rows. Its values are those of the first row, and each join
from it contributes one entity for every key in its rows that is not NULL. Joins lead to later
places. -/
def nodeOver (place : Nat) (first : Row) (others : List Row) : Node :=
  (classes (m.sameVisit same) (m.visits place (first :: others))).foldl (fun n c =>
    if place < c.1.place ∧ c.1.place ≤ m.joins.length then
      n.push (m.relationAt c.1.place) (nodeOver c.1.place c.1.row (c.2.map Visit.row))
    else n) (m.nodeAt place first)
termination_by m.joins.length - place

/-- The roots over all rows. -/
def grouping (rows : List Row) : List Node :=
  (classes (m.sameRoot same) rows).map fun c => m.nodeOver same 0 c.1 c.2

/-- The rows that carry one path of keys, which leads to an entity at a place. -/
inductive Path (rows : List Row) : Nat → Row → List Row → Prop
  | root {c} (root : c ∈ classes (m.sameRoot same) rows) : Path rows 0 c.1 c.2
  | related {place first others c} (parent : Path rows place first others)
      (child : c ∈ classes (m.sameVisit same) (m.visits place (first :: others))) :
      Path rows c.1.place c.1.row (c.2.map Visit.row)

end

section

variable {m : Materializer} {r : Row}

/-- Parents of joins come before them. -/
def Placed (m : Materializer) : Prop :=
  ∀ (index : Nat) (p : PlacedJoin), m.joins[index]? = some p → p.parent ≤ index

theorem leadsTo_iff {parent index : Nat} :
    m.leadsTo parent r (index + 1) = true ↔
      (∃ p, m.joins[index]? = some p ∧ p.parent = parent) ∧
        m.nullAt (index + 1) r = false := by
  simp [leadsTo, joinAt?, Option.any_eq_true]

theorem visitsUpTo_succ (parent : Nat) (r : Row) (index : Nat) :
    m.visitsUpTo parent r (index + 1) = m.visitsUpTo parent r index ++
      if m.leadsTo parent r (index + 1) then [⟨index + 1, r⟩] else [] := by
  rw [visitsUpTo, List.range_succ, List.map_append, List.filterMap_append, ← visitsUpTo]
  cases h : m.leadsTo parent r (index + 1) <;> simp [h]

/-- No join before a place leads from it. -/
theorem visitsUpTo_eq_nil (placed : m.Placed) {parent index : Nat} (h : index ≤ parent) (r : Row) :
    m.visitsUpTo parent r index = [] := by
  induction index with
  | zero => rfl
  | succ index ih =>
      rw [visitsUpTo_succ, ih (Nat.le_of_succ_le h), List.nil_append]
      apply if_neg
      intro hleads
      obtain ⟨⟨p, hp, rfl⟩, -⟩ := leadsTo_iff.1 hleads
      exact Nat.not_le_of_lt h (placed index p hp)

theorem visits_concat (parent : Nat) (before : List Row) (r : Row) :
    m.visits parent (before ++ [r]) =
      m.visits parent before ++ m.visitsUpTo parent r m.joins.length := by
  simp [visits]

theorem mem_visits {parent : Nat} {rows : List Row} {v : Visit}
    (h : v ∈ m.visits parent rows) :
    v.row ∈ rows ∧ m.leadsTo parent v.row v.place = true ∧ 0 < v.place ∧
      v.place ≤ m.joins.length := by
  obtain ⟨r, hr, hv⟩ := List.mem_flatMap.1 h
  obtain ⟨place, hplace, hsome⟩ := List.mem_filterMap.1 hv
  obtain ⟨index, hindex, rfl⟩ := List.mem_map.1 hplace
  split at hsome
  · rename_i hleads
    obtain rfl := Option.some.inj hsome
    exact ⟨hr, hleads, Nat.succ_pos _, List.mem_range.1 hindex⟩
  · cases hsome

/-- The places below a place are later ones. -/
theorem place_lt_of_mem_visits (placed : m.Placed) {parent : Nat} {v : Visit}
    (h : v ∈ m.visits parent rows) : parent < v.place := by
  obtain ⟨-, hleads, hpos, -⟩ := mem_visits h
  obtain ⟨index, hindex⟩ := Nat.exists_eq_succ_of_ne_zero (Nat.ne_of_gt hpos)
  rw [hindex] at hleads
  obtain ⟨⟨p, hp, rfl⟩, -⟩ := leadsTo_iff.1 hleads
  have := placed index p hp
  omega

/-- The rows of an entity are rows of its parent. -/
theorem mem_of_mem_visits {same : Value → Value → Bool} {parent : Nat} {rows : List Row}
    {c : Visit × List Visit} (hc : c ∈ classes (m.sameVisit same) (m.visits parent rows)) :
    ∀ r ∈ c.1.row :: c.2.map Visit.row, r ∈ rows := by
  intro r hr
  rw [← List.map_cons] at hr
  obtain ⟨v, hv, rfl⟩ := List.mem_map.1 hr
  exact (mem_visits (mem_of_mem_class hc hv)).1

/-- Of the visits of a row, those of one join are its visit of that join. -/
theorem filter_visitsUpTo {parent index : Nat} {joins : Nat} (h : index < joins) :
    (m.visitsUpTo parent r joins).filter (fun v => v.place == index + 1) =
      if m.leadsTo parent r (index + 1) then [⟨index + 1, r⟩] else [] := by
  have before (joins : Nat) (h : joins ≤ index) :
      (m.visitsUpTo parent r joins).filter (fun v => v.place == index + 1) = [] := by
    induction joins with
    | zero => rfl
    | succ joins ih =>
        rw [visitsUpTo_succ, List.filter_append, ih (Nat.le_of_succ_le h), List.nil_append]
        split
        · exact List.filter_cons_of_neg (by simp; omega)
        · rfl
  induction joins with
  | zero => cases h
  | succ joins ih =>
      rw [visitsUpTo_succ, List.filter_append]
      rcases Nat.lt_or_eq_of_le (Nat.le_of_lt_succ h) with hlt | rfl
      · rw [ih hlt]
        have hother : (joins + 1 == index + 1) = false := by
          rw [beq_eq_false_iff_ne]
          omega
        cases m.leadsTo parent r (joins + 1) <;> simp [hother]
      · rw [before index (Nat.le_refl _), List.nil_append]
        cases m.leadsTo parent r (index + 1) <;> simp

/-- The visits of one join are those of the rows in which its key is not NULL. -/
theorem filter_visits {index : Nat} {p : PlacedJoin} (hp : m.joins[index]? = some p)
    (rows : List Row) :
    (m.visits p.parent rows).filter (fun v => v.place == index + 1) =
      (rows.filter fun r => !m.nullAt (index + 1) r).map (Visit.mk (index + 1)) := by
  have hindex := (List.getElem?_eq_some_iff.1 hp).1
  induction rows with
  | nil => rfl
  | cons r rows ih =>
      have hleads : m.leadsTo p.parent r (index + 1) = !m.nullAt (index + 1) r := by
        simp [leadsTo, joinAt?, hp]
      rw [visits, List.flatMap_cons, List.filter_append, filter_visitsUpTo hindex, ← visits, ih,
        hleads, List.filter_cons]
      cases m.nullAt (index + 1) r <;> rfl

end

end Materializer

namespace Node

theorem lookup_append_of_ne {name other : String} (h : other ≠ name) (c : Node)
    (rs : List (String × List Node)) : (append name c rs).lookup other = rs.lookup other := by
  induction rs with
  | nil => simp [append, h]
  | cons entry rest ih =>
      obtain ⟨relation, nodes⟩ := entry
      rw [append]
      split
      · rename_i hname
        have hother : (other == relation) = false := by simp [hname, h]
        simp [List.lookup_cons, hother]
      · rw [List.lookup_cons, List.lookup_cons, ih]

theorem related_push (n c : Node) (name other : String) :
    (n.push name c).related other = n.related other ++ if name = other then [c] else [] := by
  split
  · rename_i h
    rw [h, related_push_self]
  · rename_i h
    rw [related, push, relations, lookup_append_of_ne (Ne.symm h), List.append_nil]
    rfl

/-- Nodes attached one after the other stand under their relations in that order. -/
theorem related_foldl_push {ι : Type} (name : ι → String) (child : ι → Node) (is : List ι)
    (n : Node) (relation : String) :
    (is.foldl (fun n i => n.push (name i) (child i)) n).related relation =
      n.related relation ++ (is.filter fun i => name i == relation).map child := by
  induction is generalizing n with
  | nil => simp
  | cons i is ih =>
      rw [List.foldl_cons, ih, related_push, List.filter_cons]
      by_cases h : name i = relation <;> simp [h]

end Node

namespace Materializer

variable {m : Materializer} {same : Value → Value → Bool}

theorem related_nodeAt (place : Nat) (r : Row) (relation : String) :
    (m.nodeAt place r).related relation = [] := rfl

/-- Where one join alone follows a relation, the entities of the relation are those of the join:
one for each of its keys, in the order in which they come first. -/
theorem related_nodeOver (placed : m.Placed) {index : Nat} {p : PlacedJoin}
    (hp : m.joins[index]? = some p)
    (alone : ∀ (index' : Nat) (p' : PlacedJoin), m.joins[index']? = some p' → p'.parent = p.parent →
      m.relationAt (index' + 1) = m.relationAt (index + 1) → index' = index)
    (first : Row) (others : List Row) :
    (m.nodeOver same p.parent first others).related (m.relationAt (index + 1)) =
      (classes (fun a b => same (m.keyAt (index + 1) a) (m.keyAt (index + 1) b))
        ((first :: others).filter fun r => !m.nullAt (index + 1) r)).map
        fun c => m.nodeOver same (index + 1) c.1 c.2 := by
  have ofJoin : ∀ c ∈ classes (m.sameVisit same) (m.visits p.parent (first :: others)),
      (m.relationAt c.1.place == m.relationAt (index + 1)) = (c.1.place == index + 1) := by
    intro c hc
    obtain ⟨-, hleads, hpos, -⟩ := mem_visits (mem_of_mem_classes _ hc)
    obtain ⟨index', hindex'⟩ := Nat.exists_eq_succ_of_ne_zero (Nat.ne_of_gt hpos)
    rw [hindex'] at hleads ⊢
    obtain ⟨⟨p', hp', hparent⟩, -⟩ := leadsTo_iff.1 hleads
    rw [Bool.eq_iff_iff, beq_iff_eq, beq_iff_eq]
    constructor
    · intro hrelation
      rw [alone index' p' hp' hparent hrelation]
    · intro hplace
      rw [hplace]
  have allLater : ∀ (n : Node),
      ∀ c ∈ classes (m.sameVisit same) (m.visits p.parent (first :: others)),
      (if p.parent < c.1.place ∧ c.1.place ≤ m.joins.length then
        n.push (m.relationAt c.1.place) (m.nodeOver same c.1.place c.1.row (c.2.map Visit.row))
      else n) =
        n.push (m.relationAt c.1.place) (m.nodeOver same c.1.place c.1.row (c.2.map Visit.row)) := by
    intro n c hc
    have hvisit := mem_of_mem_classes _ hc
    exact if_pos ⟨place_lt_of_mem_visits placed hvisit, (mem_visits hvisit).2.2.2⟩
  have closed (v w : Visit) (h : m.sameVisit same v w = true) :
      (v.place == index + 1) = (w.place == index + 1) := by
    have hplace : v.place = w.place := beq_iff_eq.1 (Bool.and_eq_true_iff.1 h).1
    rw [hplace]
  have sameKeys : (fun a b => m.sameVisit same ⟨index + 1, a⟩ ⟨index + 1, b⟩) =
      fun a b => same (m.keyAt (index + 1) a) (m.keyAt (index + 1) b) := by
    funext a b
    simp [sameVisit]
  rw [nodeOver, List.foldl_ext _ _ _ allLater, Node.related_foldl_push, related_nodeAt,
    List.nil_append, List.filter_congr ofJoin, ← classes_filter closed, filter_visits hp,
    classes_map, List.map_map, sameKeys]
  apply List.map_congr_left
  intro c _
  simp [Function.comp_def]

/-- What hangs below an entity changes neither its type nor its field values. -/
theorem keeps_nodeOver (place : Nat) (first : Row) (others : List Row) :
    (m.nodeOver same place first others).entity = (m.binding place).entity ∧
      (m.nodeOver same place first others).values =
        (m.binding place).entries first (m.binding place).fields := by
  rw [nodeOver]
  refine List.foldlRecOn (motive := fun n : Node => n.entity = _ ∧ n.values = _) _ _ ⟨rfl, rfl⟩
    fun n hn c _ => ?_
  split
  · exact hn
  · exact hn

/-- What the entity at a place over its rows is, read off the columns of these rows: its key and its
field values are those of the first row, and a join that alone follows its relation contributes one
entity for each of its keys in the rows. -/
structure Represents (m : Materializer) (same : Value → Value → Bool) (place : Nat) (first : Row)
    (others : List Row) (n : Node) : Prop where
  key : ∃ k, m.key? place first = some k ∧ k.isNull = false
  entity : n.entity = (m.binding place).entity
  fields : List.Forall₂ (fun f entry => entry.1 = f.name ∧
    (m.binding place).valueOf? first f = some entry.2) (m.binding place).fields n.values.reverse
  related : ∀ (index : Nat) (p : PlacedJoin), m.joins[index]? = some p → p.parent = place →
    (∀ (index' : Nat) (p' : PlacedJoin), m.joins[index']? = some p' → p'.parent = place →
      m.relationAt (index' + 1) = m.relationAt (index + 1) → index' = index) →
    n.related (m.relationAt (index + 1)) =
      (classes (fun a b => same (m.keyAt (index + 1) a) (m.keyAt (index + 1) b))
        ((first :: others).filter fun r => !m.nullAt (index + 1) r)).map
        fun c => m.nodeOver same (index + 1) c.1 c.2

theorem represents_nodeOver (placed : m.Placed) {place : Nat} {first : Row}
    (h : m.HasEntity place first) (others : List Row) :
    m.Represents same place first others (m.nodeOver same place first others) where
  key := h.key
  entity := (keeps_nodeOver place first others).1
  fields := by
    rw [(keeps_nodeOver place first others).2, Binding.entries, List.reverse_reverse,
      List.forall₂_map_right_iff, List.forall₂_same]
    intro f hf
    obtain ⟨v, hv⟩ := Option.isSome_iff_exists.1 (h.fields f hf)
    exact ⟨rfl, by rw [hv]; rfl⟩
  related index p hp hparent alone := by
    subst hparent
    exact related_nodeOver placed hp alone first others

theorem Path.mem_rows {rows : List Row} {place : Nat} {first : Row} {others : List Row}
    (h : m.Path same rows place first others) : ∀ r ∈ first :: others, r ∈ rows := by
  induction h with
  | root hc => exact fun r hr => mem_of_mem_class hc hr
  | related _ hc ih => exact fun r hr => ih r (mem_of_mem_visits hc r hr)

section

variable {same' : Value → Value → Bool} {rows : List Row}
  (agree : ∀ place ≤ m.joins.length, ∀ a ∈ rows, ∀ b ∈ rows,
    same (m.keyAt place a) (m.keyAt place b) = same' (m.keyAt place a) (m.keyAt place b))

include agree

theorem classes_sameRoot_congr :
    classes (m.sameRoot same) rows = classes (m.sameRoot same') rows :=
  classes_congr rows (agree 0 (Nat.zero_le _))

theorem classes_sameVisit_congr {others : List Row} (within : ∀ r ∈ others, r ∈ rows)
    (parent : Nat) : classes (m.sameVisit same) (m.visits parent others) =
      classes (m.sameVisit same') (m.visits parent others) := by
  refine classes_congr _ fun v hv w hw => ?_
  obtain ⟨hvrow, -, -, hplace⟩ := mem_visits hv
  obtain ⟨hwrow, -⟩ := mem_visits hw
  unfold sameVisit
  cases heq : v.place == w.place with
  | false => simp
  | true =>
      rw [← beq_iff_eq.1 heq]
      exact agree v.place hplace v.row (within _ hvrow) w.row (within _ hwrow)

theorem nodeOver_congr {place : Nat} {first : Row} {others : List Row}
    (within : ∀ r ∈ first :: others, r ∈ rows) :
    m.nodeOver same place first others = m.nodeOver same' place first others := by
  induction hn : m.joins.length - place using Nat.strongRecOn generalizing place first others with
  | _ n ih =>
      subst hn
      rw [nodeOver, nodeOver, classes_sameVisit_congr agree within]
      refine List.foldl_ext _ _ _ fun n c hc => ?_
      split
      · rename_i later
        have below : ∀ r ∈ c.1.row :: c.2.map Visit.row, r ∈ rows :=
          fun r hr => within r (mem_of_mem_visits hc r hr)
        rw [ih (m.joins.length - c.1.place) (by omega) below rfl]
      · rfl

theorem grouping_congr : m.grouping same rows = m.grouping same' rows := by
  rw [grouping, grouping, classes_sameRoot_congr agree]
  exact List.map_congr_left fun c hc =>
    nodeOver_congr agree fun r hr => mem_of_mem_class hc hr

theorem Path.congr {place : Nat} {first : Row} {others : List Row}
    (h : m.Path same rows place first others) : m.Path same' rows place first others := by
  induction h with
  | root hc => exact .root (classes_sameRoot_congr agree ▸ hc)
  | related parent hc ih =>
      rw [classes_sameVisit_congr agree parent.mem_rows] at hc
      exact .related ih hc

end

end Materializer

end TypedQuery
