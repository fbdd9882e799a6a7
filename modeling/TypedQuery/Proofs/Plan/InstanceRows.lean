import TypedQuery.Proofs.Field.Names
import TypedQuery.Proofs.Field.RoundTrip
import TypedQuery.Proofs.Materialize.Edges
import TypedQuery.Proofs.Plan.FirstResult
import TypedQuery.Proofs.Plan.ReadBack

/-!
# Instances in rows

A row holds an instance if it has the value of each field in the column of the field. Coercion
leaves such a value as it is, and the field is read back from it. So a query that reads its results
row by row gives back the instances that its rows hold.
-/

namespace TypedQuery

open Outcome

/-- Both have one field, and what they store for it is the same. -/
def FieldContent.Same (c c' : FieldContent) : Prop :=
  ∃ y, c' = ⟨c.field, y⟩ ∧ c.field.type.Same c.content y

/-- A relation without related entities. -/
def Related.empty : Cardinality → Related
  | .one => .one none
  | .many => .many []

namespace Instance

/-- The instance is one of the entity and has no related entities. -/
structure Bare (E : Entity) (i : Instance) : Prop where
  entity : i.entity = E
  fields : i.fields.map FieldContent.field = E.fields
  relations : i.relations = E.relations.map fun r => (r.name, .empty r.cardinality)

/-- Both have the same fields and the same relations. -/
structure Same (i i' : Instance) : Prop where
  entity : i'.entity = i.entity
  fields : List.Forall₂ FieldContent.Same i.fields i'.fields
  relations : i'.relations = i.relations

section

variable {E : Entity} {i : Instance} {c : FieldContent}

/-- A field is found under its name, which no other field has. -/
theorem Bare.find? (bare : i.Bare E) (distinct : (E.fields.map Field.name).Nodup)
    (hc : c ∈ i.fields) : i.fields.find? (·.field.name == c.field.name) = some c := by
  rw [← bare.fields, List.map_map] at distinct
  obtain ⟨c', hc'⟩ : ∃ c', i.fields.find? (·.field.name == c.field.name) = some c' := by
    rw [← Option.isSome_iff_exists, List.find?_isSome]
    exact ⟨c, hc, beq_self_eq_true _⟩
  have hname : c'.field.name = c.field.name := by simpa using List.find?_some hc'
  obtain rfl : c' = c := List.inj_on_of_nodup_map distinct (List.mem_of_find?_eq_some hc') hc hname
  exact hc'

theorem Bare.fieldValue? (bare : i.Bare E) (distinct : (E.fields.map Field.name).Nodup)
    (hc : c ∈ i.fields) : i.fieldValue? c.field.name = some c.value := by
  rw [Instance.fieldValue?, bare.find? distinct hc]
  rfl

end

end Instance

/-- The row has the values of the instance's fields in their columns. -/
def Row.Holds (r : Row) (label : String) (i : Instance) : Prop :=
  ∀ f ∈ i.entity.fields, r.get? (label ++ "_" ++ f.name) = i.fieldValue? f.name

namespace Instance

/-- The row of an instance: a column for each field. -/
def row (i : Instance) (label : String) : Row :=
  .ofList (i.fields.map fun c => (label ++ "_" ++ c.field.name, c.value))

/-- The row of an instance holds it, under any alias. -/
theorem Bare.holds_row {E : Entity} {i : Instance} (bare : i.Bare E)
    (distinct : (E.fields.map Field.name).Nodup) (label : String) :
    (i.row label).Holds label i := by
  have names : ((i.fields.map fun c => (label ++ "_" ++ c.field.name, c.value)).map
      Prod.fst).Nodup := by
    rw [← bare.fields] at distinct
    have columns := distinct.map (f := fun n => label ++ "_" ++ n) fun m n h => by simpa using h
    simpa [Function.comp_def] using columns
  intro f hf
  rw [bare.entity, ← bare.fields] at hf
  obtain ⟨c, hc, rfl⟩ := List.mem_map.1 hf
  have hfind : (i.row label).columns.find? (·.1 == label ++ "_" ++ c.field.name) =
      some (label ++ "_" ++ c.field.name, c.value) := by
    have sameName : (fun d : FieldContent => label ++ "_" ++ d.field.name ==
        label ++ "_" ++ c.field.name) = fun d => d.field.name == c.field.name := by
      funext d
      rw [Bool.eq_iff_iff]
      simp
    rw [row, Row.columns_ofList names, List.find?_map, Function.comp_def, sameName,
      bare.find? distinct hc]
    rfl
  rw [Row.get?, hfind, bare.fieldValue? distinct hc]
  rfl

end Instance

namespace Binding

variable {b : Binding} {r : Row}

/-- Fields whose columns can be read are set to what their columns show. -/
theorem exists_readFields {fields : List Field} {value : String → Value}
    (h : ∀ f ∈ fields, r.read (b.column f.name) (some f.kind) = .ok (value f.name)) (start : Node) :
    ∃ n, fields.foldlM (b.readField r) start = .ok n ∧
      ∀ name, name ∈ fields.map Field.name ∨ start.value? name = some (value name) →
        n.value? name = some (value name) := by
  induction fields generalizing start with
  | nil => exact ⟨start, rfl, fun name hname => hname.resolve_left List.not_mem_nil⟩
  | cons f fields ih =>
      obtain ⟨hf, hfields⟩ := List.forall_mem_cons.1 h
      obtain ⟨n, hn, shown⟩ := ih hfields (start.set f.name (value f.name))
      refine ⟨n, ?_, fun name hname => shown name ?_⟩
      · rw [List.foldlM_cons]
        exact bind_ok.2 ⟨_, readField_ok.2 ⟨_, hf, rfl⟩, hn⟩
      · by_cases hsame : f.name = name
        · subst hsame
          exact .inr (Node.value?_set_self ..)
        · rw [Node.value?_set_of_ne hsame]
          refine hname.imp_left fun hmem => ?_
          exact (List.mem_cons.1 hmem).resolve_left (Ne.symm hsame)

end Binding

namespace Node

variable {schema : Schema} {n : Node}

/-- Fields are read back from a node that shows their values. -/
theorem exists_readFields {cs : List FieldContent}
    (h : ∀ c ∈ cs, n.value? c.field.name = some c.value) :
    ∃ cs', n.readFields (cs.map FieldContent.field) = .ok cs' ∧
      List.Forall₂ FieldContent.Same cs cs' := by
  induction cs with
  | nil => exact ⟨[], rfl, .nil⟩
  | cons c cs ih =>
      obtain ⟨hc, hcs⟩ := List.forall_mem_cons.1 h
      obtain ⟨cs', hrest, same⟩ := ih hcs
      obtain ⟨y, hy, hsame⟩ := c.field.type.ofValue_toValue c.content
      have hget : n.get c.field.type c.field.name = .ok y := by
        rw [Node.get, hc, Option.getD_some, FieldContent.value, hy]
      exact ⟨⟨c.field, y⟩ :: cs', bind_ok.2 ⟨y, hget, bind_ok.2 ⟨cs', hrest, rfl⟩⟩,
        .cons ⟨y, rfl, hsame⟩ same⟩

/-- Relations without nodes are read as empty, whether or not their targets are known. -/
theorem readRelations_nil (rs : List Relation) : readRelations schema [] rs =
    .ok (rs.map fun r => (r.name, .empty r.cardinality)) := by
  induction rs with
  | nil => rfl
  | cons r rs ih =>
      have hread : readRelation schema [] r = .ok (.empty r.cardinality) := by
        unfold readRelation
        split
        · cases r.cardinality <;> rfl
        · cases r.cardinality <;> rfl
      exact bind_ok.2 ⟨_, hread, bind_ok.2 ⟨_, ih, rfl⟩⟩

/-- An instance without related entities is read back from a node that shows its fields. -/
theorem exists_read {E : Entity} {i : Instance} (bare : i.Bare E) (relations : n.relations = [])
    (shown : ∀ c ∈ i.fields, n.value? c.field.name = some c.value) :
    ∃ i', n.read schema E = .ok i' ∧ i.Same i' := by
  obtain ⟨own, values, attached⟩ := n
  obtain rfl : attached = [] := relations
  obtain ⟨cs', hfields, same⟩ := exists_readFields shown
  rw [bare.fields] at hfields
  refine ⟨.mk E cs' (E.relations.map fun r : Relation => (r.name, .empty r.cardinality)), ?_,
    bare.entity.symm, same, bare.relations.symm⟩
  exact bind_ok.2 ⟨cs', hfields, bind_ok.2 ⟨_, readRelations_nil E.relations, rfl⟩⟩

end Node

namespace Query

variable {q q' : Query} {calls : List Call} {root : Entity} {naming : Naming} {log : CallLog}
  {schema : Schema} {rows : List Row} {s : Statement} {r : Row} {i : Instance}

/-- Every query reads fields of its result, and all of them unless the rows are projected. -/
structure ReadsResult (q : Query) : Prop where
  fields : q.binding.fields ⊆ q.result.fields
  whole : q.plan.projection = none → q.binding.fields = q.result.fields

theorem ReadsResult.keep (h : q.ReadsResult) (result : q'.result = q.result)
    (root : q'.plan.root = q.plan.root) (projection : q'.plan.projection = q.plan.projection) :
    q'.ReadsResult := by
  have hfields : q'.binding.fields = q.binding.fields := by
    rw [binding, binding, projection]
    cases q.plan.projection with
    | none => exact congrArg Entity.fields root
    | some b => rfl
  refine ⟨?_, ?_⟩
  · rw [hfields, result]
    exact h.fields
  · rw [hfields, result, projection]
    exact h.whole

theorem readsResult_of_call {k : Call} (h : q.call k = .ok q') (hq : q.ReadsResult) :
    q'.ReadsResult := by
  have taken := (takes_of_call h).1
  have result := result_of_call h
  cases k with
  | select target x =>
      obtain ⟨b, projection, hfields⟩ := taken.exists_projection
      have result : q'.result = target := result
      refine ⟨?_, fun unprojected => ?_⟩
      · rw [binding, projection, result]
        exact hfields
      · rw [projection] at unprojected
        cases unprojected
  | filter x | join type related l r | orderBy x o | limit n | offset n =>
      refine hq.keep result taken.root (taken.projection_of_ne ?_)
      simp [Call.action, Plan.Action.clause]

theorem readsResult_of_calls (h : calls.foldlM call (.new root naming log) = .ok q) :
    q.ReadsResult := by
  refine foldlM_induction h ⟨List.Subset.refl _, fun _ => rfl⟩ ?_
  exact fun k _ _ _ old hcall => readsResult_of_call hcall old

/-- The instance that a row holds is read back from the row. -/
theorem readRow_of_holds (reads : q.ReadsResult) (whole : q.result.fields ⊆ q.binding.fields)
    (distinct : (q.result.fields.map Field.name).Nodup) (bare : i.Bare q.result)
    (holds : r.Holds q.binding.label i) : ∃ i', q.readRow schema r = .ok i' ∧ i.Same i' := by
  let value (name : String) : Value := (i.fieldValue? name).getD .null
  have columns : ∀ f ∈ q.binding.fields,
      r.read (q.binding.column f.name) (some f.kind) = .ok (value f.name) := by
    intro f hf
    have hresult : f ∈ i.fields.map FieldContent.field := bare.fields ▸ reads.fields hf
    obtain ⟨c, hc, rfl⟩ := List.mem_map.1 hresult
    have hvalue := bare.fieldValue? distinct hc
    have hcolumn : r.get? (q.binding.column c.field.name) = some c.value :=
      (holds c.field (bare.entity ▸ reads.fields hf)).trans hvalue
    have hcoerced : c.value.coerce? c.field.kind = some c.value :=
      c.field.type.coerce?_toValue c.content
    simp [Row.read, hcolumn, hcoerced, value, hvalue]
  obtain ⟨n, hn, shown⟩ := Binding.exists_readFields columns (.empty q.binding.entity)
  have hread : q.binding.readNode r = .ok n := hn
  have all : ∀ c ∈ i.fields, n.value? c.field.name = some c.value := by
    intro c hc
    have hresult : c.field ∈ q.result.fields := bare.fields ▸ List.mem_map_of_mem hc
    rw [shown _ (.inl (List.mem_map_of_mem (whole hresult)))]
    simp [value, bare.fieldValue? distinct hc]
  obtain ⟨i', hi', same⟩ : ∃ i', n.read schema q.result = .ok i' ∧ i.Same i' :=
    Node.exists_read bare (Binding.relations_of_readNode hread) all
  exact ⟨i', bind_ok.2 ⟨n, hread, hi'⟩, same⟩

/-- Row by row, the instances that rows hold are read back. -/
theorem exists_readRows (reads : q.ReadsResult) (whole : q.result.fields ⊆ q.binding.fields)
    (distinct : (q.result.fields.map Field.name).Nodup) {is : List Instance}
    (held : List.Forall₂ (fun i r => i.Bare q.result ∧ r.Holds q.binding.label i) is rows) :
    ∃ is', List.Forall₂ (fun r i => q.readRow schema r = .ok i) rows is' ∧
      List.Forall₂ Instance.Same is is' := by
  induction held with
  | nil => exact ⟨[], .nil, .nil⟩
  | cons first rest ih =>
      obtain ⟨is', hrest, same⟩ := ih
      obtain ⟨i', hfirst, hsame⟩ := readRow_of_holds reads whole distinct first.1 first.2
      exact ⟨i' :: is', .cons hfirst hrest, .cons hsame same⟩

theorem exists_ofShape_of_calls (h : calls.foldlM call (.new root naming log) = .ok q) :
    ∃ m, Materializer.ofShape q.plan.shape = .ok m := by
  have accepted : Build.plan ⟨root, calls, none⟩ naming log = .ok q.plan :=
    bind_ok.2 ⟨q, h, rfl⟩
  exact Build.exists_ofShape accepted

/-- Instances come back from the rows that hold them. Every name of a field's type tells the kind
that its column is coerced to, and a query that reads its results row by row gives back the
instances that its rows hold. The rows have a column for each field of the results: a query without
a projection sees to that, and a projection has to bind every field of its target. -/
theorem toList_of_holds (h : calls.foldlM call (.new root naming log) = .ok q)
    (flat : q.isFlat = true)
    (whole : ∀ b, q.plan.projection = some b → q.result.fields ⊆ b.fields)
    (distinct : (q.result.fields.map Field.name).Nodup) {db : Database}
    (compiles : q.compile = .ok s) (answers : db s = .ok rows) {is : List Instance}
    (held : List.Forall₂ (fun i r => i.Bare q.result ∧ r.Holds q.binding.label i) is rows) :
    (∀ f ∈ q.result.fields, ∀ name, f.type.Named name →
      TypeName.kind? name.toList = some f.kind) ∧
    ∃ is', q.toList schema db = .ok is' ∧ List.Forall₂ Instance.Same is is' := by
  refine ⟨fun f _ name named => FieldType.kind?_of_named named, ?_⟩
  have reads := readsResult_of_calls h
  have all : q.result.fields ⊆ q.binding.fields := by
    cases hprojection : q.plan.projection with
    | none => exact (reads.whole hprojection).symm ▸ List.Subset.refl _
    | some b =>
        rw [binding, hprojection]
        exact whole b hprojection
  obtain ⟨is', hreads, same⟩ := exists_readRows reads all distinct held
  refine ⟨is', toList_ok.2 ⟨s, rows, compiles, answers, ?_⟩, same⟩
  exact (resultsOf_ok_iff flat (groupingKeys_of_calls h) (shape_of_calls h compiles)).2
    ⟨exists_ofShape_of_calls h, hreads⟩

/-- What a station has measured, in types that each take a way of their own through a row. -/
def measurement : Entity :=
  { ref := "Measurement"
    typeName := "Measurement"
    table := "measurements"
    fields :=
      [ Demo.key "id" (.integer .u64), Demo.plain "level" .single, Demo.plain "cost" .decimal,
        Demo.optional "remark" .text, Demo.plain "details" .json ]
    relations := [⟨"alarms", ⟨"Alarm", "Alarm", "alarms"⟩, .many⟩] }

/-- The largest number, a level that no decimal fraction gives exactly, and nothing remarked. -/
def measured : Instance :=
  .mk measurement
    [ ⟨Demo.key "id" (.integer .u64), ⟨18446744073709551615, by decide⟩⟩,
      ⟨Demo.plain "level" .single, .ofRatio false 1 10⟩,
      ⟨Demo.plain "cost" .decimal, ⟨true, 1250, 2, by decide, by decide⟩⟩,
      ⟨Demo.optional "remark" .text, none⟩, ⟨Demo.plain "details" .json, .null⟩ ]
    [("alarms", .many [])]

/-- It is read back from its row. -/
theorem measured_readBack : ∃ q s is', [.limit 10].foldlM call (.new measurement {} []) = .ok q ∧
    q.compile = .ok s ∧ (measured.row "Extend0").Holds "Extend0" measured ∧
    q.toList ⟨[]⟩ (fun _ => .ok [measured.row "Extend0"]) = .ok is' ∧
    List.Forall₂ Instance.Same [measured] is' := by
  have bare : measured.Bare measurement := ⟨rfl, rfl, rfl⟩
  have distinct : (measurement.fields.map Field.name).Nodup := by decide
  have holds := bare.holds_row distinct "Extend0"
  have hq : [.limit 10].foldlM call (.new measurement {} []) =
      .ok ((Query.new measurement {} []).limit 10) := rfl
  have compiles := (compile_ok_iff (q := (Query.new measurement {} []).limit 10) rfl).2 ⟨rfl, rfl⟩
  let db : Database := fun _ => .ok [measured.row "Extend0"]
  obtain ⟨-, is', results, same⟩ :
      _ ∧ ∃ is', ((Query.new measurement {} []).limit 10).toList ⟨[]⟩ db = .ok is' ∧
        List.Forall₂ Instance.Same [measured] is' :=
    toList_of_holds hq rfl (fun _ h => by cases h) distinct compiles rfl
      (.cons ⟨bare, holds⟩ .nil)
  exact ⟨_, _, is', hq, compiles, holds, results, same⟩

end Query

end TypedQuery
