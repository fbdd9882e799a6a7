import TypedQuery.Proofs.Materialize.Origins

/-!
# The rows behind the edges of a result

A related entity was read from a row that also comes to its parent. So the row has the key of the
child. It has the key of the parent as well where the parent is a root or one of many, and below
the one entity of a relation as long as the rows agree on it. Rows that do not agree still come to
the first of them, and their entities hang there below a parent that they do not name.
-/

namespace TypedQuery

/-- One key, or one that counts as the same. -/
def Value.SharesKey (k l : Value) : Prop := k = l ∨ k.sameKey l = true

theorem Node.value?_set_of_ne {field other : String} (h : field ≠ other) (n : Node) (v : Value) :
    (n.set field v).value? other = n.value? other := by
  have hother : (other == field) = false := by simp [Ne.symm h]
  simp [Node.value?, Node.set, Node.values, List.lookup_cons, hother]

namespace Binding

open Outcome

variable {b : Binding} {r : Row} {n : Node}

/-- A field that is not among those read keeps its value. -/
theorem value?_of_readFields {fields : List Field} {name : String} {start : Node}
    (h : fields.foldlM (b.readField r) start = .ok n) (other : name ∉ fields.map Field.name) :
    n.value? name = start.value? name := by
  refine foldlM_induction (motive := fun n : Node => n.value? name = start.value? name) h rfl ?_
  intro f hf n n' hn hread
  obtain ⟨v, -, rfl⟩ := readField_ok.1 hread
  rw [Node.value?_set_of_ne _ n v, hn]
  rintro rfl
  exact other (List.mem_map_of_mem hf)

/-- Of fields with different names each shows the value of its column. -/
theorem exists_value?_of_readFields {fields : List Field} {start : Node}
    (h : fields.foldlM (b.readField r) start = .ok n) (distinct : (fields.map Field.name).Nodup)
    {f : Field} (hf : f ∈ fields) :
    ∃ v, r.read (b.column f.name) (some f.kind) = .ok v ∧ n.value? f.name = some v := by
  induction fields generalizing start with
  | nil => cases hf
  | cons f' fields ih =>
      rw [List.foldlM_cons, bind_ok] at h
      obtain ⟨next, hread, hrest⟩ := h
      obtain ⟨hother, hdistinct⟩ := List.nodup_cons.1 distinct
      rcases List.mem_cons.1 hf with rfl | hf
      · obtain ⟨v, hv, rfl⟩ := readField_ok.1 hread
        exact ⟨v, hv, (value?_of_readFields hrest hother).trans (Node.value?_set_self ..)⟩
      · exact ih hrest hdistinct hf

end Binding

namespace Materializer

open Outcome

variable {m : Materializer} {rows : List Row} {nodes : List Node} {g : Graph} {o : Nat → Origin}
variable {r : Row} {n : Node} {place : Nat} {key : Value}

/-- The node was read from the row, which has the key at the place. The key field shows the key,
if it is one of the selected fields and these have different names. -/
structure ReadFrom (m : Materializer) (place : Nat) (r : Row) (key : Value) (n : Node) : Prop where
  hasKey : m.HasKey place r key
  read : ∃ bare, (m.binding place).readNode r = .ok bare ∧ n.entity = bare.entity ∧
    n.values = bare.values
  shown : ∀ f, (m.binding place).entity.keyField? m.shape.defaultKeyField = some f →
    f ∈ (m.binding place).fields → ((m.binding place).fields.map Field.name).Nodup →
    n.value? f.name = some key

theorem ReadFrom.mk_of_read {bare : Node} (hasKey : m.HasKey place r key)
    (read : (m.binding place).readNode r = .ok bare) (entity : n.entity = bare.entity)
    (values : n.values = bare.values) : m.ReadFrom place r key n := by
  refine ⟨hasKey, ⟨bare, read, entity, values⟩, fun f hkey hf distinct => ?_⟩
  obtain ⟨v, hv, hshown⟩ := Binding.exists_value?_of_readFields read distinct hf
  have hv' : (m.binding place).readKey m.shape.defaultKeyField r = .ok v := by
    rw [Binding.readKey, Binding.keyColumn, hkey]
    exact hv
  obtain rfl : v = key := Except.ok.inj (hv'.symm.trans hasKey.1)
  rw [Node.value?, values]
  exact hshown

variable (m rows) in
/-- Rows that come to one entity at the place have one key there. -/
def Agree (place : Nat) : Prop :=
  ∀ a ∈ rows, ∀ b ∈ rows, m.SameEntity place a b →
    ∀ k l, m.HasKey place a k → m.HasKey place b l → k.SharesKey l

/-- Where a parent has many of the entities, or none, all rows agree. -/
theorem agree_of_not_isOne (many : m.isOne place = false) : m.Agree rows place := by
  intro a _ b _ same k l hk hl
  obtain ⟨l', hl', hsame⟩ := same.hasKey hk
  obtain rfl := hl'.unique hl
  rcases hsame with rfl | one | hsame
  · exact .inl (hk.unique hl)
  · rw [many] at one
    cases one
  · exact .inr hsame

namespace Origins

/-- A built slot was read from the row of its origin. -/
theorem readFrom (h : m.Origins g o rows) {s : Nat} (built : g.build s = some n) :
    (o s).row ∈ rows ∧ ∃ key, m.ReadFrom (o s).place (o s).row key n := by
  obtain ⟨slot, hslot, hentity, hvalues⟩ := Graph.keeps_of_build built
  obtain ⟨hrow, key, hasKey⟩ := h.ofRow s (Graph.lt_next_of_slot hslot)
  exact ⟨hrow, key, .mk_of_read hasKey (h.read s slot hslot) hentity hvalues⟩

/-- What hangs below a built slot is the entity of a join from it. -/
theorem hangs (h : m.Origins g o rows) {s : Nat} (built : g.build s = some n) {relation : String}
    {c : Node} (hc : c ∈ n.related relation) :
    ∃ i index p, g.build i = some c ∧ m.Hangs (o s) (o i) relation index p := by
  obtain ⟨slot, hslot, hbare | ⟨i, hi, hbuild⟩⟩ := Graph.mem_related_of_build built hc
  · rw [Node.related, Binding.relations_of_readNode (h.read s slot hslot)] at hbare
    cases hbare
  · obtain ⟨-, index, p, hangs⟩ := h.child s slot hslot _ hi
    exact ⟨i, index, p, hbuild, hangs⟩

/-- All that occurs in the result was built from a slot. -/
theorem built_of_occurs (h : m.Origins g o rows) (occurs : Node.Occurs g.nodes n) :
    ∃ s, g.build s = some n := by
  induction occurs with
  | root hn =>
      obtain ⟨s, -, hs⟩ := List.mem_filterMap.1 hn
      exact ⟨s, hs⟩
  | related _ child ih =>
      obtain ⟨s, hs⟩ := ih
      obtain ⟨i, _, _, hi, -⟩ := h.hangs hs child
      exact ⟨i, hi⟩

end Origins

/-- Rows that are read one by one have no related entities. -/
theorem related_of_mapM {b : Binding} (run : rows.mapM b.readNode = .ok nodes)
    (occurs : Node.Occurs nodes n) (relation : String) : n.related relation = [] := by
  have bare : ∀ n ∈ nodes, ∀ relation, n.related relation = [] := by
    intro n hn relation
    obtain ⟨r, -, hr⟩ := mem_of_mapM run n hn
    rw [Node.related, Binding.relations_of_readNode hr]
    rfl
  induction occurs generalizing relation with
  | root hn => exact bare _ hn relation
  | related _ child ih =>
      rw [ih] at child
      cases child

/-- Every related entity of a result was read from a row that comes to its parent. The row has the
key of the child, and it has that of the parent unless the parent is the one entity of a relation
on which the rows do not agree. -/
theorem edge_of_materialize (m : Materializer) (rows : List Row) (nodes : List Node)
    (run : m.materialize rows = .ok nodes) (parent child : Node) (relation : String)
    (occurs : Node.Occurs nodes parent) (edge : child ∈ parent.related relation) :
    ∃ index p first key r childKey parentKey, m.joins[index]? = some p ∧
      relation = m.relationAt (index + 1) ∧ first ∈ rows ∧ m.ReadFrom p.parent first key parent ∧
      r ∈ rows ∧ m.ReadFrom (index + 1) r childKey child ∧ m.SameEntity p.parent first r ∧
      m.HasKey p.parent r parentKey ∧
      (m.isOne p.parent = false ∨ m.Agree rows p.parent → key.SharesKey parentKey) := by
  by_cases builds : m.buildsGraphs = true
  swap
  · rw [materialize, if_neg builds] at run
    rw [related_of_mapM run occurs] at edge
    cases edge
  obtain ⟨-, g, hall, rfl⟩ := (materialize_ok_iff builds).1 run
  obtain ⟨o, origins⟩ := Origins.absorbAll hall
  obtain ⟨s, hs⟩ := origins.built_of_occurs occurs
  obtain ⟨i, index, p, hi, hangs⟩ := origins.hangs hs edge
  obtain ⟨hfirst, key, parentRead⟩ := origins.readFrom hs
  obtain ⟨hr, childKey, childRead⟩ := origins.readFrom hi
  rw [hangs.parentPlace] at parentRead
  rw [hangs.childPlace] at childRead
  obtain ⟨parentKey, hasKey, -⟩ := hangs.met.hasKey parentRead.hasKey
  refine ⟨index, p, (o s).row, key, (o i).row, childKey, parentKey, hangs.join, hangs.name, hfirst,
    parentRead, hr, childRead, hangs.met, hasKey, fun agree => ?_⟩
  have agree : m.Agree rows p.parent := agree.elim agree_of_not_isOne id
  exact agree _ hfirst _ hr hangs.met key parentKey parentRead.hasKey hasKey

def address : Entity :=
  { ref := "Address"
    typeName := "Address"
    table := "addresses"
    fields := [Demo.key "id" (.integer .i64)]
    relations := [] }

def customerWithAddresses : Entity :=
  { Demo.customer with relations := [⟨"addresses", address.toEntityName, .many⟩] }

def orderOfCustomer : Entity :=
  { Demo.order with relations := [⟨"customer", customerWithAddresses.toEntityName, .one⟩] }

/-- Orders with their customers and the addresses of these, of which only the keys are read. -/
def deliveries : Materializer :=
  let key := Demo.key "id" (.integer .i64)
  let customers : Join :=
    ⟨.inner, orderOfCustomer, ⟨customerWithAddresses, "Extend1", [key]⟩, []⟩
  let addresses : Join := ⟨.inner, customerWithAddresses, ⟨address, "Extend2", [key]⟩, []⟩
  { shape :=
      { root := ⟨orderOfCustomer, "Extend0", [key]⟩
        projection := none
        joins := [customers, addresses]
        groupingKeys := []
        aggregationKeys := []
        defaultKeyField := "id" }
    joins :=
      [⟨customers, 0, orderOfCustomer.relations.head?⟩,
        ⟨addresses, 1, customerWithAddresses.relations.head?⟩] }

def deliveryRow (order customer address : Int64) : Row :=
  ⟨[("Extend0_id", .int order), ("Extend1_id", .int customer), ("Extend2_id", .int address)]⟩

def addressNode (id : Int64) : Node := .mk address [("id", .int id)] []

def customerNode (id : Int64) (addresses : List Node) : Node :=
  .mk customerWithAddresses [("id", .int id)] [("addresses", addresses)]

def deliveryNode (id : Int64) (customer : Node) : Node :=
  .mk orderOfCustomer [("id", .int id)] [("customer", [customer])]

theorem occurs_customerNode (id : Int64) (customer : Node) :
    Node.Occurs [deliveryNode id customer] customer := by
  have child : customer ∈ (deliveryNode id customer).related "customer" := List.mem_cons_self
  exact .related (.root List.mem_cons_self) child

/-- One order whose customer has two addresses. -/
def agreeingRows : List Row := [deliveryRow 1 10 100, deliveryRow 1 10 101]

theorem deliveries_edge :
    ∃ nodes parent child, ofShape deliveries.shape = .ok deliveries ∧
      deliveries.materialize agreeingRows = .ok nodes ∧ Node.Occurs nodes parent ∧
      child ∈ parent.related "addresses" ∧ deliveries.Agree agreeingRows 1 ∧
      ∃ index p first key r childKey parentKey, deliveries.joins[index]? = some p ∧
        "addresses" = deliveries.relationAt (index + 1) ∧
        deliveries.ReadFrom p.parent first key parent ∧ r ∈ agreeingRows ∧
        deliveries.ReadFrom (index + 1) r childKey child ∧
        deliveries.HasKey p.parent r parentKey ∧
        (deliveries.Agree agreeingRows p.parent → key.SharesKey parentKey) := by
  let customer := customerNode 10 [addressNode 100, addressNode 101]
  have run : deliveries.materialize agreeingRows = .ok [deliveryNode 1 customer] := by
    with_unfolding_all rfl
  have occurs := occurs_customerNode 1 customer
  have edge : addressNode 101 ∈ customer.related "addresses" :=
    List.mem_cons_of_mem _ List.mem_cons_self
  have key10 : ∀ r ∈ agreeingRows, deliveries.keyAt 1 r = .int 10 := by
    simp only [agreeingRows, List.forall_mem_cons]
    exact ⟨rfl, rfl, by simp⟩
  have agree : deliveries.Agree agreeingRows 1 := by
    intro a ha b hb _ k l hk hl
    exact .inl (hk.keyAt.symm.trans ((key10 a ha).trans ((key10 b hb).symm.trans hl.keyAt)))
  obtain ⟨index, p, first, key, r, childKey, parentKey, hp, hrelation, -, parentRead, hr,
    childRead, -, hasKey, shares⟩ := edge_of_materialize deliveries agreeingRows _ run customer
      (addressNode 101) "addresses" occurs edge
  exact ⟨_, customer, addressNode 101, rfl, run, occurs, edge, agree, index, p, first, key, r,
    childKey, parentKey, hp, hrelation, parentRead, hr, childRead, hasKey,
    fun agree => shares (.inr agree)⟩

/-- One order in two rows that name different customers, with an address each. -/
def disagreeingRows : List Row := [deliveryRow 1 10 100, deliveryRow 1 20 200]

/-- The address of the second row hangs below the customer of the first one. -/
theorem deliveries_edge_unmet :
    ∃ nodes parent child, ofShape deliveries.shape = .ok deliveries ∧
      deliveries.materialize disagreeingRows = .ok nodes ∧ Node.Occurs nodes parent ∧
      child ∈ parent.related "addresses" ∧ parent.entity = customerWithAddresses ∧
      parent.value? "id" = some (.int 10) ∧ child.value? "id" = some (.int 200) ∧
      ∀ r ∈ disagreeingRows, ∀ k l, deliveries.HasKey 1 r k → deliveries.HasKey 2 r l →
        ¬(k.SharesKey (.int 10) ∧ l.SharesKey (.int 200)) := by
  let customer := customerNode 10 [addressNode 100, addressNode 200]
  have run : deliveries.materialize disagreeingRows = .ok [deliveryNode 1 customer] := by
    with_unfolding_all rfl
  refine ⟨_, customer, addressNode 200, rfl, run, occurs_customerNode 1 customer,
    List.mem_cons_of_mem _ List.mem_cons_self, rfl, rfl, rfl, ?_⟩
  have apart : ∀ r ∈ disagreeingRows, ((deliveries.keyAt 1 r).sameKey (.int 10) &&
      (deliveries.keyAt 2 r).sameKey (.int 200)) = false := by
    simp only [disagreeingRows, List.forall_mem_cons]
    exact ⟨by decide, by decide, by simp⟩
  have shares {k : Value} {n : Int64} (itself : (Value.int n).sameKey (.int n) = true)
      (h : k.SharesKey (.int n)) : k.sameKey (.int n) = true :=
    h.elim (fun h => h ▸ itself) id
  rintro r hr k l hk hl ⟨hsame, hsame'⟩
  have both := apart r hr
  rw [hk.keyAt, hl.keyAt, shares (by decide) hsame, shares (by decide) hsame'] at both
  cases both

end Materializer

end TypedQuery
