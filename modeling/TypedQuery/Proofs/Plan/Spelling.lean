import TypedQuery.Proofs.Plan.ReadBack

/-!
# Integers in other spellings

A driver may answer an integer as it is, or as its decimal digits in a number or a text. Where a
column is read as an integer all spellings become the same value before anything else looks at it,
be it a key, a field or a part of a group. The names that are read are apart, so no column is read
as an integer here and as something else there, and the results do not depend on the spelling.
-/

namespace TypedQuery

namespace Value

/-- The value is the integer, or has its decimal digits. -/
inductive StandsFor (i : Int64) : Value → Prop
  | int : StandsFor i (.int i)
  | decimal : StandsFor i (.decimal (Number.textOfInt i.toInt))
  | text : StandsFor i (.text (Number.textOfInt i.toInt))

/-- An integer is read from all its spellings. -/
theorem StandsFor.coerce?_int {i : Int64} {v : Value} (h : StandsFor i v) :
    v.coerce? .int = some (.int i) := by
  cases h with
  | int => exact coerce?_of_kind rfl
  | decimal =>
      have hword : (Value.decimal (Number.textOfInt i.toInt)).toInt? = some i := by
        rw [toInt?, wordOfDecimal?, Number.readWord?_textOfInt]
        rfl
      exact congrArg (Option.map Value.int) hword
  | text =>
      have hword : (Value.text (Number.textOfInt i.toInt)).toInt? = some i := by
        rw [toInt?, Number.trim_textOfInt, Number.readWord?_textOfInt]
      exact congrArg (Option.map Value.int) hword

end Value

/-- Names that are alike are read in one way. -/
theorem Apart.eq_of_alike_fst {reads : List (String × Option Kind)}
    (h : Apart (reads.map Prod.fst)) {c d : String × Option Kind} (hc : c ∈ reads) (hd : d ∈ reads)
    (alike : Text.alike c.1 d.1 = true) : c = d := by
  by_contra hne
  have symm : Std.Symm fun c d : String × Option Kind => Text.alike c.1 d.1 = false :=
    ⟨fun c d hcd => (Text.alike_comm d.1 c.1).trans hcd⟩
  have differ : Text.alike c.1 d.1 = false := (List.pairwise_map.1 h).forall hc hd hne
  simp [alike] at differ

namespace Row

variable {reads : List (String × Option Kind)} {r r' : Row} {columns columns' : List (String × Value)}

/-- Columns of one name with one value. What is read as an integer may have two spellings. -/
structure SameColumn (reads : List (String × Option Kind)) (a b : String × Value) : Prop where
  name : a.1 = b.1
  value : a.2 = b.2 ∨ ∃ (c : String) (i : Int64), (c, some .int) ∈ reads ∧
    Text.alike a.1 c = true ∧ a.2.StandsFor i ∧ b.2.StandsFor i

/-- The rows differ only in how columns spell integers that are read as such. -/
def Respelled (reads : List (String × Option Kind)) (r r' : Row) : Prop :=
  List.Forall₂ (SameColumn reads) r.columns r'.columns

/-- A column is found by its name in both rows or in neither. -/
theorem find?_of_sameColumn (h : List.Forall₂ (SameColumn reads) columns columns')
    (p : String → Bool) :
    (columns.find? (p ·.1) = none ∧ columns'.find? (p ·.1) = none) ∨
      ∃ a b, SameColumn reads a b ∧ p a.1 = true ∧ columns.find? (p ·.1) = some a ∧
        columns'.find? (p ·.1) = some b := by
  induction h with
  | nil => exact .inl ⟨rfl, rfl⟩
  | @cons a b columns columns' same rest ih =>
      cases hp : p a.1 with
      | true =>
          have hp' : p b.1 = true := same.name ▸ hp
          exact .inr ⟨a, b, same, hp, List.find?_cons_of_pos hp, List.find?_cons_of_pos hp'⟩
      | false =>
          have hp' : p b.1 = false := same.name ▸ hp
          rw [List.find?_cons_of_neg (by simp [hp]), List.find?_cons_of_neg (by simp [hp'])]
          exact ih

theorem get?_of_respelled (h : r.Respelled reads r') (name : String) :
    (r.get? name = none ∧ r'.get? name = none) ∨
      ∃ a b, SameColumn reads a b ∧ Text.alike a.1 name = true ∧ r.get? name = some a.2 ∧
        r'.get? name = some b.2 := by
  unfold get?
  rcases find?_of_sameColumn h (· == name) with ⟨hr, hr'⟩ | ⟨a, b, same, hname, ha, hb⟩
  · rw [hr, hr']
    rcases find?_of_sameColumn h (Text.alike · name) with ⟨hr, hr'⟩ | ⟨a, b, same, alike, ha, hb⟩
    · rw [hr, hr']
      exact .inl ⟨rfl, rfl⟩
    · rw [ha, hb]
      exact .inr ⟨a, b, same, alike, rfl, rfl⟩
  · rw [ha, hb]
    obtain rfl : a.1 = name := by simpa using hname
    exact .inr ⟨a, b, same, by simp [Text.alike], rfl, rfl⟩

/-- When the names are apart, all spellings of an integer are read alike. -/
theorem Respelled.readAlike (h : r.Respelled reads r')
    (apart : ∀ c ∈ reads, ∀ d ∈ reads, Text.alike c.1 d.1 = true → c = d) :
    r.ReadAlike reads r' := by
  intro c hc
  unfold read
  rcases get?_of_respelled h c.1 with ⟨hr, hr'⟩ | ⟨a, b, same, alike, hr, hr'⟩
  · rw [hr, hr']
  · rw [hr, hr']
    rcases same.value with heq | ⟨name, i, hread, halike, ha, hb⟩
    · rw [heq]
    · have hname : Text.alike c.1 name = true := by
        rw [Text.alike_iff] at alike halike ⊢
        rw [← alike, halike]
      obtain rfl : c = (name, some .int) := apart c hc _ hread hname
      dsimp only
      rw [ha.coerce?_int, hb.coerce?_int]

end Row

namespace Plan

variable {p : Plan}

/-- No two of the names that are read are alike, unless it is one column that is read twice. -/
theorem NamesApart.eq_of_alike_reads (names : p.NamesApart) (scope : p.Scoped)
    (fields : ∀ b ∈ p.bindings, b.entity.FieldsApart) :
    ∀ c ∈ p.shape.readsOfGroups, ∀ d ∈ p.shape.readsOfGroups, Text.alike c.1 d.1 = true → c = d := by
  have apart : Apart ((p.bindings.flatMap Binding.reads ++
      p.outputKeys.map fun k => (k.name, k.kind)).map Prod.fst) := by
    rw [List.map_append, List.map_flatMap, List.map_map,
      List.flatMap_congr fun b _ => b.map_fst_reads]
    exact names.apart scope fields
  -- a key is one of the fields, so it is read like the field
  have subset : p.shape.readsOfGroups ⊆ p.bindings.flatMap Binding.reads ++
      p.outputKeys.map fun k => (k.name, k.kind) := by
    intro c hc
    rcases List.mem_append.1 hc with hkey | hentity
    · exact List.mem_append_right _ hkey
    · obtain ⟨b, hb, hc⟩ := List.mem_flatMap.1 hentity
      refine List.mem_append_left _ (List.mem_flatMap.2 ⟨b, hb, ?_⟩)
      rcases List.mem_append.1 hc with hkey | hfield
      · obtain ⟨f, hf, rfl⟩ := Option.map_eq_some_iff.1 (Option.mem_toList.1 hkey)
        exact List.mem_map_of_mem (scope.whole b hb ▸ Entity.mem_of_keyField? hf)
      · exact hfield
  intro c hc d hd alike
  exact apart.eq_of_alike_fst (subset hc) (subset hd) alike

end Plan

namespace Build

variable {d : Build} {naming : Naming} {log : CallLog} {s : Statement}

/-- The results of a query without a projection do not depend on how integers are spelled in the
columns that are read as such: the same entities and groups come out, or the same failure. -/
theorem materialize_respelled (unselected : ∀ call ∈ d.calls, call.selects = false)
    (fields : ∀ E ∈ d.entities, E.FieldsApart) (compiled : d.compile naming log = .ok s) :
    ∃ m, Materializer.ofShape s.shape = .ok m ∧
      ∀ rows rows', List.Forall₂ (Row.Respelled s.shape.readsOfGroups) rows rows' →
        m.materialize rows = m.materialize rows' ∧
          m.materializeGroups rows = m.materializeGroups rows' := by
  obtain ⟨p, accepted, rfl⟩ := plan_of_compile compiled
  obtain ⟨scope, known⟩ := scoped_of_plan accepted
  have built : Plan.Built (fun _ => True) (.new d.root naming log) d.keys p :=
    built_of_plan (fun _ _ => trivial) accepted
  have apart := (built.namesApart (.new _ _ _)).eq_of_alike_reads scope
    fun b hb => fields _ (known b hb)
  have unprojected : p.projection = none := by
    rcases (projected_of_plan accepted).last with ⟨unprojected, -⟩ | ⟨b, fs, f, -, hfs, -⟩
    · exact unprojected
    · rw [fragmentsOf_select_of_plan unselected accepted] at hfs
      simp at hfs
  have hreads : p.shape.reads ⊆ p.shape.readsOfGroups := by
    rw [Shape.reads, show p.shape.projection = none from unprojected]
    exact List.subset_append_right _ _
  obtain ⟨m, hm⟩ := exists_ofShape accepted
  refine ⟨m, hm, fun rows rows' respelled => ?_⟩
  have alike : List.Forall₂ (Row.ReadAlike p.shape.readsOfGroups) rows rows' :=
    respelled.imp fun _ _ h => h.readAlike apart
  exact ⟨Materializer.materialize_of_readAlike hm (alike.imp fun _ _ h => h.mono hreads),
    Materializer.materializeGroups_of_readAlike hm alike⟩

/-- Customers with their orders, grouped by the number of the customer. -/
def ordersOfBuyers : Build :=
  ⟨Demo.customer,
    [.join .left Demo.order (.field Demo.customer "id") (.field Demo.order "customer_id")],
    some ⟨[("buyer", .field Demo.customer "id")],
      [.aggregate "bought" (.call (.aggregate .count) [.field Demo.order "id"])]⟩⟩

theorem eq_of_mem_ordersOfBuyers {E : Entity} (hE : E ∈ ordersOfBuyers.entities) :
    E = Demo.order ∨ E = Demo.customer := by
  simp [entities, ordersOfBuyers, Query.Call.entities, GroupedQuery.Call.entities] at hE
  tauto

/-- A row of the first customer with one of two orders, whose integers are spelled in one way. -/
def buyerRow (spell : Int64 → Value) (order : Int64) : Row :=
  ⟨[("Extend0_id", spell 1), ("Extend0_name", .text "Ada"), ("Extend0_email", .null),
    ("Extend1_id", spell order), ("Extend1_customer_id", spell 1), ("Extend1_status", .text "paid"),
    ("Extend1_placed_on", .date Demo.firstDay), ("Extend1_total", .null), ("buyer", spell 1),
    ("bought", spell 2)]⟩

theorem respelled_buyerRow {reads : List (String × Option Kind)} {spell : Int64 → Value}
    (spells : ∀ i, (spell i).StandsFor i) (order : Int64)
    (integers : [("Extend0_id", some Kind.int), ("Extend1_id", some .int),
      ("Extend1_customer_id", some .int), ("buyer", some .int), ("bought", some .int)] ⊆ reads) :
    (buyerRow .int order).Respelled reads (buyerRow spell order) := by
  have same (a : String × Value) : Row.SameColumn reads a a := ⟨rfl, .inl rfl⟩
  have spelled (name : String) (i : Int64) (hread : (name, some .int) ∈ reads) :
      Row.SameColumn reads (name, .int i) (name, spell i) :=
    ⟨rfl, .inr ⟨name, i, hread, by simp [Text.alike], .int, spells i⟩⟩
  refine .cons (spelled _ 1 (integers ?_)) (.cons (same _) (.cons (same _)
    (.cons (spelled _ order (integers ?_)) (.cons (spelled _ 1 (integers ?_)) (.cons (same _)
      (.cons (same _) (.cons (same _) (.cons (spelled _ 1 (integers ?_))
        (.cons (spelled _ 2 (integers ?_)) .nil)))))))))
  all_goals simp

/-- Both orders are in the group of their customer, also where one row has all its integers as texts
and the other one as decimals. -/
theorem ordersOfBuyers_respelled :
    ∃ s m, ordersOfBuyers.compile {} [] = .ok s ∧
      (∀ call ∈ ordersOfBuyers.calls, call.selects = false) ∧
      (∀ E ∈ ordersOfBuyers.entities, E.FieldsApart) ∧ Materializer.ofShape s.shape = .ok m ∧
      (m.materializeGroups [buyerRow .int 10, buyerRow .int 11]).isOk = true ∧
      m.materializeGroups [buyerRow .int 10, buyerRow .int 11] =
        m.materializeGroups [buyerRow (fun i => .text (Number.textOfInt i.toInt)) 10,
          buyerRow (fun i => .decimal (Number.textOfInt i.toInt)) 11] := by
  have found : (ordersOfBuyers.compile {} []).toOption.map (fun s => s.shape.readsOfGroups) =
      some [("buyer", some .int), ("bought", some .int), ("Extend0_id", some .int),
        ("Extend0_id", some .int), ("Extend0_name", some .text), ("Extend0_email", some .text),
        ("Extend1_id", some .int), ("Extend1_id", some .int), ("Extend1_customer_id", some .int),
        ("Extend1_status", some .text), ("Extend1_placed_on", some .date),
        ("Extend1_total", some .float)] := by
    decide +kernel
  have grouped : (ordersOfBuyers.compile {} []).toOption.map (fun s =>
      (Materializer.ofShape s.shape).toOption.map fun m =>
        (m.materializeGroups [buyerRow .int 10, buyerRow .int 11]).isOk) = some (some true) := by
    decide +kernel
  obtain ⟨s, compiled, hreads⟩ := Option.map_eq_some_iff.1 found
  rw [compiled] at grouped
  have compiled := Outcome.eq_ok_of_toOption compiled
  have unselected : ∀ call ∈ ordersOfBuyers.calls, call.selects = false := by
    simp [ordersOfBuyers, Query.Call.selects]
  have fields : ∀ E ∈ ordersOfBuyers.entities, E.FieldsApart :=
    fun E hE => fieldsApart_of_demo (eq_of_mem_ordersOfBuyers hE)
  obtain ⟨m, shape, same⟩ := materialize_respelled unselected fields compiled
  refine ⟨s, m, compiled, unselected, fields, shape, ?_, (same _ _ ?_).2⟩
  · rw [Option.map_some, shape] at grouped
    exact Option.some.inj (Option.some.inj grouped)
  · rw [hreads]
    exact .cons (respelled_buyerRow (fun _ => .text) 10 (by simp))
      (.cons (respelled_buyerRow (fun _ => .decimal) 11 (by simp)) .nil)

end Build

end TypedQuery
