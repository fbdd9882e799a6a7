import TypedQuery.Declaration.Basic
import TypedQuery.Proofs.Outcome

/-!
# Accepted declarations

A declaration is accepted when its checks pass one after the other. Then its table and its columns
have names that are identifiers, no two columns have one name, and at most one of them is the key.
Every field has become a column or a relation, as it was marked, in the order of the fields. The
names of relations are not checked, because no statement shows them.
-/

namespace TypedQuery

/-- The entity has the table, the fields and the relations that were declared. -/
structure DeclaredEntity.Describes (e : DeclaredEntity) (E : Entity) : Prop where
  typeName : E.typeName = e.typeName
  table : E.table = e.table
  fields : List.Forall₂ (fun c f => f.name = c.name ∧ f.column = c.column ∧ f.kind = c.kind ∧
    f.nullable = c.nullable ∧ f.primaryKey = c.primaryKey) e.columns E.fields
  relations : List.Forall₂ (fun r s => s.name = r.name ∧ s.cardinality = r.cardinality)
    e.relations E.relations

instance (e : DeclaredEntity) (E : Entity) : Decidable (e.Describes E) :=
  decidable_of_iff (E.typeName = e.typeName ∧ E.table = e.table ∧
      List.Forall₂ (fun c f => f.name = c.name ∧ f.column = c.column ∧ f.kind = c.kind ∧
        f.nullable = c.nullable ∧ f.primaryKey = c.primaryKey) e.columns E.fields ∧
      List.Forall₂ (fun r s => s.name = r.name ∧ s.cardinality = r.cardinality)
        e.relations E.relations)
    ⟨fun ⟨typeName, table, fields, relations⟩ => ⟨typeName, table, fields, relations⟩,
      fun h => ⟨h.typeName, h.table, h.fields, h.relations⟩⟩

/-- The declaration is accepted and is one of the entity. -/
def Declaration.Declares (d : Declaration) (E : Entity) : Prop :=
  ∃ e ∈ d.check.toOption, e.Describes E

instance (d : Declaration) (E : Entity) : Decidable (d.Declares E) :=
  inferInstanceAs (Decidable (∃ e ∈ d.check.toOption, e.Describes E))

/-- The entity has a declaration that is accepted. -/
def Entity.Declared (E : Entity) : Prop := ∃ d : Declaration, d.Declares E

/-- The names of a column are identifiers. -/
structure DeclaredColumn.Named (c : DeclaredColumn) : Prop where
  name : Identifier.check c.name = .ok ()
  column : Identifier.check c.column = .ok ()

/-- The wrapper of the type of a relation. -/
def Cardinality.wrapper : Cardinality → String
  | .one => "Option"
  | .many => "Vec"

/-- The type is a path that ends in the word, with one type as its only argument. -/
def TypeText.Wraps (type word target : String) : Prop :=
  ∃ arg, pathEnd? (Token.ofText type) = some ⟨word, some [arg]⟩ ∧ isType arg = true ∧
    target = Token.squeezed arg

/-- The column is that of the field: it has the name of the field, the column that attributes give
or else the same name, and the kind of the type. A key is required. -/
structure FieldDeclaration.IsColumn (f : FieldDeclaration) (c : DeclaredColumn) : Prop where
  name : c.name = f.fieldName
  column : ∃ given, Declaration.givenName "column" f.columns = .ok given ∧
    c.column = given.getD f.fieldName
  type : c.type = Token.squeezed (Token.ofText f.type)
  kind : TypeName.kind? c.type.toList = some c.kind
  nullable : c.nullable = TypeName.isOptional c.type.toList
  primaryKey : c.primaryKey = f.primaryKey
  required : c.primaryKey = true → c.nullable = false

/-- The relation is that of the field, which is a list of the related entities or an optional one
and is no key. -/
structure FieldDeclaration.IsRelation (f : FieldDeclaration) (r : DeclaredRelation) : Prop where
  name : r.name = f.fieldName
  type : TypeText.Wraps f.type r.cardinality.wrapper r.target
  noKey : f.primaryKey = false

theorem TypeText.wraps_of_relation? {type target : String} {cardinality : Cardinality}
    (h : relation? type = some (target, cardinality)) : Wraps type cardinality.wrapper target := by
  obtain ⟨⟨word, arguments⟩, hend, h⟩ := Option.bind_eq_some_iff.1 h
  extract_lets argument at h
  have single {c : Cardinality} (hargs : argument c = some (target, cardinality)) :
      ∃ arg, arguments = some [arg] ∧ isType arg = true ∧ target = Token.squeezed arg ∧
        cardinality = c := by
    obtain ⟨args, hargs', hone⟩ := Option.bind_eq_some_iff.1 hargs
    split at hone
    · rename_i arg
      split at hone
      · rename_i whole
        obtain ⟨rfl, rfl⟩ := Prod.mk.inj (Option.some.inj hone)
        exact ⟨arg, hargs', whole, rfl, rfl⟩
      · cases hone
    · cases hone
  dsimp only at h
  split at h
  · obtain ⟨arg, rfl, whole, htarget, rfl⟩ := single h
    exact ⟨arg, hend, whole, htarget⟩
  · obtain ⟨arg, rfl, whole, htarget, rfl⟩ := single h
    exact ⟨arg, hend, whole, htarget⟩
  · cases h

theorem Declaration.check_of_checkFieldName {name : String}
    (h : Declaration.checkFieldName name = .ok ()) : Identifier.check name = .ok () := by
  unfold Declaration.checkFieldName at h
  split at h
  · assumption
  · cases h

namespace FieldDeclaration

variable {f : FieldDeclaration}

theorem checkColumnName_ok {column : String} (h : f.checkColumnName = .ok column) :
    ∃ given, Declaration.givenName "column" f.columns = .ok given ∧
      column = given.getD f.fieldName ∧
      ∀ name ∈ given, Identifier.check name = .ok () := by
  obtain ⟨given, hgiven, h⟩ := Outcome.bind_ok.1 h
  refine ⟨given, hgiven, ?_⟩
  cases given with
  | none =>
      obtain rfl := Except.ok.inj h
      exact ⟨rfl, fun _ hname => by cases hname⟩
  | some given =>
      obtain ⟨_, hcheck, h⟩ := Outcome.bind_ok.1 h
      obtain rfl := Except.ok.inj h
      refine ⟨rfl, fun name hname => ?_⟩
      obtain rfl := Option.some.inj hname
      exact Declaration.check_of_checkFieldName hcheck

/-- What a column has to be for its field to be accepted after the columns before it. -/
theorem checkColumn_ok {earlier : List DeclaredColumn} {c : DeclaredColumn}
    (h : f.checkColumn earlier = .ok c) :
    c.Named ∧ f.IsColumn c ∧ (c.primaryKey = true → ∀ c' ∈ earlier, c'.primaryKey = false) := by
  obtain ⟨_, hname, h⟩ := Outcome.bind_ok.1 h
  obtain ⟨column, hcolumn, h⟩ := Outcome.bind_ok.1 h
  have name := Declaration.check_of_checkFieldName hname
  obtain ⟨given, hgiven, rfl, checked⟩ := checkColumnName_ok hcolumn
  dsimp only at h
  obtain ⟨type, htype⟩ : ∃ type, type = Token.squeezed (Token.ofText f.type) := ⟨_, rfl⟩
  rw [← htype] at h
  split at h
  · cases h
  rename_i required
  split at h
  · cases h
  rename_i first
  split at h
  · rename_i kind hkind
    obtain rfl := Except.ok.inj h
    have checkedColumn : Identifier.check (given.getD f.fieldName) = .ok () := by
      cases given with
      | none => exact name
      | some given => exact checked given rfl
    refine ⟨⟨name, checkedColumn⟩, ⟨rfl, ⟨given, hgiven, rfl⟩, htype, hkind, rfl, rfl, ?_⟩, ?_⟩
    · simpa using required
    · simpa using first
  · cases h

theorem checkRelation_ok {r : DeclaredRelation} (h : f.checkRelation = .ok r) : f.IsRelation r := by
  unfold checkRelation at h
  split at h
  · cases h
  rename_i noKey
  split at h
  · rename_i target cardinality htype
    obtain rfl := Except.ok.inj h
    exact ⟨rfl, TypeText.wraps_of_relation? htype, by simpa using noKey⟩
  · cases h

end FieldDeclaration

namespace Declaration

/-- Every field is a column behind those before it, or a relation, in the order of the fields. -/
theorem checkFields_ok {earlier columns : List DeclaredColumn} {relations : List DeclaredRelation}
    {fs : List FieldDeclaration} (h : checkFields earlier fs = .ok (columns, relations)) :
    ∃ added, columns = earlier ++ added ∧ (∀ c ∈ added, c.Named) ∧
      List.Forall₂ FieldDeclaration.IsColumn (fs.filter (!·.relation)) added ∧
      List.Forall₂ FieldDeclaration.IsRelation (fs.filter (·.relation)) relations := by
  induction fs generalizing earlier relations with
  | nil =>
      obtain ⟨rfl, rfl⟩ := Prod.mk.inj (Except.ok.inj h)
      exact ⟨[], (List.append_nil _).symm, by simp, .nil, .nil⟩
  | cons f fs ih =>
      unfold checkFields at h
      split at h
      · rename_i flagged
        obtain ⟨r, hr, h⟩ := Outcome.bind_ok.1 h
        obtain ⟨⟨others, rest⟩, hrest, h⟩ := Outcome.bind_ok.1 h
        obtain ⟨rfl, rfl⟩ := Prod.mk.inj (Except.ok.inj h)
        obtain ⟨added, hadded, named, columns, relations⟩ := ih hrest
        refine ⟨added, hadded, named, ?_, ?_⟩
        · rwa [List.filter_cons_of_neg (by simpa using flagged)]
        · rw [List.filter_cons_of_pos flagged]
          exact .cons (FieldDeclaration.checkRelation_ok hr) relations
      · rename_i flagged
        obtain ⟨c, hc, h⟩ := Outcome.bind_ok.1 h
        obtain ⟨hnamed, hcolumn, -⟩ := FieldDeclaration.checkColumn_ok hc
        obtain ⟨added, rfl, named, columns, relations⟩ := ih h
        refine ⟨c :: added, List.append_assoc _ [c] added, List.forall_mem_cons.2 ⟨hnamed, named⟩,
          ?_, ?_⟩
        · rw [List.filter_cons_of_pos (by simpa using flagged)]
          exact .cons hcolumn columns
        · rwa [List.filter_cons_of_neg flagged]

/-- No key is accepted after another. -/
theorem oneKey_of_checkFields {earlier columns : List DeclaredColumn}
    {relations : List DeclaredRelation} {fs : List FieldDeclaration}
    (h : checkFields earlier fs = .ok (columns, relations))
    (one : earlier.countP (·.primaryKey) ≤ 1) : columns.countP (·.primaryKey) ≤ 1 := by
  induction fs generalizing earlier relations with
  | nil =>
      obtain ⟨rfl, -⟩ := Prod.mk.inj (Except.ok.inj h)
      exact one
  | cons f fs ih =>
      unfold checkFields at h
      split at h
      · obtain ⟨r, -, h⟩ := Outcome.bind_ok.1 h
        obtain ⟨⟨others, rest⟩, hrest, h⟩ := Outcome.bind_ok.1 h
        obtain ⟨rfl, -⟩ := Prod.mk.inj (Except.ok.inj h)
        exact ih hrest one
      · obtain ⟨c, hc, h⟩ := Outcome.bind_ok.1 h
        obtain ⟨-, -, first⟩ := FieldDeclaration.checkColumn_ok hc
        refine ih h ?_
        rw [List.countP_append, List.countP_singleton]
        split
        · rename_i key
          have none : earlier.countP (·.primaryKey) = 0 :=
            List.countP_eq_zero.2 fun c' hc' => by simp [first key c' hc']
          omega
        · exact one

theorem nodup_of_repeatedColumn? {seen : List String} {columns : List DeclaredColumn}
    (h : repeatedColumn? seen columns = none) :
    (columns.map (·.column)).Nodup ∧ ∀ c ∈ columns, c.column ∉ seen := by
  induction columns generalizing seen with
  | nil => exact ⟨List.nodup_nil, by simp⟩
  | cons c columns ih =>
      rw [repeatedColumn?] at h
      split at h
      · cases h
      rename_i fresh
      obtain ⟨nodup, others⟩ := ih h
      refine ⟨List.nodup_cons.2 ⟨?_, nodup⟩, List.forall_mem_cons.2 ⟨by simpa using fresh, ?_⟩⟩
      · intro hmem
        obtain ⟨c', hc', heq⟩ := List.mem_map.1 hmem
        exact others c' hc' (heq ▸ List.mem_cons_self)
      · intro c' hc' hseen
        exact others c' hc' (List.mem_cons_of_mem _ hseen)

/-- The checks that an accepted declaration has passed. -/
theorem check_ok {d : Declaration} {e : DeclaredEntity} (h : d.check = .ok e) :
    d.isGeneric = false ∧ d.hasNamedFields = true ∧ d.checkTable = .ok e.table ∧
      checkFields [] d.fields = .ok (e.columns, e.relations) ∧
      repeatedColumn? [] e.columns = none ∧ e.columns ≠ [] := by
  unfold check at h
  split at h
  · cases h
  rename_i plain
  obtain ⟨table, htable, h⟩ := Outcome.bind_ok.1 h
  split at h
  · cases h
  rename_i fields
  obtain ⟨⟨columns, relations⟩, hfields, h⟩ := Outcome.bind_ok.1 h
  dsimp only at h
  split at h
  · cases h
  · cases h
  · rename_i hrepeated hcolumns
    obtain rfl := Except.ok.inj h
    exact ⟨by simpa using plain, by simpa using fields, htable, hfields, hcolumns, hrepeated⟩

theorem check_of_checkTable {d : Declaration} {table : String} (h : d.checkTable = .ok table) :
    Identifier.check table = .ok () := by
  obtain ⟨given, -, h⟩ := Outcome.bind_ok.1 h
  dsimp only at h
  split at h
  · obtain rfl := Except.ok.inj h
    assumption
  · cases h

theorem named_of_check {d : Declaration} {e : DeclaredEntity} (h : d.check = .ok e) :
    Identifier.check e.table = .ok () ∧ ∀ c ∈ e.columns, c.Named := by
  obtain ⟨-, -, htable, hfields, -, -⟩ := check_ok h
  obtain ⟨added, hcolumns, named, -, -⟩ := checkFields_ok hfields
  obtain rfl : e.columns = added := hcolumns
  exact ⟨check_of_checkTable htable, named⟩

end Declaration

/-- What the fields of an accepted declaration become, and what is known of the columns. -/
theorem Declaration.columns_of_check (d : Declaration) (e : DeclaredEntity)
    (accepted : d.check = .ok e) :
    Identifier.check e.table = .ok () ∧ (∀ c ∈ e.columns, c.Named) ∧
      (e.columns.map (·.column)).Nodup ∧ e.columns ≠ [] ∧ e.columns.countP (·.primaryKey) ≤ 1 ∧
      List.Forall₂ FieldDeclaration.IsColumn (d.fields.filter (!·.relation)) e.columns ∧
      List.Forall₂ FieldDeclaration.IsRelation (d.fields.filter (·.relation)) e.relations := by
  obtain ⟨-, -, -, hfields, hrepeated, nonempty⟩ := check_ok accepted
  obtain ⟨table, named⟩ := named_of_check accepted
  obtain ⟨added, hcolumns, -, columns, relations⟩ := checkFields_ok hfields
  obtain rfl : e.columns = added := hcolumns
  exact ⟨table, named, (nodup_of_repeatedColumn? hrepeated).1, nonempty,
    oneKey_of_checkFields hfields (by simp), columns, relations⟩

namespace Declaration

/-- A parcel with the order that it belongs to. -/
def parcel : Declaration :=
  ⟨"Parcel", "", true, [[("name", "parcels")]], [⟨"id", "i64", true, false, []⟩,
    ⟨"order", "Option<Order>", false, true, []⟩]⟩

theorem columns_of_parcel :
    ∃ e, parcel.check = .ok e ∧ e.columns.map (fun c => (c.name, c.kind)) = [("id", .int)] ∧
      e.relations.map (fun r => (r.name, r.target)) = [("order", "Order")] ∧
      List.Forall₂ FieldDeclaration.IsRelation (parcel.fields.filter (·.relation)) e.relations := by
  have shown : parcel.check.toOption.map (fun e =>
      (e.columns.map fun c => (c.name, c.kind), e.relations.map fun r => (r.name, r.target))) =
        some ([("id", .int)], [("order", "Order")]) := by
    decide +kernel
  obtain ⟨e, accepted, hparts⟩ := Option.map_eq_some_iff.1 shown
  have accepted := Outcome.eq_ok_of_toOption accepted
  obtain ⟨columns, relations⟩ := Prod.mk.inj hparts
  obtain ⟨-, -, -, -, -, -, related⟩ := columns_of_check parcel e accepted
  exact ⟨e, accepted, columns, relations, related⟩

/-- The names of relations are not checked, since no statement shows them. -/
theorem parcel_order_unchecked :
    ∃ e, parcel.check = .ok e ∧
      ∃ f ∈ parcel.fields, Identifier.check f.fieldName = .error (.reserved "order") := by
  have found : parcel.check.toOption.isSome = true := by decide +kernel
  obtain ⟨e, accepted⟩ := Option.isSome_iff_exists.1 found
  exact ⟨e, Outcome.eq_ok_of_toOption accepted, ⟨"order", "Option<Order>", false, true, []⟩,
    List.mem_cons_of_mem _ List.mem_cons_self, by decide +kernel⟩

end Declaration

/-- The names of a declared entity are identifiers. -/
theorem Entity.Declared.checked {E : Entity} (h : E.Declared) :
    Identifier.check E.table = .ok () ∧ ∀ f ∈ E.fields,
      Identifier.check f.name = .ok () ∧ Identifier.check f.column = .ok () := by
  obtain ⟨d, e, accepted, describes⟩ := h
  obtain ⟨htable, columns⟩ := Declaration.named_of_check (Outcome.eq_ok_of_toOption accepted)
  refine ⟨describes.table ▸ htable, fun f hf => ?_⟩
  obtain ⟨i, hi, rfl⟩ := List.getElem_of_mem hf
  have hi' : i < e.columns.length := describes.fields.length_eq ▸ hi
  obtain ⟨hname, hcolumn, -⟩ := describes.fields.get hi' hi
  have named := columns e.columns[i] (List.getElem_mem hi')
  exact ⟨hname ▸ named.name, hcolumn ▸ named.column⟩

end TypedQuery
