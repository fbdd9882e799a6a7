import TypedQuery.Demo
import TypedQuery.Materialize
import TypedQuery.Proofs.Field.RoundTrip
import TypedQuery.Proofs.Json.Lengths

/-!
# Fields that are coerced before they are read

A value that is not NULL is coerced to a value of the kind of its field, and reading does the same
first, so reading the coerced value gives what the value itself gives. Text for a document is the
one exception: it is read as the text of a document, but coerced to a document that holds the text.
-/

namespace TypedQuery

namespace Value

variable {k : Kind} {v w : Value} {expected : String}

/-- Coercion gives a value of the wanted kind. -/
theorem kind?_of_coerce? (notNull : v ≠ null) (h : v.coerce? k = some w) : w.kind? = some k := by
  by_cases kind : v.kind? = some k
  · rw [coerce?_of_kind kind] at h
    obtain rfl := Option.some.inj h
    exact kind
  · rw [coerce?_of_ne notNull kind] at h
    unfold convertTo? at h
    split at h
    all_goals first
      | cases h; done
      | (obtain rfl := Option.some.inj h; rfl)
      | (obtain ⟨_, -, rfl⟩ := Option.map_eq_some_iff.1 h; rfl)

theorem coerceFor_of_coerce? (notNull : v ≠ null) (h : v.coerce? k = some w) :
    v.coerceFor k expected = .ok w := by
  have isNull : v.isNull = false := by
    rwa [Bool.eq_false_iff, ne_eq, isNull_iff]
  rw [coerceFor, isNull, h]
  rfl

/-- A value is taken apart as the one that it is coerced to. -/
theorem readAs_of_coerce? {α : Type} (expected : String) (part : Value → Option α)
    (notNull : v ≠ null) (h : v.coerce? k = some w) :
    w.readAs k expected part = v.readAs k expected part := by
  have kind := kind?_of_coerce? notNull h
  rw [readAs, readAs, coerceFor_of_coerce? notNull h, coerceFor_of_kind kind]

theorem readInteger_of_coerce? {t : IntegerType} (signed : t ≠ .u64) (notNull : v ≠ null)
    (h : v.coerce? t.kind = some w) : w.readInteger t = v.readInteger t := by
  have kind : t.kind = .int := by
    cases t <;> first | rfl | exact absurd rfl signed
  rw [kind] at h
  rw [readInteger, readInteger, dif_neg signed, dif_neg signed, readInt,
    readAs_of_coerce? _ int? notNull h]

theorem readUnsigned_of_coerce? {n : { n : Int // IntegerType.u64.Fits n }}
    (read : v.readUnsigned = .ok n) (h : v.coerce? .decimal = some w) :
    w.readUnsigned = .ok n := by
  cases v with
  | decimal s =>
      obtain rfl := Option.some.inj h
      exact read
  | int m =>
      -- the integer in text is that integer again
      obtain rfl := Option.some.inj h
      have hn : n.val = m.toInt := by
        rw [readUnsigned] at read
        split at read
        · exact (congrArg Subtype.val (Except.ok.inj read)).symm
        · cases read
      rw [← hn]
      exact readUnsigned_text n
  | text s => cases h
  | null | bool _ | float _ | uuid _ | timestamp _ | date _ | json _ | list _ => cases read

theorem readDecimal_of_coerce? (notNull : v ≠ null) (h : v.coerce? .decimal = some w) :
    w.readDecimal = v.readDecimal := by
  have kind := kind?_of_coerce? notNull h
  have coerced : v.coerceFor .decimal "Decimal" = .ok w := coerceFor_of_coerce? notNull h
  have again : w.coerceFor .decimal "Decimal" = .ok w := coerceFor_of_kind kind
  cases w with
  | decimal s =>
      cases v with
      | text s => cases h
      | _ => simp only [readDecimal, coerced, again]
  | _ => cases kind

theorem readJson_of_coerce? (notNull : v ≠ null) (h : v.coerce? .json = some w)
    (notText : v.kind? ≠ some .text) : w.readJson = v.readJson := by
  cases v with
  | null => exact absurd rfl notNull
  | text s => exact absurd rfl notText
  | json j =>
      obtain rfl := Option.some.inj h
      rfl
  | _ =>
      obtain rfl := Option.some.inj h
      rfl

/-- No text is read as the document that holds it. -/
theorem readJson_text_ne {s : String} {j : Json} (read : (text s).readJson = .ok j)
    (h : (text s).coerce? .json = some w) : w.readJson ≠ .ok j := by
  obtain rfl := Option.some.inj h
  have hread : Json.read? s = some j := by
    rw [readJson] at read
    split at read
    · rename_i hs
      rw [hs, Except.ok.inj read]
    · cases read
  intro coerced
  have tagged : Json.tagged "Text" (.text s) = j := Except.ok.inj coerced
  exact Json.read?_ne_tagged "Text" s (tagged ▸ hread)

end Value

namespace ScalarType

variable {t : ScalarType} {v w : Value} {x : t.Carrier}

/-- The text of a document is read as one, not coerced to one. -/
def ReadsText (t : ScalarType) (v : Value) : Prop := t = .json ∧ v.kind? = some .text

theorem ofValue_of_coerce? (notNull : v ≠ .null) (read : t.ofValue v = .ok x)
    (h : v.coerce? t.kind = some w) (notText : ¬ ReadsText t v) : t.ofValue w = .ok x := by
  cases t with
  | text | double | bool | uuid | instant | localInstant | date =>
      exact (Value.readAs_of_coerce? _ _ notNull h).trans read
  | single =>
      have wide := Value.readAs_of_coerce? "f64" Value.double? notNull h
      exact (congrArg (Except.map Single.ofDouble) wide).trans read
  | integer t =>
      by_cases unsigned : t = .u64
      · subst unsigned
        exact Value.readUnsigned_of_coerce? read h
      · exact (Value.readInteger_of_coerce? unsigned notNull h).trans read
  | decimal => exact (Value.readDecimal_of_coerce? notNull h).trans read
  | json =>
      have notText' : v.kind? ≠ some .text := fun kind => notText ⟨rfl, kind⟩
      exact (Value.readJson_of_coerce? notNull h notText').trans read

theorem ofValue_ne_of_coerce? (read : t.ofValue v = .ok x) (h : v.coerce? t.kind = some w)
    (text : ReadsText t v) : t.ofValue w ≠ .ok x := by
  obtain ⟨rfl, kind⟩ := text
  cases v with
  | text s => exact Value.readJson_text_ne read h
  | _ => cases kind

end ScalarType

namespace FieldType

variable {v w : Value}

/-- An optional field reads a value that is not NULL as its scalar does. -/
theorem ofValue_optional_iff {s : ScalarType} {x : Option s.Carrier} (notNull : v ≠ .null) :
    FieldType.ofValue ⟨s, true⟩ v = .ok x ↔ ∃ y, s.ofValue v = .ok y ∧ x = some y := by
  have hread : FieldType.ofValue ⟨s, true⟩ v = (s.ofValue v).map some :=
    if_neg (by rwa [Value.isNull_iff])
  rw [hread]
  exact Outcome.map_ok

theorem ofValue_of_coerce?_iff (t : FieldType) {x : t.Carrier} (notNull : v ≠ .null)
    (read : t.ofValue v = .ok x) (coerced : v.coerce? t.kind = some w) :
    t.ofValue w = .ok x ↔ ¬ t.scalar.ReadsText v := by
  have kind := Value.kind?_of_coerce? notNull coerced
  have notNull' : w ≠ .null := by
    rintro rfl
    cases kind
  obtain ⟨s, optional⟩ := t
  cases optional with
  | false =>
      have read' : s.ofValue v = .ok x := read
      constructor
      · intro h text
        exact ScalarType.ofValue_ne_of_coerce? read' coerced text h
      · exact ScalarType.ofValue_of_coerce? notNull read' coerced
  | true =>
      obtain ⟨y, read', rfl⟩ := (ofValue_optional_iff notNull).1 read
      rw [ofValue_optional_iff notNull']
      constructor
      · rintro ⟨y', h, heq⟩ text
        obtain rfl := Option.some.inj heq
        exact ScalarType.ofValue_ne_of_coerce? read' coerced text h
      · intro notText
        exact ⟨y, ScalarType.ofValue_of_coerce? notNull read' coerced notText, rfl⟩

/-- What a field reads from a value that is not NULL it reads from the coerced value, too, exactly
unless that is text for a document. So a field of a node, whose value was coerced when it was read
from a column, gives what the column's value does. -/
theorem ofValue_coerced_iff (t : FieldType) {x : t.Carrier} (notNull : v ≠ .null)
    (read : t.ofValue v = .ok x) (coerced : v.coerce? t.kind = some w) :
    (t.ofValue w = .ok x ↔ ¬ t.scalar.ReadsText v) ∧
      ∀ (r : Row) (n : Node) (column name : String), r.get? column = some v →
        r.read column (some t.kind) = .ok w ∧
          ((n.set name w).get t name = .ok x ↔ ¬ t.scalar.ReadsText v) := by
  have direct := t.ofValue_of_coerce?_iff notNull read coerced
  refine ⟨direct, fun r n column name hget => ⟨?_, ?_⟩⟩
  · simp only [Row.read, hget, coerced]
  · rw [← direct, Node.get, Node.value?_set_self, Option.getD_some]
    cases t.ofValue w <;> simp

/-- The row of a parcel whose weight came as text. -/
def parcelRow (weight : String) : Row := .ofList [("Extend0_weight", .text weight)]

theorem optionalWeight_coerced :
    FieldType.ofValue ⟨.integer .i16, true⟩ (.text " 12") = .ok (some ⟨12, by decide⟩) ∧
      (parcelRow " 12").read "Extend0_weight" (some .int) = .ok (.int 12) ∧
      ((Node.empty Demo.order).set "weight" (.int 12)).get ⟨.integer .i16, true⟩ "weight" =
        .ok (some ⟨12, by decide⟩) := by
  have read : FieldType.ofValue ⟨.integer .i16, true⟩ (.text " 12") =
      .ok (some ⟨12, by decide⟩) := by
    with_unfolding_all rfl
  have coerced : (Value.text " 12").coerce? .int = some (.int 12) := by
    with_unfolding_all rfl
  have column : (parcelRow " 12").get? "Extend0_weight" = some (.text " 12") :=
    Row.get?_insert_self _ _ _
  have notNull : Value.text " 12" ≠ .null := nofun
  have notText : ¬ (ScalarType.integer .i16).ReadsText (.text " 12") := nofun
  obtain ⟨row, get⟩ := (ofValue_coerced_iff ⟨.integer .i16, true⟩ notNull read coerced).2
    (parcelRow " 12") (.empty Demo.order) "Extend0_weight" "weight" column
  exact ⟨read, row, get.2 notText⟩

/-- A number in text is read as a document of that number, but the text is what the document holds
that it is coerced to. -/
theorem numberInText_coerced :
    FieldType.ofValue ⟨.json, false⟩ (.text "5") = .ok (.ofInt 5) ∧
      (Value.text "5").coerce? .json = some (.json (.tagged "Text" (.text "5"))) ∧
      FieldType.ofValue ⟨.json, false⟩ (.json (.tagged "Text" (.text "5"))) =
        .ok (.tagged "Text" (.text "5")) ∧
      Json.ofInt 5 ≠ .tagged "Text" (.text "5") := by
  have read : FieldType.ofValue ⟨.json, false⟩ (.text "5") = .ok (.ofInt 5) := by
    with_unfolding_all rfl
  exact ⟨read, rfl, rfl, nofun⟩

end FieldType

end TypedQuery
