import Mathlib.Data.Option.Defs
import TypedQuery.Field.Convert
import TypedQuery.Proofs.Number.Digits
import TypedQuery.Proofs.Number.Rounding
import TypedQuery.Proofs.Outcome

/-!
# Fields that are read back

Every field type has one kind, and the values of its fields have it. So coercion leaves these values
as they are, and reading gives back what was stored. Two types take a way of their own: the widest
unsigned numbers and the decimals are kept as text.
-/

namespace TypedQuery

/-- All numbers of the types but those of the widest unsigned one are words of 64 bits. -/
theorem IntegerType.toInt_ofInt (t : IntegerType) {n : Int} (signed : t ≠ .u64) (fits : t.Fits n) :
    (Int64.ofInt n).toInt = n := by
  have range : -2 ^ 63 ≤ n ∧ n < 2 ^ 63 := by
    cases t with
    | u64 => exact absurd rfl signed
    | i8 | i16 | i32 | i64 | u8 | u16 | u32 =>
        simp only [IntegerType.Fits, Number.FitsSigned, Number.FitsUnsigned, Nat.pow_eq] at fits
        omega
  exact Int64.toInt_ofInt_of_le range.1 range.2

namespace ScalarType

/-- Both are equal, where two numbers of 32 bits that are none count as equal, and two decimals
that are zero with the same places behind the point. -/
def Same : (t : ScalarType) → t.Carrier → t.Carrier → Prop
  | single, x, y => Single.Same x y
  | decimal, x, y => ScaledDecimal.Same x y
  | text, x, y | integer _, x, y | double, x, y | bool, x, y | uuid, x, y | instant, x, y
  | localInstant, x, y | date, x, y | json, x, y => x = y

theorem toValue_integer {t : IntegerType} (signed : t ≠ .u64) (n : { n : Int // t.Fits n }) :
    toValue (.integer t) n = .int (Int64.ofInt n.val) := by
  cases t <;> first | rfl | exact absurd rfl signed

/-- The value of a field has the kind of the field's type. -/
theorem kind?_toValue (t : ScalarType) (x : t.Carrier) : (t.toValue x).kind? = some t.kind := by
  cases t with
  | integer t => cases t <;> rfl
  | text | single | double | bool | uuid | instant | localInstant | date | decimal | json => rfl

end ScalarType

namespace Value

variable {k : Kind} {expected : String} {v : Value}

theorem isNull_of_kind (kind : v.kind? = some k) : v.isNull = false := by
  rw [Bool.eq_false_iff, ne_eq, isNull_iff]
  rintro rfl
  cases kind

theorem coerceFor_of_kind (kind : v.kind? = some k) : v.coerceFor k expected = .ok v := by
  rw [coerceFor, isNull_of_kind kind, coerce?_of_kind kind]
  rfl

/-- A value of the kind is taken apart without coercion. -/
theorem readAs_of_kind {α : Type} {part : Value → Option α} {x : α} (kind : v.kind? = some k)
    (h : part v = some x) : v.readAs k expected part = .ok x := by
  refine Outcome.bind_ok.2 ⟨v, coerceFor_of_kind kind, ?_⟩
  rw [h]

theorem readUnsigned_text (n : { n : Int // IntegerType.u64.Fits n }) :
    (decimal (Number.textOfInt n.val)).readUnsigned = .ok n := by
  obtain ⟨n, fits⟩ := n
  obtain ⟨m, rfl⟩ := Int.eq_ofNat_of_zero_le fits.1
  have htext : Number.readUnsigned? (Text.trim (Number.textOfInt m).toList) = some m := by
    rw [Number.toList_textOfInt_ofNat, Number.trim_digits, Number.readUnsigned?_digits]
  simp only [readUnsigned, htext]
  rw [dif_pos fits]

theorem readInteger_int {t : IntegerType} (signed : t ≠ .u64) (n : { n : Int // t.Fits n }) :
    (int (Int64.ofInt n.val)).readInteger t = .ok n := by
  obtain ⟨n, fits⟩ := n
  rw [readInteger, dif_neg signed]
  refine Outcome.bind_ok.2 ⟨Int64.ofInt n, readAs_of_kind rfl rfl, ?_⟩
  simp only [t.toInt_ofInt signed fits]
  rw [dif_pos fits]

theorem readDecimal_text (d : ScaledDecimal) :
    ∃ d', (decimal d.text).readDecimal = .ok d' ∧ d.Same d' := by
  obtain ⟨d', hread, same⟩ := d.read?_text
  refine ⟨d', ?_, same⟩
  refine Outcome.bind_ok.2 ⟨decimal d.text, coerceFor_of_kind rfl, ?_⟩
  simp only [hread]

end Value

namespace ScalarType

/-- A field that is not optional is read back from its value. -/
theorem ofValue_toValue (t : ScalarType) (x : t.Carrier) :
    ∃ y, t.ofValue (t.toValue x) = .ok y ∧ t.Same x y := by
  have kind := t.kind?_toValue x
  cases t with
  | integer t =>
      by_cases h : t = .u64
      · subst h
        exact ⟨x, Value.readUnsigned_text x, rfl⟩
      · exact ⟨x, toValue_integer h x ▸ Value.readInteger_int h x, rfl⟩
  | single =>
      have hread : (toValue .single x).readAs .float "f64" Value.double? =
          .ok (Single.toDouble x) := Value.readAs_of_kind kind rfl
      exact ⟨_, Outcome.map_ok.2 ⟨_, hread, rfl⟩, Single.same_ofDouble_toDouble x⟩
  | decimal => exact Value.readDecimal_text x
  | json => exact ⟨x, rfl, rfl⟩
  | text | double | bool | uuid | instant | localInstant | date =>
      exact ⟨x, Value.readAs_of_kind kind rfl, rfl⟩

end ScalarType

namespace FieldType

/-- Both are equal up to what cannot be told of their scalars. -/
def Same : (t : FieldType) → t.Carrier → t.Carrier → Prop
  | ⟨s, true⟩, x, y => Option.Rel s.Same x y
  | ⟨s, false⟩, x, y => s.Same x y

/-- The value of a field stays as it is when it is coerced to the kind of the field. -/
theorem coerce?_toValue (t : FieldType) (x : t.Carrier) :
    (t.toValue x).coerce? t.kind = some (t.toValue x) := by
  obtain ⟨s, optional⟩ := t
  cases optional with
  | false => exact Value.coerce?_of_kind (s.kind?_toValue x)
  | true =>
      cases x with
      | none => rfl
      | some y => exact Value.coerce?_of_kind (s.kind?_toValue y)

/-- Every field is read back from its value. -/
theorem ofValue_toValue (t : FieldType) (x : t.Carrier) :
    ∃ y, t.ofValue (t.toValue x) = .ok y ∧ t.Same x y := by
  obtain ⟨s, optional⟩ := t
  cases optional with
  | false => exact s.ofValue_toValue x
  | true =>
      cases x with
      | none => exact ⟨none, rfl, .none⟩
      | some x =>
          obtain ⟨y, hread, same⟩ := s.ofValue_toValue x
          have hread' : FieldType.ofValue ⟨s, true⟩ (s.toValue x) =
              (s.ofValue (s.toValue x)).map some :=
            if_neg (by simp [Value.isNull_of_kind (s.kind?_toValue x)])
          exact ⟨some y, hread'.trans (by rw [hread]; rfl), .some same⟩

end FieldType

end TypedQuery
