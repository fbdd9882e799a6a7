import TypedQuery.Demo
import TypedQuery.Materialize
import TypedQuery.Proofs.Number.Representable
import TypedQuery.Proofs.Outcome
import TypedQuery.Proofs.Value.SameKey

/-!
# Decimals that become integers

A decimal keeps its value when it becomes an integer exactly if one of the two ways to read it does
not round: it is a word of 64 bits without point and exponent, or its value is that of a
floating-point number. Any other decimal either does not become an integer or becomes one that it
does not denote. So keys that were decimals are one key exactly if they denote one number, as long
as none of them is rounded.
-/

namespace TypedQuery

namespace Number.Numeral

/-- One of the two ways to read an integer from the decimal does not round. -/
def IsExact (d : Numeral) : Prop :=
  (d.IsPlain ∧ ∃ w : Int64, d.value = w.toInt) ∨ IsDouble d.value

/-- The decimal as a value. -/
def toValue (d : Numeral) : Value := .decimal (String.ofList d.text)

end Number.Numeral

namespace Value

open Number

variable {d : Numeral} {i j : Int64} {x : Double} {b : Binding} {key : String} {r : Row}
  {k : Value}

theorem wholeWord?_eq_some_iff :
    wholeWord? x = some i ↔ x.isFinite = true ∧ x.value = i.toInt := by
  simp only [wholeWord?, Option.bind_eq_bind, Option.bind_eq_some_iff, word?_eq_some_iff]
  constructor
  · rintro ⟨n, whole, rfl⟩
    exact Double.toInt?_eq_some_iff.1 whole
  · intro whole
    exact ⟨_, Double.toInt?_eq_some_iff.2 whole, rfl⟩

theorem coerce?_numeral (d : Numeral) :
    d.toValue.coerce? .int = (wordOfDecimal? (String.ofList d.text)).map int := rfl

theorem coerce?_decimal (d : Numeral) : d.toValue.coerce? .int =
    (readWord? d.text <|> (readDouble? d.text >>= wholeWord?)).map int := by
  rw [coerce?_numeral, wordOfDecimal?, String.toList_ofList]

/-- An integer is read from the digits, or else from the nearest number of 64 bits. -/
theorem coerce?_decimal_iff : d.toValue.coerce? .int = some (int i) ↔
    readWord? d.text = some i ∨ readWord? d.text = none ∧
      ∃ x, readDouble? d.text = some x ∧ x.isFinite = true ∧ x.value = i.toInt := by
  rw [coerce?_decimal]
  cases readWord? d.text <;>
    simp [Option.bind_eq_some_iff, wholeWord?_eq_some_iff]

/-- No integer but the one that it denotes comes from an exact decimal. -/
theorem value_eq_of_coerce? (h : d.toValue.coerce? .int = some (int i)) (exact : d.IsExact) :
    d.value = i.toInt := by
  rcases coerce?_decimal_iff.1 h with plain | ⟨notWord, x, hread, finite, whole⟩
  · exact (d.readWord?_text_eq_some_iff.1 plain).2
  · rcases exact with ⟨plain, w, hvalue⟩ | double
    · rw [d.readWord?_text_eq_some_iff.2 ⟨plain, hvalue⟩] at notWord
      cases notWord
    · obtain ⟨y, hy, -, hvalue⟩ := Numeral.readDouble?_of_isDouble double
      obtain rfl := Option.some.inj (hread.symm.trans hy)
      exact hvalue.symm.trans whole

/-- The integer that an exact decimal denotes comes from it. -/
theorem coerce?_of_exact (hvalue : d.value = i.toInt) (exact : d.IsExact) :
    d.toValue.coerce? .int = some (int i) := by
  rw [coerce?_decimal_iff]
  cases hword : readWord? d.text with
  | some w =>
      have hw := (d.readWord?_text_eq_some_iff.1 hword).2
      rw [hvalue] at hw
      exact .inl (congrArg some (Int64.toInt_inj.1 (by exact_mod_cast hw.symm)))
  | none =>
      rcases exact with ⟨plain, -⟩ | double
      · rw [d.readWord?_text_eq_some_iff.2 ⟨plain, hvalue⟩] at hword
        cases hword
      · obtain ⟨x, hread, finite, hx⟩ := Numeral.readDouble?_of_isDouble double
        exact .inr ⟨rfl, x, hread, finite, hx.trans hvalue⟩

/-- A decimal that becomes what it denotes is exact. -/
theorem exact_of_coerce? (h : d.toValue.coerce? .int = some (int i)) (hvalue : d.value = i.toInt) :
    d.IsExact := by
  rcases coerce?_decimal_iff.1 h with plain | ⟨-, x, -, finite, whole⟩
  · exact .inl ⟨(d.readWord?_text_eq_some_iff.1 plain).1, i, hvalue⟩
  · exact .inr ⟨x, finite, whole.trans hvalue.symm⟩

theorem eq_int_of_coerce? (h : d.toValue.coerce? .int = some k) : ∃ i, k = int i := by
  rw [coerce?_decimal] at h
  obtain ⟨i, -, rfl⟩ := Option.map_eq_some_iff.1 h
  exact ⟨i, rfl⟩

theorem sameKey_int_iff : (int i).sameKey (int j) = true ↔ i = j := by
  rw [sameKey, Bool.and_eq_true, beq_iff_eq]
  constructor
  · rintro ⟨-, equal⟩
    exact beq_iff_eq.1 (show (i == j) = true from equal)
  · rintro rfl
    exact ⟨rfl, beq_self_eq_true i⟩

/-- The key of the row is what a decimal in the key column became. -/
structure KeyOfDecimal (b : Binding) (key : String) (r : Row) (d : Numeral) (k : Value) : Prop where
  column : ∃ column, b.keyColumn key = .ok (column, .int) ∧ r.get? column = some d.toValue
  read : b.readKey key r = .ok k

theorem KeyOfDecimal.coerce? (h : KeyOfDecimal b key r d k) :
    d.toValue.coerce? .int = some k := by
  obtain ⟨⟨column, hcolumn, hget⟩, read⟩ := h
  rw [Binding.readKey, hcolumn] at read
  have hread : r.read column (some .int) = .ok k := read
  simp only [Row.read, hget] at hread
  split at hread
  · rename_i w hw
    obtain rfl := Except.ok.inj hread
    exact hw
  · cases hread

/-- Integers come from the texts of decimals only. -/
theorem exists_numeral_of_coerce? {s : String} (h : (decimal s).coerce? .int = some (int i)) :
    ∃ d : Numeral, decimal s = d.toValue := by
  have hword : (wordOfDecimal? s).map int = some (int i) := h
  obtain ⟨j, hj, -⟩ := Option.map_eq_some_iff.1 hword
  have htext : ∃ d : Numeral, s.toList = d.text := by
    rw [wordOfDecimal?, Option.orElse_eq_orElse, Option.orElse_eq_or, Option.or_eq_some_iff] at hj
    rcases hj with word | ⟨-, double⟩
    · exact Numeral.exists_of_readWord? word
    · obtain ⟨x, hx, whole⟩ := Option.bind_eq_some_iff.1 double
      exact Numeral.exists_of_readDouble? hx (wholeWord?_eq_some_iff.1 whole).1
  obtain ⟨d, hd⟩ := htext
  refine ⟨d, congrArg decimal ?_⟩
  rw [← hd, String.ofList_toList]

/-- Coercion to an integer keeps the value: no other integer comes from the decimal, and one written
without an exponent comes from it. -/
structure KeepsValue (d : Numeral) : Prop where
  faithful : ∀ i, d.toValue.coerce? .int = some (int i) → d.value = i.toInt
  complete : d.exponent = none → ∀ i : Int64, d.value = i.toInt →
    d.toValue.coerce? .int = some (int i)

/-- The value is kept exactly if the decimal is exact, or no integer comes from it and none has
to. -/
theorem keepsValue_iff : KeepsValue d ↔ d.IsExact ∨
    d.toValue.coerce? .int = none ∧ (d.exponent = none → ∀ i : Int64, d.value ≠ i.toInt) := by
  constructor
  · intro keeps
    cases hcoerce : d.toValue.coerce? .int with
    | some k =>
        obtain ⟨i, rfl⟩ := eq_int_of_coerce? hcoerce
        exact .inl (exact_of_coerce? hcoerce (keeps.faithful i hcoerce))
    | none =>
        refine .inr ⟨rfl, fun plain i hvalue => ?_⟩
        have come := keeps.complete plain i hvalue
        rw [hcoerce] at come
        cases come
  · rintro (exact | ⟨hnone, other⟩)
    · exact ⟨fun i h => value_eq_of_coerce? h exact, fun _ i h => coerce?_of_exact h exact⟩
    · refine ⟨fun i h => ?_, fun plain i hvalue => absurd hvalue (other plain i)⟩
      rw [hnone] at h
      cases h

/-- Integers come from decimals in text only. A decimal becomes the integer that it denotes, and no
other, exactly if it is exact: so are words of 64 bits without point and exponent, and whole numbers
of at most 53 binary digits however they are written. Keys that come from exact decimals are one key
exactly if these denote one number. -/
theorem coerce?_exact_iff (d : Numeral) :
    (∀ s i, (decimal s).coerce? .int = some (int i) → ∃ d : Numeral, decimal s = d.toValue) ∧
    (KeepsValue d ↔ d.IsExact ∨ d.toValue.coerce? .int = none ∧
      (d.exponent = none → ∀ i : Int64, d.value ≠ i.toInt)) ∧
    (∀ i, d.toValue.coerce? .int = some (int i) → (d.value = i.toInt ↔ d.IsExact)) ∧
    (∀ i : Int64, d.value = i.toInt →
      (d.toValue.coerce? .int = some (int i) ↔ d.IsExact) ∧
      (i.toInt.natAbs ≤ 2 ^ 53 ∨ d.IsPlain → d.IsExact)) ∧
    ∀ d' b key r r' k k', KeyOfDecimal b key r d k → KeyOfDecimal b key r' d' k' →
      d.IsExact → d'.IsExact → (k.sameKey k' = true ↔ d.value = d'.value) := by
  refine ⟨fun s i => exists_numeral_of_coerce?, keepsValue_iff, fun i h => ?_,
    fun i hvalue => ?_, ?_⟩
  · exact ⟨exact_of_coerce? h, value_eq_of_coerce? h⟩
  · refine ⟨⟨fun h => exact_of_coerce? h hvalue, coerce?_of_exact hvalue⟩, ?_⟩
    rintro (small | plain)
    · exact .inr (hvalue ▸ IsDouble.of_natAbs_le small)
    · exact .inl ⟨plain, i, hvalue⟩
  · intro d' b key r r' k k' hkey hkey' exact exact'
    obtain ⟨i, rfl⟩ := eq_int_of_coerce? hkey.coerce?
    obtain ⟨j, rfl⟩ := eq_int_of_coerce? hkey'.coerce?
    rw [sameKey_int_iff, value_eq_of_coerce? hkey.coerce? exact,
      value_eq_of_coerce? hkey'.coerce? exact', ← Int64.toInt_inj]
    exact Int.cast_inj.symm

/-- The order with the number in its key column. -/
def orderRow (d : Numeral) : Row := .ofList [("Extend0_id", d.toValue)]

/-- One hundred with two places. -/
def hundred : Numeral :=
  ⟨.none, ['1', '0', '0'], some ['0', '0'], none, List.all_eq_true.1 (by decide), by decide⟩

/-- One hundred with an exponent. -/
def oneWithExponent : Numeral :=
  { sign := .plus
    whole := ['1']
    fraction := none
    exponent := some
      ⟨'e', .none, ['2'], by decide, List.all_eq_true.1 (by decide), by decide⟩
    isDigits := ⟨List.all_eq_true.1 (by decide), by decide⟩ }

theorem value_hundred : hundred.value = (100 : Int64).toInt := by
  decide +kernel

theorem value_oneWithExponent : oneWithExponent.value = (100 : Int64).toInt := by
  decide +kernel

theorem get?_orderRow (d : Numeral) : (orderRow d).get? "Extend0_id" = some d.toValue :=
  Row.get?_insert_self _ _ _

/-- Orders are told apart by the integer in their key column. -/
theorem keyOfDecimal_orderRow (h : d.toValue.coerce? .int = some k) :
    KeyOfDecimal (.full Demo.order "Extend0") "id" (orderRow d) d k := by
  have column : (Binding.full Demo.order "Extend0").keyColumn "id" = .ok ("Extend0_id", .int) := by
    with_unfolding_all rfl
  refine ⟨⟨_, column, get?_orderRow d⟩, ?_⟩
  rw [Binding.readKey, column]
  show (orderRow d).read "Extend0_id" (some .int) = .ok k
  simp only [Row.read, get?_orderRow, h]

theorem hundreds_one_key :
    (hundred.toValue.coerce? .int = some (int 100) ∧
        oneWithExponent.toValue.coerce? .int = some (int 100)) ∧
      KeyOfDecimal (.full Demo.order "Extend0") "id" (orderRow hundred) hundred (int 100) ∧
      KeyOfDecimal (.full Demo.order "Extend0") "id" (orderRow oneWithExponent) oneWithExponent
        (int 100) ∧
      (int 100).sameKey (int 100) = true ∧ hundred.value = oneWithExponent.value := by
  have small : (100 : Int64).toInt.natAbs ≤ 2 ^ 53 := by decide
  obtain ⟨-, -, -, whole, keys⟩ := coerce?_exact_iff hundred
  obtain ⟨-, -, -, whole', -⟩ := coerce?_exact_iff oneWithExponent
  obtain ⟨iff, exact⟩ := whole 100 value_hundred
  obtain ⟨iff', exact'⟩ := whole' 100 value_oneWithExponent
  have read := iff.2 (exact (.inl small))
  have read' := iff'.2 (exact' (.inl small))
  have key := keyOfDecimal_orderRow read
  have key' := keyOfDecimal_orderRow read'
  have one : (int 100).sameKey (int 100) = true := sameKey_int_iff.2 rfl
  have value := (keys _ _ _ _ _ _ _ key key' (exact (.inl small)) (exact' (.inl small))).1 one
  exact ⟨⟨read, read'⟩, key, key', one, value⟩

/-- The least whole number that is none of 64 bits, with a zero behind the point. -/
def oddWhole : Numeral :=
  ⟨.none, "9007199254740993".toList, some ['0'], none, List.all_eq_true.1 (by decide), by decide⟩

/-- The whole number before it. -/
def evenWhole : Numeral :=
  ⟨.none, "9007199254740992".toList, none, none, List.all_eq_true.1 (by decide), by decide⟩

/-- A number just below one. -/
def nearlyOne : Numeral :=
  ⟨.none, ['0'], some "99999999999999999999".toList, none, List.all_eq_true.1 (by decide),
    by decide⟩

/-- A whole number becomes another one, which is a key of its own, and a number that is not whole
becomes one. -/
theorem oddWhole_inexact :
    oddWhole.text = "9007199254740993.0".toList ∧ oddWhole.value = 9007199254740993 ∧
      oddWhole.toValue.coerce? .int = some (int 9007199254740992) ∧
      evenWhole.value = 9007199254740992 ∧
      KeyOfDecimal (.full Demo.order "Extend0") "id" (orderRow oddWhole) oddWhole
        (int 9007199254740992) ∧
      KeyOfDecimal (.full Demo.order "Extend0") "id" (orderRow evenWhole) evenWhole
        (int 9007199254740992) ∧
      nearlyOne.value ≠ 1 ∧ nearlyOne.toValue.coerce? .int = some (int 1) := by
  have read {d : Numeral} {i : Int64} (h : wordOfDecimal? (String.ofList d.text) = some i) :
      d.toValue.coerce? .int = some (int i) := by
    rw [coerce?_numeral, h, Option.map_some]
  have odd := read (d := oddWhole) (i := 9007199254740992) (by decide +kernel)
  have even := read (d := evenWhole) (i := 9007199254740992) (by decide +kernel)
  have one := read (d := nearlyOne) (i := 1) (by decide +kernel)
  have oddValue : oddWhole.value = 9007199254740993 := by decide +kernel
  have evenValue : evenWhole.value = 9007199254740992 := by decide +kernel
  have notOne : nearlyOne.value ≠ 1 := by decide +kernel
  exact ⟨by decide, oddValue, odd, evenValue, keyOfDecimal_orderRow odd,
    keyOfDecimal_orderRow even, notOne, one⟩

end Value
end TypedQuery
