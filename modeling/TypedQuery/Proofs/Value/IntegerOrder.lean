import TypedQuery.Expr.Arithmetic
import TypedQuery.Proofs.Field.RoundTrip
import TypedQuery.Proofs.Number.Order
import TypedQuery.Proofs.Value.SameKey

/-!
# The order of integers as values

Integers are compared as words if both are kept as words. If one of them is kept as text, they are
compared as the nearest numbers of 64 bits, which are in the same order unless they are one: then
the integers count as equal, though they may differ.
-/

namespace TypedQuery

namespace Value

variable {s t : IntegerType}

/-- Both values keep enough of the integers to compare them: they are words, or the integers are
one, or do not become one when they are rounded to 64 bits. -/
def Told (s t : IntegerType) (m n : Int) : Prop :=
  (s ≠ .u64 ∧ t ≠ .u64) ∨ m = n ∨ Double.ofInt m ≠ Double.ofInt n

instance (s t : IntegerType) (m n : Int) : Decidable (Told s t m n) :=
  inferInstanceAs (Decidable (_ ∨ _))

theorem double?_integer (t : IntegerType) (n : { n : Int // t.Fits n }) :
    (ScalarType.toValue (.integer t) n).double? = some (Double.ofInt n.val) := by
  by_cases h : t = .u64
  · subst h
    obtain ⟨n, fits⟩ := n
    obtain ⟨m, rfl⟩ := Int.eq_ofNat_of_zero_le fits.1
    show Number.readDouble? (Number.textOfInt m).toList = _
    rw [Number.toList_textOfInt_ofNat, Number.readDouble?_digits]
  · rw [ScalarType.toValue_integer h, double?, t.toInt_ofInt h n.property]

/-- What is kept as text is compared as a number of 64 bits. -/
theorem compare?_decimal_left {c : String} {b : Value} {x y : Double}
    (hx : (decimal c).double? = some x) (hy : b.double? = some y) :
    (decimal c).compare? b = x.compare? y := by
  cases b <;> first | cases hy; done | simp only [compare?, hx, hy]

theorem compare?_decimal_right {c : String} {a : Value} {x y : Double}
    (hx : a.double? = some x) (hy : (decimal c).double? = some y) :
    a.compare? (decimal c) = x.compare? y := by
  cases a <;> first | cases hx; done | simp only [compare?, hx, hy]

/-- Integers that are not both words are compared as numbers of 64 bits. -/
theorem compare?_integer_of_text (text : s = .u64 ∨ t = .u64) (x : { n : Int // s.Fits n })
    (y : { n : Int // t.Fits n }) :
    (ScalarType.toValue (.integer s) x).compare? (ScalarType.toValue (.integer t) y) =
      (Double.ofInt x.val).compare? (Double.ofInt y.val) := by
  have hx := double?_integer s x
  have hy := double?_integer t y
  rcases text with rfl | rfl
  · exact compare?_decimal_left hx hy
  · exact compare?_decimal_right hx hy

/-- Integers are compared as they are, or count as equal if their values do not tell them apart. -/
theorem compare?_integer (s t : IntegerType) (x : { n : Int // s.Fits n })
    (y : { n : Int // t.Fits n }) :
    (ScalarType.toValue (.integer s) x).compare? (ScalarType.toValue (.integer t) y) =
      some (if Told s t x.val y.val then compare x.val y.val else .eq) := by
  by_cases words : s ≠ .u64 ∧ t ≠ .u64
  · rw [if_pos (.inl words), ScalarType.toValue_integer words.1, ScalarType.toValue_integer words.2,
      compare?_int, s.toInt_ofInt words.1 x.property, t.toInt_ofInt words.2 y.property]
  · have text : s = .u64 ∨ t = .u64 := by
      rwa [not_and_or, not_not, not_not] at words
    rw [compare?_integer_of_text text, Double.compare?_ofInt, Option.some.injEq]
    by_cases one : Double.ofInt x.val = Double.ofInt y.val
    · rw [if_pos one]
      split
      · rename_i told
        have equal : x.val = y.val := by
          rcases told with words' | equal | two
          · exact absurd words' words
          · exact equal
          · exact absurd one two
        exact (compare_eq_iff_eq.2 equal).symm
      · rfl
    · rw [if_neg one, if_pos (.inr (.inr one))]

/-- Equal values of integers are one value. -/
theorem eq_of_integer_beq {x : { n : Int // s.Fits n }} {b : Value}
    (h : (ScalarType.toValue (.integer s) x == b) = true) :
    ScalarType.toValue (.integer s) x = b := by
  have kind := ScalarType.kind?_toValue (.integer s) x
  refine eq_of_same h (fun j hj => ?_) fun items hitems => ?_
  · rw [hj] at kind
    cases s <;> cases kind
  · rw [hitems] at kind
    cases kind

/-- Integers count as equal unless their values tell them apart. -/
theorem equals_integer (s t : IntegerType) (x : { n : Int // s.Fits n })
    (y : { n : Int // t.Fits n }) :
    (ScalarType.toValue (.integer s) x).equals (ScalarType.toValue (.integer t) y) =
      decide (Told s t x.val y.val → x.val = y.val) := by
  have order : (ScalarType.toValue (.integer s) x).compare? (ScalarType.toValue (.integer t) y) =
      some .eq ↔ (Told s t x.val y.val → x.val = y.val) := by
    rw [compare?_integer, Option.some.injEq]
    split
    · rename_i told
      rw [compare_eq_iff_eq]
      exact ⟨fun equal _ => equal, fun equal => equal told⟩
    · rename_i untold
      exact ⟨fun _ told => absurd told untold, fun _ => rfl⟩
  have self : (ScalarType.toValue (.integer s) x == ScalarType.toValue (.integer t) y) = true →
      (ScalarType.toValue (.integer s) x).compare? (ScalarType.toValue (.integer t) y) =
        some .eq := by
    intro same
    rw [← eq_of_integer_beq same, compare?_integer, compare_eq_iff_eq.2 rfl, ite_self]
  rw [equals, Bool.eq_iff_iff, Bool.or_eq_true, beq_iff_eq, decide_eq_true_eq, order]
  exact ⟨fun h => h.elim id fun same => order.1 (self same), .inl⟩

theorem applyBinary_eq_integer (s t : IntegerType) (x : { n : Int // s.Fits n })
    (y : { n : Int // t.Fits n }) :
    applyBinary .eq (ScalarType.toValue (.integer s) x) (ScalarType.toValue (.integer t) y) =
      .ok (bool (decide (Told s t x.val y.val → x.val = y.val))) := by
  rw [applyBinary, isNull_of_kind (ScalarType.kind?_toValue (.integer s) x),
    isNull_of_kind (ScalarType.kind?_toValue (.integer t) y), ← equals_integer]
  rfl

/-- Integers are compared as integers exactly if their values tell them apart, and their equality in
a condition is that of integers exactly then, too. Otherwise they count as equal though they are
not. Integers of at most 53 binary digits are always told apart. -/
theorem compare?_exact_iff (s t : IntegerType) (x : { n : Int // s.Fits n })
    (y : { n : Int // t.Fits n }) :
    let a := ScalarType.toValue (.integer s) x
    let b := ScalarType.toValue (.integer t) y
    (a.compare? b = some (compare x.val y.val) ↔ Told s t x.val y.val) ∧
      (applyBinary .eq a b = .ok (bool (decide (x.val = y.val))) ↔ Told s t x.val y.val) ∧
      (¬ Told s t x.val y.val → a.compare? b = some .eq ∧ applyBinary .eq a b = .ok (bool true)) ∧
      (x.val.natAbs ≤ 2 ^ 53 → y.val.natAbs ≤ 2 ^ 53 → Told s t x.val y.val) := by
  intro a b
  have equal_of_untold {m n : Int} (untold : ¬ Told s t m n) : m ≠ n :=
    fun equal => untold (.inr (.inl equal))
  rw [compare?_integer, applyBinary_eq_integer]
  refine ⟨?_, ?_, ?_, fun hx hy => ?_⟩
  · split
    · rename_i told
      exact iff_of_true rfl told
    · rename_i untold
      refine iff_of_false (fun h => ?_) untold
      exact equal_of_untold untold (compare_eq_iff_eq.1 (Option.some.inj h).symm)
  · rw [Except.ok.injEq, bool.injEq, decide_eq_decide]
    constructor
    · intro h
      by_contra untold
      exact equal_of_untold untold (h.1 fun told => absurd told untold)
    · intro told
      exact ⟨fun h => h told, fun equal _ => equal⟩
  · intro untold
    rw [if_neg untold, decide_eq_true fun told => absurd told untold]
    exact ⟨rfl, rfl⟩
  · by_cases equal : x.val = y.val
    · exact .inr (.inl equal)
    · refine .inr (.inr fun one => equal ?_)
      exact (Double.ofInt_inj (.of_natAbs_le hx) (.of_natAbs_le hy)).1 one

theorem mixed_integers_told :
    let a := ScalarType.toValue (.integer .i64) ⟨9007199254740991, by decide⟩
    let b := ScalarType.toValue (.integer .u64) ⟨9007199254740992, by decide⟩
    (9007199254740991 : Int).natAbs ≤ 2 ^ 53 ∧ (9007199254740992 : Int).natAbs ≤ 2 ^ 53 ∧
      a.compare? b = some .lt ∧ applyBinary .eq a b = .ok (bool false) := by
  have small : (9007199254740991 : Int).natAbs ≤ 2 ^ 53 := by decide
  have small' : (9007199254740992 : Int).natAbs ≤ 2 ^ 53 := by decide
  obtain ⟨order, equal, -, told⟩ := compare?_exact_iff .i64 .u64 ⟨9007199254740991, by decide⟩
    ⟨9007199254740992, by decide⟩
  exact ⟨small, small', order.2 (told small small'), equal.2 (told small small')⟩

/-- Two integers next to each other count as equal if one of them is kept as text. -/
theorem neighbours_untold :
    let a := ScalarType.toValue (.integer .u64) ⟨9007199254740993, by decide⟩
    let b := ScalarType.toValue (.integer .i64) ⟨9007199254740992, by decide⟩
    a.compare? b = some .eq ∧ applyBinary .eq a b = .ok (bool true) ∧
      compare (9007199254740993 : Int) 9007199254740992 = .gt := by
  have order : (ScalarType.toValue (.integer .u64) ⟨9007199254740993, by decide⟩).compare?
      (ScalarType.toValue (.integer .i64) ⟨9007199254740992, by decide⟩) = some .eq := by
    decide +kernel
  refine ⟨order, ?_, by decide⟩
  show Except.ok (bool (equals _ _)) = _
  rw [equals, order]
  rfl

end Value

end TypedQuery
