import Mathlib.Algebra.Group.Nat.Defs
import Mathlib.Order.Nat
import TypedQuery.Number.Double

/-!
# Numbers that need no rounding

A word without sign is an exponent and a significand, and rounding gives back the word that a number
came from. A number of 32 bits has few enough digits to be one of 64 bits too, so it survives the
way there and back. What is not a number stays one, with its sign.
-/

namespace TypedQuery

theorem roundHalfEven_mul (k : Nat) {den : Nat} (h : 0 < den) : roundHalfEven (k * den) den = k := by
  simp [roundHalfEven, Nat.mul_div_cancel _ h, h]

namespace BinaryFormat

variable {f : BinaryFormat} {e k w den : Nat}

theorem fractionBits_single : single.fractionBits = 23 := rfl

theorem fractionBits_double : double.fractionBits = 52 := rfl

theorem infinity_single : single.infinity = 255 * 2 ^ 23 := by decide

theorem infinity_double : double.infinity = 2047 * 2 ^ 52 := by decide

/-- The significand has its leading digit, unless the exponent is the least one. -/
structure Normal (f : BinaryFormat) (e k : Nat) : Prop where
  lt : k < 2 ^ (f.fractionBits + 1)
  leading : e ≠ 0 → 2 ^ f.fractionBits ≤ k

/-- The word of `k * 2 ^ e` units. -/
def wordOf (f : BinaryFormat) (e k : Nat) : Nat := e * 2 ^ f.fractionBits + k

theorem magnitude_eq (f : BinaryFormat) (w : Nat) : f.magnitude w =
    if w / 2 ^ f.fractionBits = 0 then w % 2 ^ f.fractionBits
    else (2 ^ f.fractionBits + w % 2 ^ f.fractionBits) * 2 ^ (w / 2 ^ f.fractionBits - 1) := rfl

theorem magnitude_wordOf (h : f.Normal e k) : f.magnitude (f.wordOf e k) = k * 2 ^ e := by
  obtain ⟨hlt, hleading⟩ := h
  rw [Nat.pow_succ] at hlt
  by_cases leading : 2 ^ f.fractionBits ≤ k
  · obtain ⟨r, rfl⟩ := Nat.exists_eq_add_of_le leading
    have hr : r < 2 ^ f.fractionBits := by omega
    have hword : f.wordOf e (2 ^ f.fractionBits + r) = r + (e + 1) * 2 ^ f.fractionBits := by
      rw [wordOf, Nat.succ_mul]
      omega
    rw [hword, magnitude_eq, Nat.add_mul_div_right _ _ (Nat.two_pow_pos _), Nat.div_eq_of_lt hr,
      Nat.add_mul_mod_self_right, Nat.mod_eq_of_lt hr]
    simp
  · have hzero : e = 0 := by
      by_contra he
      exact leading (hleading he)
    have hk := Nat.lt_of_not_le leading
    simp [magnitude_eq, wordOf, hzero, Nat.div_eq_of_lt hk, Nat.mod_eq_of_lt hk]

/-- Every word has an exponent and a significand. -/
theorem exists_wordOf (w : Nat) : ∃ e k, f.Normal e k ∧ w = f.wordOf e k := by
  have hpos : 0 < 2 ^ f.fractionBits := Nat.two_pow_pos _
  have hmod := Nat.mod_lt w hpos
  have hsplit := Nat.div_add_mod' w (2 ^ f.fractionBits)
  cases hdiv : w / 2 ^ f.fractionBits with
  | zero =>
      rw [hdiv] at hsplit
      refine ⟨0, w % 2 ^ f.fractionBits, ⟨?_, nofun⟩, by rw [wordOf, hsplit]⟩
      rw [Nat.pow_succ]
      omega
  | succ e =>
      rw [hdiv, Nat.succ_mul, Nat.add_assoc] at hsplit
      refine ⟨e, 2 ^ f.fractionBits + w % 2 ^ f.fractionBits, ⟨?_, fun _ => Nat.le_add_right _ _⟩,
        by rw [wordOf, hsplit]⟩
      rw [Nat.pow_succ]
      omega

/-- A number with few enough digits has an exponent and a significand. -/
theorem exists_normal (j : Nat) (h : k < 2 ^ (f.fractionBits + 1)) :
    ∃ e k', f.Normal e k' ∧ e ≤ j ∧ k * 2 ^ j = k' * 2 ^ e := by
  induction j with
  | zero => exact ⟨0, k, ⟨h, nofun⟩, Nat.le_refl _, rfl⟩
  | succ j ih =>
      obtain ⟨e, k', normal, hle, heq⟩ := ih
      have hnext : k * 2 ^ (j + 1) = k' * 2 ^ (e + 1) := by
        rw [Nat.pow_succ, ← Nat.mul_assoc, heq, Nat.mul_assoc, ← Nat.pow_succ]
      by_cases leading : 2 ^ f.fractionBits ≤ k'
      · exact ⟨e + 1, k', ⟨normal.lt, fun _ => leading⟩, by omega, hnext⟩
      · -- the leading digit is missing, so this is the least exponent and there is room for a digit
        have hzero : e = 0 := by
          by_contra he
          exact leading (normal.leading he)
        subst hzero
        refine ⟨0, k' * 2, ⟨?_, nofun⟩, by omega, ?_⟩
        · rw [Nat.pow_succ]
          omega
        · simp [hnext]

theorem log2_sub_fractionBits (h : f.Normal e k) :
    (k * 2 ^ e).log2 - f.fractionBits = e := by
  by_cases leading : 2 ^ f.fractionBits ≤ k
  · have hne : k * 2 ^ e ≠ 0 := by
      have := Nat.two_pow_pos f.fractionBits
      have := Nat.two_pow_pos e
      exact Nat.mul_ne_zero (by omega) (by omega)
    have hlog : (k * 2 ^ e).log2 = f.fractionBits + e := by
      rw [Nat.log2_eq_iff hne]
      refine ⟨?_, ?_⟩
      · rw [Nat.pow_add]
        exact Nat.mul_le_mul_right _ leading
      · rw [Nat.add_right_comm, Nat.pow_add]
        exact Nat.mul_lt_mul_of_pos_right h.lt (Nat.two_pow_pos _)
    rw [hlog, Nat.add_sub_cancel_left]
  · have hzero : e = 0 := by
      by_contra he
      exact leading (h.leading he)
    have hlog : k.log2 ≤ f.fractionBits := by
      rcases Nat.eq_zero_or_pos k with rfl | hk
      · simp
      · exact Nat.le_of_lt_succ ((Nat.log2_lt hk.ne').2 h.lt)
    rw [hzero, Nat.pow_zero, Nat.mul_one]
    omega

/-- Where nothing is to be rounded, the word is that of the number. -/
theorem round_wordOf (h : f.Normal e k) (hden : 0 < den) :
    f.round (k * 2 ^ e * den) den = min (f.wordOf e k) f.infinity := by
  have hexcess : (k * 2 ^ e * den / den).log2 - f.fractionBits = e := by
    rw [Nat.mul_div_cancel _ hden, log2_sub_fractionBits h]
  have hround : roundHalfEven (k * 2 ^ e * den) (den * 2 ^ e) = k := by
    rw [Nat.mul_assoc, Nat.mul_comm (2 ^ e)]
    exact roundHalfEven_mul k (Nat.mul_pos hden (Nat.two_pow_pos _))
  simp only [round, hexcess, Nat.pow_eq, hround, wordOf]

/-- Rounding gives back a word that is there. -/
theorem round_magnitude (h : w ≤ f.infinity) (hden : 0 < den) :
    f.round (f.magnitude w * den) den = w := by
  obtain ⟨e, k, normal, rfl⟩ := f.exists_wordOf w
  rw [magnitude_wordOf normal, round_wordOf normal hden, Nat.min_eq_left h]

/-- A number with few enough digits in units has a word of 64 bits. -/
theorem exists_magnitude_eq {j : Nat} (hk : k < 2 ^ (double.fractionBits + 1)) (hj : j + 2 ≤ 2047) :
    ∃ v < double.infinity, double.magnitude v = k * 2 ^ j := by
  obtain ⟨e, k', normal, hle, heq⟩ := exists_normal j hk
  have hword := Nat.mul_le_mul_right (2 ^ 52) (Nat.le_trans (Nat.add_le_add_right hle 2) hj)
  rw [Nat.add_mul, ← Nat.pow_succ'] at hword
  refine ⟨double.wordOf e k', ?_, by rw [magnitude_wordOf normal, heq]⟩
  rw [wordOf, fractionBits_double, infinity_double]
  exact Nat.lt_of_lt_of_le (Nat.add_lt_add_left normal.lt _) hword

/-- A finite number of 32 bits has a word of 64 bits. -/
theorem exists_double_magnitude (h : w < single.infinity) :
    ∃ v < double.infinity, double.magnitude v =
        single.magnitude w * 2 ^ (Double.scale - Single.scale) ∧
      double.round (double.magnitude v) 1 = v := by
  obtain ⟨e, k, normal, rfl⟩ := single.exists_wordOf w
  have hk : k < 2 ^ (double.fractionBits + 1) :=
    Nat.lt_trans normal.lt (by decide)
  have he : e < 255 := by
    rw [wordOf, fractionBits_single, infinity_single] at h
    exact Nat.lt_of_mul_lt_mul_right (Nat.lt_of_le_of_lt (Nat.le_add_right _ _) h)
  have hexponent : e + 925 + 2 ≤ 2047 := by omega
  obtain ⟨v, hv, hmagnitude⟩ := exists_magnitude_eq hk hexponent
  refine ⟨v, hv, ?_, ?_⟩
  · rw [hmagnitude, magnitude_wordOf normal, Nat.mul_assoc, ← Nat.pow_add]
    rfl
  · have hround := round_magnitude hv.le Nat.one_pos
    rwa [Nat.mul_one] at hround

end BinaryFormat

namespace Double

variable {negative : Bool} {w : Nat}

theorem word_ofWord (h : w < 2 ^ 63) : (ofWord negative w).word = w := by
  cases negative <;> simp [ofWord, word] <;> omega

theorem isNegative_ofWord (h : w < 2 ^ 63) : (ofWord negative w).isNegative = negative := by
  cases negative <;> simp [ofWord, isNegative] <;> omega

end Double

namespace Single

/-- Both are equal, or both are no numbers and have one sign. -/
def Same (x y : Single) : Prop :=
  x = y ∨ (BinaryFormat.single.infinity < x.word ∧ BinaryFormat.single.infinity < y.word ∧
    x.isNegative = y.isNegative)

theorem ofWord_word (x : Single) : ofWord x.isNegative x.word = x := by
  have hlt := x.bits.toNat_lt
  have hbits : (if x.isNegative then Nat.pow 2 31 else 0) + x.word = x.bits.toNat := by
    simp only [isNegative, word, Nat.pow_eq, decide_eq_true_eq]
    split <;> omega
  rw [ofWord, hbits, UInt32.ofNat_toNat]

theorem word_ofWord {negative : Bool} {w : Nat} (h : w < 2 ^ 31) : (ofWord negative w).word = w := by
  cases negative <;> simp [ofWord, word] <;> omega

theorem isNegative_ofWord {negative : Bool} {w : Nat} (h : w < 2 ^ 31) :
    (ofWord negative w).isNegative = negative := by
  cases negative <;> simp [ofWord, isNegative] <;> omega

/-- A number of 32 bits comes back from 64 bits. -/
theorem same_ofDouble_toDouble (x : Single) : x.Same (ofDouble x.toDouble) := by
  have hdouble : BinaryFormat.double.infinity < 2 ^ 63 := by decide
  rcases Nat.lt_trichotomy x.word BinaryFormat.single.infinity with finite | infinite | none
  · obtain ⟨v, hv, hmagnitude, hround⟩ := BinaryFormat.exists_double_magnitude finite
    have hword : v < 2 ^ 63 := Nat.lt_trans hv hdouble
    have hwide : x.toDouble = Double.ofWord x.isNegative v := by
      rw [toDouble, if_neg finite.not_gt, if_neg finite.ne, Double.ofUnits, Nat.pow_eq,
        ← hmagnitude, hround]
    have hnarrow : BinaryFormat.single.round (BinaryFormat.double.magnitude v)
        (2 ^ (Double.scale - scale)) = x.word := by
      rw [hmagnitude, BinaryFormat.round_magnitude finite.le (Nat.two_pow_pos _)]
    refine .inl ?_
    simp only [hwide, ofDouble, Double.isNaN, Double.isInfinite, Double.magnitude,
      Double.word_ofWord hword, Double.isNegative_ofWord hword, Nat.pow_eq, hnarrow]
    rw [if_neg (by simpa using hv.le), if_neg (by simpa using hv.ne), ofWord_word]
  · have hwide : x.toDouble = Double.infinity x.isNegative := by
      rw [toDouble, if_neg infinite.not_gt, if_pos infinite]
    refine .inl ?_
    simp only [hwide, ofDouble, Double.isNaN, Double.isInfinite, Double.infinity,
      Double.word_ofWord hdouble, Double.isNegative_ofWord hdouble, infinity]
    simp [← infinite, ofWord_word]
  · have hnan : Double.nan.word < 2 ^ 63 := by decide
    have hwide : x.toDouble = Double.ofWord x.isNegative Double.nan.word := by
      rw [toDouble, if_pos none]
    have hnarrow : ofDouble x.toDouble =
        ofWord x.isNegative (BinaryFormat.single.infinity + 2 ^ 22) := by
      have hisNaN : x.toDouble.isNaN = true := by
        rw [hwide, Double.isNaN, Double.word_ofWord hnan]
        decide
      rw [ofDouble, if_pos hisNaN, hwide, Double.isNegative_ofWord hnan, Nat.pow_eq]
    have hword : BinaryFormat.single.infinity + 2 ^ 22 < 2 ^ 31 := by decide
    rw [hnarrow]
    refine .inr ⟨none, ?_, (isNegative_ofWord hword).symm⟩
    rw [word_ofWord hword]
    decide

end Single

end TypedQuery
