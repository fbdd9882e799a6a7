import Mathlib.Tactic.Positivity
import Mathlib.Tactic.FieldSimp
import Mathlib.Tactic.NormNum
import TypedQuery.Proofs.Number.Numeral
import TypedQuery.Proofs.Number.Rounding

/-!
# Numbers of 64 bits as rationals

A finite number is a rational one, and whole exactly if that is. A rational that is the value of a
finite number is not rounded, whatever quotient it is given as. It is neither so large nor so small
that its digits could not be a quotient, so a decimal that denotes it is read as that number.
-/

namespace TypedQuery

namespace BinaryFormat

/-- A finite number is below a power of two, here in units. -/
theorem magnitude_lt {w : Nat} (h : w < double.infinity) :
    double.magnitude w < 2 ^ (1025 + Double.scale) := by
  obtain ⟨e, k, normal, rfl⟩ := double.exists_wordOf w
  have he : e < 2047 := by
    rw [wordOf, fractionBits_double, infinity_double] at h
    exact Nat.lt_of_mul_lt_mul_right (Nat.lt_of_le_of_lt (Nat.le_add_right _ _) h)
  have hexponent : 53 + e ≤ 1025 + Double.scale := by
    unfold Double.scale
    omega
  calc double.magnitude (double.wordOf e k) = k * 2 ^ e := magnitude_wordOf normal
    _ < 2 ^ 53 * 2 ^ e := Nat.mul_lt_mul_of_pos_right normal.lt (Nat.two_pow_pos e)
    _ = 2 ^ (53 + e) := (Nat.pow_add 2 53 e).symm
    _ ≤ 2 ^ (1025 + Double.scale) := Nat.pow_le_pow_right (by decide) hexponent

end BinaryFormat

namespace Double

variable {x : Double} {n : Int} {q : ℚ}

/-- The value of a finite number. -/
def value (x : Double) : ℚ := x.scaled / 2 ^ scale

theorem value_eq_iff : x.value = q ↔ (x.scaled : ℚ) = q * 2 ^ scale := by
  rw [value, div_eq_iff (by positivity)]

theorem natAbs_scaled (x : Double) : x.scaled.natAbs = x.magnitude := by
  unfold scaled
  split <;> simp

theorem scaled_eq (x : Double) : x.scaled = (if x.isNegative then -1 else 1) * x.magnitude := by
  unfold scaled
  split <;> simp

theorem value_eq_int_iff : x.value = n ↔ x.scaled = n * ((2 ^ scale : Nat) : Int) := by
  rw [value_eq_iff]
  exact_mod_cast Iff.rfl

/-- A number is whole exactly if its value is. -/
theorem toInt?_eq_some_iff : x.toInt? = some n ↔ x.isFinite = true ∧ x.value = n := by
  have unit : 0 < 2 ^ scale := Nat.two_pow_pos scale
  rw [value_eq_int_iff, toInt?, Nat.pow_eq]
  generalize 2 ^ scale = one at unit
  constructor
  · intro h
    split at h
    · rename_i whole
      obtain ⟨finite, rest⟩ := Bool.and_eq_true_iff.1 whole
      have hsplit := Nat.div_mul_cancel (Nat.dvd_of_mod_eq_zero (beq_iff_eq.1 rest))
      obtain rfl := Option.some.inj h
      refine ⟨finite, ?_⟩
      generalize x.magnitude / one = k at hsplit
      rw [scaled_eq, ← hsplit]
      push_cast
      split <;> simp
    · cases h
  · rintro ⟨finite, hscaled⟩
    have size : x.magnitude = n.natAbs * one := by
      rw [← natAbs_scaled, hscaled, Int.natAbs_mul, Int.natAbs_natCast]
    have whole : (x.isFinite && x.magnitude % one == 0) = true := by
      rw [finite, size, Nat.mul_mod_left]
      decide
    rw [if_pos whole, size, Nat.mul_div_cancel _ unit]
    rw [scaled_eq, size, Nat.cast_mul, ← mul_assoc] at hscaled
    have value := Int.eq_of_mul_eq_mul_right (Int.natCast_ne_zero.2 unit.ne') hscaled
    rw [← value]
    split <;> simp

theorem value_ofWord (negative : Bool) {w : Nat} (h : w < BinaryFormat.double.infinity) :
    (ofWord negative w).isFinite = true ∧ ∀ q : ℚ,
      (BinaryFormat.double.magnitude w : ℚ) = |q| * 2 ^ scale →
        (ofWord negative w).value = if negative then -|q| else |q| := by
  have hword : w < 2 ^ 63 := h.trans (by decide)
  constructor
  · rw [isFinite, word_ofWord hword]
    exact decide_eq_true h
  · intro q size
    rw [value_eq_iff, scaled, isNegative_ofWord hword, magnitude, word_ofWord hword]
    split
    · rw [Int.cast_neg, Int.cast_natCast, size, neg_mul]
    · rw [Int.cast_natCast, size]

end Double

/-- The number is one of 64 bits. -/
def IsDouble (q : ℚ) : Prop := ∃ x : Double, x.isFinite = true ∧ x.value = q

namespace IsDouble

open Double BinaryFormat

variable {q : ℚ} {num den : Nat}

/-- The size of the number is that of a word, in units. -/
theorem exists_magnitude (h : IsDouble q) :
    ∃ w < double.infinity, (double.magnitude w : ℚ) = |q| * 2 ^ scale := by
  obtain ⟨x, finite, rfl⟩ := h
  refine ⟨x.word, by simpa [isFinite] using finite, ?_⟩
  have habs : |(x.scaled : ℚ)| = (x.magnitude : ℚ) := by
    rw [← natAbs_scaled, ← Int.cast_abs, Int.abs_eq_natAbs, Int.cast_natCast]
  rw [value, abs_div, habs, abs_of_pos (by positivity : (0 : ℚ) < 2 ^ scale),
    div_mul_cancel₀ _ (by positivity)]
  rfl

/-- Such a number is not rounded. -/
theorem value_ofRatio (negative : Bool) (hden : 0 < den) (h : IsDouble q)
    (size : (num / den : ℚ) = |q|) :
    (ofRatio negative num den).isFinite = true ∧
      (ofRatio negative num den).value = if negative then -|q| else |q| := by
  obtain ⟨w, hw, hmagnitude⟩ := h.exists_magnitude
  have hunits : num * 2 ^ scale = double.magnitude w * den := by
    have heq : (double.magnitude w * den : ℚ) = num * 2 ^ scale := by
      rw [hmagnitude, ← size]
      field_simp
    exact_mod_cast heq.symm
  have hratio : ofRatio negative num den = ofWord negative w := by
    rw [ofRatio, ofUnits, Nat.pow_eq, hunits, round_magnitude hw.le hden]
  obtain ⟨finite, value⟩ := value_ofWord negative hw
  rw [hratio]
  exact ⟨finite, value q hmagnitude⟩

theorem signed_abs (q : ℚ) : (if decide (q < 0) = true then -|q| else |q|) = q := by
  by_cases negative : q < 0
  · rw [if_pos (decide_eq_true negative), abs_of_neg negative, neg_neg]
  · rw [if_neg (by simpa using negative), abs_of_nonneg (not_lt.1 negative)]

/-- A number of which a word has the size, in units, is one of 64 bits. -/
theorem of_magnitude {w : Nat} (hw : w < double.infinity)
    (size : (double.magnitude w : ℚ) = |q| * 2 ^ scale) : IsDouble q := by
  obtain ⟨finite, value⟩ := value_ofWord (decide (q < 0)) hw
  refine ⟨_, finite, ?_⟩
  rw [value q size, signed_abs]

theorem natAbs_eq_abs (n : Int) : (n.natAbs : ℚ) = |(n : ℚ)| := by
  rw [Nat.cast_natAbs, Int.cast_abs]

/-- Whole numbers of at most 53 binary digits are numbers of 64 bits. -/
theorem of_natAbs_le {n : Int} (h : n.natAbs ≤ 2 ^ 53) : IsDouble n := by
  rcases Nat.lt_or_eq_of_le h with small | large
  · have hscale : scale + 2 ≤ 2047 := by decide
    obtain ⟨w, hw, hmagnitude⟩ := exists_magnitude_eq small hscale
    refine of_magnitude hw ?_
    rw [hmagnitude, ← natAbs_eq_abs, Nat.cast_mul, Nat.cast_pow]
    rfl
  · -- the largest of them has one digit more
    have hk : 2 ^ 52 < 2 ^ (double.fractionBits + 1) := by decide
    have hscale : 1 + scale + 2 ≤ 2047 := by decide
    obtain ⟨w, hw, hmagnitude⟩ := exists_magnitude_eq hk hscale
    refine of_magnitude hw ?_
    rw [hmagnitude, ← natAbs_eq_abs, large, Nat.pow_add 2 1, ← Nat.mul_assoc, ← Nat.pow_add,
      Nat.cast_mul, Nat.cast_pow, Nat.cast_pow]
    rfl

/-- A whole number of 64 bits is taken as it is. -/
theorem value_ofInt {n : Int} (h : IsDouble n) : (ofInt n).value = n := by
  have size : (n.natAbs / (1 : Nat) : ℚ) = |(n : ℚ)| := by
    rw [Nat.cast_one, div_one, natAbs_eq_abs]
  have sign : decide (n < 0) = decide ((n : ℚ) < 0) := decide_eq_decide.2 Int.cast_lt_zero.symm
  rw [ofInt, sign, (h.value_ofRatio _ Nat.one_pos size).2, signed_abs]

/-- No finite number has more than 400 digits in front of its point. -/
theorem abs_lt (h : IsDouble q) : |q| < 10 ^ (401 : ℤ) := by
  obtain ⟨w, hw, hmagnitude⟩ := h.exists_magnitude
  have hunits : |q| * 2 ^ scale < 2 ^ 1025 * 2 ^ scale := by
    rw [← hmagnitude, ← pow_add]
    exact_mod_cast magnitude_lt hw
  have hle : (2 : ℚ) ^ 1025 ≤ 10 ^ 401 :=
    calc (2 : ℚ) ^ 1025 ≤ 2 ^ (3 * 401) := pow_le_pow_right₀ (by norm_num) (by norm_num)
      _ = (2 ^ 3) ^ 401 := pow_mul 2 3 401
      _ ≤ 10 ^ 401 := pow_le_pow_left₀ (by norm_num) (by norm_num) 401
  exact (lt_of_mul_lt_mul_right hunits (by positivity)).trans_le hle

/-- No number but zero has 400 zeros behind its point. -/
theorem le_abs (h : IsDouble q) (nonzero : q ≠ 0) : 10 ^ (-400 : ℤ) ≤ |q| := by
  obtain ⟨w, hw, hmagnitude⟩ := h.exists_magnitude
  have hunits : (1 : ℚ) ≤ |q| * 2 ^ scale := by
    have hpos : 0 < |q| * 2 ^ scale := by positivity
    rw [← hmagnitude] at hpos ⊢
    exact_mod_cast hpos
  have hle : (2 : ℚ) ^ scale ≤ 10 ^ 400 :=
    calc (2 : ℚ) ^ scale ≤ 2 ^ (3 * 400) := pow_le_pow_right₀ (by norm_num) (by decide)
      _ = (2 ^ 3) ^ 400 := pow_mul 2 3 400
      _ ≤ 10 ^ 400 := pow_le_pow_left₀ (by norm_num) (by norm_num) 400
  have hpos : (0 : ℚ) < 10 ^ 400 := pow_pos (by norm_num) 400
  rw [zpow_neg]
  exact (inv_le_iff_one_le_mul₀ hpos).2
    (hunits.trans (mul_le_mul_of_nonneg_left hle (abs_nonneg q)))

end IsDouble

namespace Number

open Double

namespace Numeral

variable {d : Numeral}

theorem one_le_ofDigits (nonzero : ofDigits d.digits ≠ 0) : (1 : ℚ) ≤ ofDigits d.digits := by
  exact_mod_cast Nat.one_le_iff_ne_zero.2 nonzero

/-- The power of ten is not too large for a quotient. -/
theorem power_le (h : IsDouble d.value) (nonzero : ofDigits d.digits ≠ 0) : d.power ≤ 400 := by
  by_contra! large
  have hle : 10 ^ (401 : ℤ) ≤ |d.value| :=
    calc (10 : ℚ) ^ (401 : ℤ) ≤ 10 ^ d.power := zpow_le_zpow_right₀ (by norm_num) large
      _ ≤ ofDigits d.digits * 10 ^ d.power :=
          le_mul_of_one_le_left (zpow_pos (by norm_num) _).le (one_le_ofDigits nonzero)
      _ = |d.value| := d.abs_value.symm
  exact absurd h.abs_lt hle.not_gt

/-- Nor is it too small for one. -/
theorem le_power (h : IsDouble d.value) (nonzero : ofDigits d.digits ≠ 0) :
    -400 ≤ d.power + d.digits.length := by
  by_contra! small
  have ten : (10 : ℚ) ≠ 0 := by norm_num
  have hdigits : (ofDigits d.digits : ℚ) < 10 ^ (d.digits.length : ℤ) := by
    exact_mod_cast d.isDigits.ofDigits_lt
  have hvalue : d.value ≠ 0 := by
    rw [← abs_pos, d.abs_value]
    exact mul_pos (one_pos.trans_le (one_le_ofDigits nonzero)) (zpow_pos (by norm_num) _)
  have hlt : |d.value| < 10 ^ (-400 : ℤ) :=
    calc |d.value| = ofDigits d.digits * 10 ^ d.power := d.abs_value
      _ < 10 ^ (d.digits.length : ℤ) * 10 ^ d.power :=
          mul_lt_mul_of_pos_right hdigits (zpow_pos (by norm_num) _)
      _ = 10 ^ (d.power + d.digits.length) := by rw [← zpow_add₀ ten, add_comm]
      _ ≤ 10 ^ (-400 : ℤ) := zpow_le_zpow_right₀ (by norm_num) small.le
  exact absurd (h.le_abs hvalue) hlt.not_ge

/-- The parts of a number of 64 bits are not out of the range that quotients are made in. -/
theorem exists_quotient (h : IsDouble d.value) : ∃ num den, d.parts.quotient? = some (num, den) ∧
    0 < den ∧ (num / den : ℚ) = |d.value| := by
  by_cases zero : ofDigits d.digits = 0
  · refine ⟨0, 1, if_pos (.inl zero), Nat.one_pos, ?_⟩
    rw [d.abs_value, zero]
    simp
  have notSmall : ¬ (ofDigits d.digits = 0 ∨ d.power + d.digits.length < -400) := by
    rintro (digits | small)
    · exact zero digits
    · exact absurd (le_power h zero) small.not_ge
  refine ⟨ofDigits d.digits * 10 ^ d.power.toNat, 10 ^ (-d.power).toNat, ?_, by positivity, ?_⟩
  · rw [DecimalParts.quotient?]
    exact (if_neg notSmall).trans (if_neg (power_le h zero).not_gt)
  · have ten : (10 : ℚ) ≠ 0 := by norm_num
    have hpower : (10 : ℚ) ^ d.power = 10 ^ d.power.toNat / 10 ^ (-d.power).toNat := by
      rw [← zpow_natCast, ← zpow_natCast, ← zpow_sub₀ ten]
      congr 1
      omega
    rw [d.abs_value, hpower]
    push_cast
    rw [mul_div_assoc]

/-- A number of 64 bits is read as it is, however it is written. -/
theorem readDouble?_of_isDouble (h : IsDouble d.value) :
    ∃ x, readDouble? d.text = some x ∧ x.isFinite = true ∧ x.value = d.value := by
  obtain ⟨num, den, hquotient, hden, hvalue⟩ := exists_quotient h
  refine ⟨_, d.readDouble?_text, ?_⟩
  rw [NumberText.toDouble, hquotient]
  obtain ⟨finite, hround⟩ := h.value_ofRatio d.sign.isNegative hden hvalue
  exact ⟨finite, hround.trans d.value_eq_abs.symm⟩

end Numeral

end Number

end TypedQuery
