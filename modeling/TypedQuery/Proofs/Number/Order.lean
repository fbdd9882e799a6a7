import Mathlib.Order.Monotone.Basic
import Mathlib.Order.Defs.LinearOrder
import TypedQuery.Proofs.Number.Representable
import TypedQuery.Proofs.Value.SameKey

/-!
# The order of rounded numbers

Rounding keeps the order of numbers, though it may give one number for two. So integers that become
different numbers are ordered as these are, and those of at most 53 binary digits become different
numbers if they are different.
-/

namespace TypedQuery

theorem le_roundHalfEven (num den : Nat) : num / den ≤ roundHalfEven num den := by
  unfold roundHalfEven
  dsimp only
  split <;> omega

theorem roundHalfEven_le (num den : Nat) : roundHalfEven num den ≤ num / den + 1 := by
  unfold roundHalfEven
  dsimp only
  split <;> omega

theorem roundHalfEven_mono {den a b : Nat} (h : a ≤ b) :
    roundHalfEven a den ≤ roundHalfEven b den := by
  have quotients := Nat.div_le_div_right (c := den) h
  rcases Nat.lt_or_eq_of_le quotients with lt | eq
  · calc roundHalfEven a den ≤ a / den + 1 := roundHalfEven_le a den
      _ ≤ b / den := lt
      _ ≤ roundHalfEven b den := le_roundHalfEven b den
  · -- with one quotient, the larger number has the larger remainder
    have remainders : a % den ≤ b % den := by
      have ha := Nat.div_add_mod a den
      have hb := Nat.div_add_mod b den
      rw [eq] at ha
      omega
    unfold roundHalfEven
    rw [eq]
    dsimp only
    split <;> split <;> omega

namespace BinaryFormat

variable {f : BinaryFormat} {a b den : Nat}

/-- The exponent that a quotient is rounded with. -/
def excess (f : BinaryFormat) (num den : Nat) : Nat := (num / den).log2 - f.fractionBits

theorem round_eq (f : BinaryFormat) (num den : Nat) : f.round num den =
    min (f.wordOf (f.excess num den) (roundHalfEven num (den * 2 ^ f.excess num den))) f.infinity :=
  rfl

/-- A significand has at most one digit more than the fraction, or is the least one with two. -/
theorem significand_le (f : BinaryFormat) (num den : Nat) :
    roundHalfEven num (den * 2 ^ f.excess num den) ≤ 2 ^ (f.fractionBits + 1) := by
  have digits : num / den < 2 ^ (f.fractionBits + 1 + f.excess num den) := by
    refine Nat.lt_log2_self.trans_le (Nat.pow_le_pow_right (by decide) ?_)
    unfold excess
    omega
  have quotient : num / (den * 2 ^ f.excess num den) < 2 ^ (f.fractionBits + 1) := by
    rw [← Nat.div_div_eq_div_mul]
    exact Nat.div_lt_of_lt_mul (by rwa [← Nat.pow_add, Nat.add_comm])
  exact (roundHalfEven_le _ _).trans quotient

/-- A significand has its leading digit, unless the exponent is the least one. -/
theorem le_significand (f : BinaryFormat) (num den : Nat) (h : f.excess num den ≠ 0) :
    2 ^ f.fractionBits ≤ roundHalfEven num (den * 2 ^ f.excess num den) := by
  have hlog : (num / den).log2 = f.fractionBits + f.excess num den := by
    unfold excess at h ⊢
    omega
  have nonzero : num / den ≠ 0 := by
    intro zero
    rw [excess, zero, Nat.log2_zero, Nat.zero_sub] at h
    exact h rfl
  have digits := Nat.log2_self_le nonzero
  rw [hlog, Nat.pow_add] at digits
  have quotient : 2 ^ f.fractionBits ≤ num / (den * 2 ^ f.excess num den) := by
    rw [← Nat.div_div_eq_div_mul]
    exact (Nat.le_div_iff_mul_le (Nat.two_pow_pos _)).2 digits
  exact quotient.trans (le_roundHalfEven _ _)

theorem log2_mono {a b : Nat} (h : a ≤ b) : a.log2 ≤ b.log2 := by
  rcases Nat.eq_zero_or_pos a with rfl | pos
  · simp
  · exact (Nat.le_log2 (pos.trans_le h).ne').2 ((Nat.log2_self_le pos.ne').trans h)

/-- Rounding keeps the order of quotients by one number. -/
theorem round_mono (den : Nat) (h : a ≤ b) : f.round a den ≤ f.round b den := by
  have exponents : f.excess a den ≤ f.excess b den :=
    Nat.sub_le_sub_right (log2_mono (Nat.div_le_div_right h)) _
  rw [round_eq, round_eq]
  refine min_le_min_right _ ?_
  rcases Nat.lt_or_eq_of_le exponents with lt | eq
  · -- what the significand of the lower exponent lacks, the exponent has
    have upper := f.significand_le a den
    have lower := f.le_significand b den (by omega)
    have step := Nat.mul_le_mul_right (2 ^ f.fractionBits) (Nat.succ_le_of_lt lt)
    rw [Nat.pow_succ] at upper
    rw [Nat.succ_mul] at step
    unfold wordOf
    omega
  · rw [eq]
    exact Nat.add_le_add_left (roundHalfEven_mono h) _

end BinaryFormat

namespace Double

open BinaryFormat

variable {m n : Int}

/-- The word of a whole number without its sign. -/
def wordOfNat (n : Nat) : Nat := double.round (n * 2 ^ scale) 1

theorem wordOfNat_mono : Monotone wordOfNat :=
  fun _ _ h => round_mono 1 (Nat.mul_le_mul_right _ h)

theorem wordOfNat_lt (n : Nat) : wordOfNat n < 2 ^ 63 := by
  have hle : wordOfNat n ≤ double.infinity := min_le_right _ _
  exact hle.trans_lt (by decide)

theorem wordOfNat_pos {n : Nat} (h : 0 < n) : 0 < wordOfNat n := by
  have one : 0 < wordOfNat 1 := by decide +kernel
  exact one.trans_le (wordOfNat_mono h)

theorem ofInt_eq (n : Int) : ofInt n = ofWord (n < 0) (wordOfNat n.natAbs) := by
  rw [ofInt, ofRatio, ofUnits, Nat.pow_eq, wordOfNat]

theorem word_ofInt (n : Int) : (ofInt n).word = wordOfNat n.natAbs := by
  rw [ofInt_eq, word_ofWord (wordOfNat_lt _)]

theorem isNegative_ofInt (n : Int) : (ofInt n).isNegative = decide (n < 0) := by
  rw [ofInt_eq, isNegative_ofWord (wordOfNat_lt _)]

theorem isNaN_ofInt (n : Int) : (ofInt n).isNaN = false := by
  have hle : wordOfNat n.natAbs ≤ double.infinity := min_le_right _ _
  rw [isNaN, word_ofInt]
  exact decide_eq_false hle.not_gt

theorem rank_ofInt (n : Int) : (ofInt n).rank =
    if n < 0 then -(wordOfNat n.natAbs : Int) else wordOfNat n.natAbs := by
  simp only [rank, isNegative_ofInt, word_ofInt, decide_eq_true_eq]

theorem rank_ofInt_mono (m n : Int) (h : m ≤ n) : (ofInt m).rank ≤ (ofInt n).rank := by
  rw [rank_ofInt, rank_ofInt]
  split <;> split
  · have := wordOfNat_mono (show n.natAbs ≤ m.natAbs by omega)
    omega
  · omega
  · omega
  · have := wordOfNat_mono (show m.natAbs ≤ n.natAbs by omega)
    omega

/-- Whole numbers with one place in the order became one number. -/
theorem ofInt_eq_of_rank (h : (ofInt m).rank = (ofInt n).rank) : ofInt m = ofInt n := by
  rw [rank_ofInt, rank_ofInt] at h
  have pos {n : Int} (negative : n < 0) : 0 < wordOfNat n.natAbs := wordOfNat_pos (by omega)
  rw [ofInt_eq, ofInt_eq]
  by_cases hm : m < 0 <;> by_cases hn : n < 0 <;> simp only [hm, hn, if_true, if_false] at h ⊢
  · rw [show wordOfNat m.natAbs = wordOfNat n.natAbs by omega]
  · have := pos hm
    omega
  · have := pos hn
    omega
  · rw [show wordOfNat m.natAbs = wordOfNat n.natAbs by omega]

/-- A function that keeps the order takes numbers that it does not make one to their order. -/
theorem compare_map {f : Int → Int} (mono : ∀ m n, m ≤ n → f m ≤ f n) (m n : Int) :
    compare (f m) (f n) = if f m = f n then .eq else compare m n := by
  split
  · rename_i one
    exact compare_eq_iff_eq.2 one
  · rename_i two
    rcases lt_trichotomy m n with lt | rfl | gt
    · rw [compare_lt_iff_lt.2 lt, compare_lt_iff_lt.2 ((mono m n lt.le).lt_of_ne two)]
    · exact absurd rfl two
    · rw [compare_gt_iff_gt.2 gt, compare_gt_iff_gt.2 ((mono n m gt.le).lt_of_ne' two)]

/-- Whole numbers are compared as they are, unless they become one number by rounding. -/
theorem compare?_ofInt (m n : Int) : (ofInt m).compare? (ofInt n) =
    some (if ofInt m = ofInt n then .eq else compare m n) := by
  have one : (ofInt m).rank = (ofInt n).rank ↔ ofInt m = ofInt n :=
    ⟨ofInt_eq_of_rank, congrArg rank⟩
  have order := compare_map rank_ofInt_mono m n
  simp only [one] at order
  rw [compare?, isNaN_ofInt, isNaN_ofInt, order]
  rfl

/-- Whole numbers that are numbers of 64 bits are not made one. -/
theorem ofInt_inj (hm : IsDouble m) (hn : IsDouble n) : ofInt m = ofInt n ↔ m = n := by
  constructor
  · intro h
    have values := congrArg Double.value h
    rw [hm.value_ofInt, hn.value_ofInt] at values
    exact_mod_cast values
  · rintro rfl
    rfl

end Double

end TypedQuery
