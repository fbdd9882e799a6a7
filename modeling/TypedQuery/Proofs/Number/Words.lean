import Mathlib.Algebra.Order.Floor.Ring
import Mathlib.Data.Rat.Floor
import TypedQuery.Number.Digits

/-!
# Words of 64 bits

A word is a whole number in range, and every number in range is one word. A shift by some places
multiplies or divides by a power of two: to the left what exceeds the word is cut off, to the right
the quotient is rounded down.
-/

namespace TypedQuery.Number

variable {n : Int} {a b w : Int64}

theorem word?_eq_some_iff : word? n = some w ↔ w.toInt = n := by
  refine ⟨toInt_of_word?, ?_⟩
  rintro rfl
  exact word?_toInt w

theorem toInt_bmod (w : Int64) : w.toInt.bmod (2 ^ 64) = w.toInt := by
  have lo := w.le_toInt
  have hi := w.toInt_lt
  exact Int.bmod_eq_of_le (by omega) (by omega)

/-- The number of places of a shift that is less than the width of a word. -/
theorem toNat_places (places : 0 ≤ b.toInt ∧ b.toInt < 64) :
    (b.toBitVec.smod 64).toNat = b.toInt.toNat := by
  have value : (b.toBitVec.smod 64).toInt = b.toInt := by
    rw [BitVec.toInt_smod, Int.fmod_eq_emod_of_nonneg _ (by decide)]
    exact Int.emod_eq_of_lt places.1 places.2
  have nonneg : 0 ≤ (b.toBitVec.smod 64).toInt := value ▸ places.1
  rw [← value, BitVec.toInt_eq_toNat_of_msb, Int.toNat_natCast]
  rwa [BitVec.msb_eq_toInt, decide_eq_false_iff_not, Int.not_lt]

theorem toInt_shiftLeft (places : 0 ≤ b.toInt ∧ b.toInt < 64) :
    (a <<< b).toInt = (a.toInt * 2 ^ b.toInt.toNat).bmod (2 ^ 64) := by
  have value : (a <<< b).toInt =
      ((a.toBitVec.toNat <<< b.toInt.toNat : Nat) : Int).bmod (2 ^ 64) := by
    rw [← toNat_places places, ← BitVec.toInt_shiftLeft, ← BitVec.shiftLeft_eq',
      ← Int64.toBitVec_shiftLeft]
    rfl
  have product : a.toInt.bmod (2 ^ 64) = (a.toBitVec.toNat : Int).bmod (2 ^ 64) := by
    rw [toInt_bmod]
    exact BitVec.toInt_eq_toNat_bmod a.toBitVec
  rw [value, ← Int.bmod_mul_bmod, product, Int.bmod_mul_bmod, Nat.shiftLeft_eq]
  push_cast
  rfl

theorem toInt_shiftRight (places : 0 ≤ b.toInt ∧ b.toInt < 64) :
    (a >>> b).toInt = ⌊(a.toInt / 2 ^ b.toInt.toNat : ℚ)⌋ := by
  have value : (a >>> b).toInt = a.toInt / (2 ^ b.toInt.toNat : Nat) := by
    rw [← Int.shiftRight_eq_div_pow, ← toNat_places places]
    exact (congrArg BitVec.toInt (Int64.toBitVec_shiftRight a b)).trans BitVec.toInt_sshiftRight
  rw [value, ← Rat.floor_intCast_div_natCast]
  push_cast
  rfl

end TypedQuery.Number
