import TypedQuery.Expr.Arithmetic
import TypedQuery.Proofs.Number.Words

/-!
# Arithmetic on words

Operations on two integers give the result in whole numbers where a word has room for it, and an
error else. Two of them take the word as it is. A shift to the left cuts off what exceeds the word,
so it fails for no number of places below the width; and no remainder is taken where the quotient
does not fit.
-/

namespace TypedQuery

namespace BinaryOp

/-- The operators on whole numbers. The others compare or work on single bits. -/
def wholeNumberOps : List BinaryOp := [add, sub, mul, div, rem, shiftLeft, shiftRight]

/-- The number is the result of an operation on whole numbers. A quotient is truncated toward zero,
and its remainder has the sign of the dividend. Shifts are by 0 to 63 places, and one to the right
rounds down. -/
def Result : BinaryOp → Int → Int → Int → Prop
  | add, a, b, n => n = a + b
  | sub, a, b, n => n = a - b
  | mul, a, b, n => n = a * b
  | div, a, b, n => b ≠ 0 ∧ n = a.tdiv b
  | rem, a, b, n => b ≠ 0 ∧ n = a.tmod b
  | shiftLeft, a, b, n => (0 ≤ b ∧ b < 64) ∧ n = a * 2 ^ b.toNat
  | shiftRight, a, b, n => (0 ≤ b ∧ b < 64) ∧ n = ⌊(a / 2 ^ b.toNat : ℚ)⌋
  | _, _, _, _ => False

/-- What a word keeps of a result. -/
def kept : BinaryOp → Int → Int
  | shiftLeft, n => n.bmod (2 ^ 64)
  | _, n => n

theorem kept_toInt (op : BinaryOp) (w : Int64) : op.kept w.toInt = w.toInt := by
  unfold kept
  split
  · exact Number.toInt_bmod w
  · rfl

end BinaryOp

namespace Value

open BinaryOp

variable {op : BinaryOp} {a b r : Int64} {n : Int} {e : EvaluationError}

/-- The one remainder whose quotient does not fit. -/
def QuotientExceeds (op : BinaryOp) (a b : Int64) : Prop :=
  op = .rem ∧ a = Int64.minValue ∧ b = -1

theorem toInt_eq_zero_iff : b.toInt = 0 ↔ b = 0 := Int64.toInt_inj (y := 0)

theorem exactly_ok_iff : exactly a op b n = .ok r ↔ r.toInt = n := by
  rw [← Number.word?_eq_some_iff, exactly]
  cases Number.word? n <;> simp

theorem exactly_error (h : exactly a op b n = .error e) : e = .overflow a.toInt op b.toInt := by
  unfold exactly at h
  split at h
  · cases h
  · exact (Except.error.inj h).symm

theorem applyShift_error (h : applyShift op a b = .error e) :
    e = .overflow a.toInt op b.toInt := by
  unfold applyShift at h
  split at h
  · cases h
  · exact (Except.error.inj h).symm

theorem applyInteger_div_ok_iff : applyInteger .div a b = .ok r ↔
    b.toInt ≠ 0 ∧ r.toInt = a.toInt.tdiv b.toInt := by
  rw [applyInteger, ne_eq, toInt_eq_zero_iff]
  split
  · simp_all
  · simp_all [exactly_ok_iff]

theorem applyInteger_rem_ok_iff : applyInteger .rem a b = .ok r ↔
    ¬ QuotientExceeds .rem a b ∧ b.toInt ≠ 0 ∧ r.toInt = a.toInt.tmod b.toInt := by
  rw [applyInteger, ne_eq, toInt_eq_zero_iff, QuotientExceeds]
  split
  · simp_all
  split
  · simp_all
  · simp_all [exactly_ok_iff]

theorem applyInteger_shiftLeft_ok_iff : applyInteger .shiftLeft a b = .ok r ↔
    (0 ≤ b.toInt ∧ b.toInt < 64) ∧
      r.toInt = (a.toInt * 2 ^ b.toInt.toNat).bmod (2 ^ 64) := by
  rw [applyInteger, applyShift]
  split
  · rename_i places
    rw [if_pos rfl, ← Number.toInt_shiftLeft places, Int64.toInt_inj, Except.ok.injEq, eq_comm]
    exact ⟨fun value => ⟨places, value⟩, And.right⟩
  · rename_i outside
    exact ⟨nofun, fun value => (outside value.1).elim⟩

theorem applyInteger_shiftRight_ok_iff : applyInteger .shiftRight a b = .ok r ↔
    (0 ≤ b.toInt ∧ b.toInt < 64) ∧ r.toInt = ⌊(a.toInt / 2 ^ b.toInt.toNat : ℚ)⌋ := by
  rw [applyInteger, applyShift]
  split
  · rename_i places
    rw [if_neg (by decide), ← Number.toInt_shiftRight places, Int64.toInt_inj, Except.ok.injEq,
      eq_comm]
    exact ⟨fun value => ⟨places, value⟩, And.right⟩
  · rename_i outside
    exact ⟨nofun, fun value => (outside value.1).elim⟩

/-- An operation succeeds exactly if there is a result in whole numbers that the word has room
for, or keeps a part of. -/
theorem applyInteger_ok_iff (whole : op ∈ wholeNumberOps) : applyInteger op a b = .ok r ↔
    ¬ QuotientExceeds op a b ∧ ∃ n, op.Result a.toInt b.toInt n ∧ r.toInt = op.kept n := by
  cases op with
  | add | sub | mul => simp [applyInteger, exactly_ok_iff, Result, kept, QuotientExceeds]
  | div => simp [applyInteger_div_ok_iff, Result, kept, QuotientExceeds]
  | rem => simp [applyInteger_rem_ok_iff, Result, kept]
  | shiftLeft => simp [applyInteger_shiftLeft_ok_iff, Result, kept, QuotientExceeds, and_assoc]
  | shiftRight => simp [applyInteger_shiftRight_ok_iff, Result, kept, QuotientExceeds, and_assoc]
  | eq | ne | gt | gte | lt | lte | bitAnd | bitOr | bitXor => simp [wholeNumberOps] at whole

/-- All that can be wrong with an operation is a division by zero or a result that exceeds the
word. -/
theorem applyInteger_error (h : applyInteger op a b = .error e) :
    e = if (op = .div ∨ op = .rem) ∧ b = 0 then .divisionByZero
      else .overflow a.toInt op b.toInt := by
  cases op with
  | add | sub | mul => exact (exactly_error h).trans (if_neg (by simp)).symm
  | shiftLeft | shiftRight => exact (applyShift_error h).trans (if_neg (by simp)).symm
  | div =>
      rw [applyInteger] at h
      split at h
      · rename_i zero
        exact (Except.error.inj h).symm.trans (if_pos ⟨.inl rfl, zero⟩).symm
      · rename_i nonzero
        exact (exactly_error h).trans (if_neg fun zero => nonzero zero.2).symm
  | rem =>
      rw [applyInteger] at h
      split at h
      · rename_i zero
        exact (Except.error.inj h).symm.trans (if_pos ⟨.inr rfl, zero⟩).symm
      · rename_i nonzero
        rw [if_neg fun zero => nonzero zero.2]
        split at h
        · exact (Except.error.inj h).symm
        · exact exactly_error h
  | bitAnd | bitOr | bitXor => cases h
  | eq | ne | gt | gte | lt | lte => exact (Except.error.inj h).symm.trans (if_neg (by simp)).symm

/-- Operations are exact where the word has room for the result, but for the remainder whose
quotient exceeds the word. They succeed in no other case but that of a shift to the left, which
keeps the lowest 64 bits, and name what is wrong in all others. -/
theorem applyInteger_exact (op : BinaryOp) (whole : op ∈ wholeNumberOps) (a b : Int64) :
    (∀ r : Int64, op.Result a.toInt b.toInt r.toInt → ¬ QuotientExceeds op a b →
      applyInteger op a b = .ok r) ∧
    (∀ r, applyInteger op a b = .ok r ↔
      ¬ QuotientExceeds op a b ∧ ∃ n, op.Result a.toInt b.toInt n ∧ r.toInt = op.kept n) ∧
    ∀ e, applyInteger op a b = .error e →
      e = if (op = .div ∨ op = .rem) ∧ b = 0 then .divisionByZero
        else .overflow a.toInt op b.toInt := by
  refine ⟨fun r result fits => ?_, fun r => applyInteger_ok_iff whole,
    fun e => applyInteger_error⟩
  exact (applyInteger_ok_iff whole).2 ⟨fits, _, result, (op.kept_toInt r).symm⟩

theorem negative_remainder_exact : BinaryOp.rem ∈ wholeNumberOps ∧
    Result .rem (-7) 2 (-1) ∧ applyInteger .rem (-7) 2 = .ok (-1) := by
  have result : Result .rem (-7) 2 (-1) := ⟨by decide, by decide⟩
  have fits : ¬ QuotientExceeds .rem (-7) 2 := by
    rintro ⟨-, dividend, -⟩
    revert dividend
    decide
  have whole : BinaryOp.rem ∈ wholeNumberOps := by decide
  exact ⟨whole, result, (applyInteger_exact .rem whole (-7) 2).1 (-1) result fits⟩

/-- A shift to the left loses the digit that leaves the word, and no remainder by minus one is taken
of the least word, though it is zero. -/
theorem shift_and_remainder_inexact :
    applyInteger .shiftLeft 1 63 = .ok Int64.minValue ∧
      (∀ r : Int64, ¬ Result .shiftLeft (1 : Int64).toInt (63 : Int64).toInt r.toInt) ∧
      Result .rem Int64.minValue.toInt (-1 : Int64).toInt (0 : Int64).toInt ∧
      applyInteger .rem Int64.minValue (-1) =
        .error (.overflow (-9223372036854775808) .rem (-1)) := by
  refine ⟨by decide, fun r result => ?_, ⟨by decide, by decide⟩, by decide⟩
  have value : r.toInt = 2 ^ 63 := result.2
  have below := r.toInt_lt
  omega

end Value

end TypedQuery
