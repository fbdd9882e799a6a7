import Mathlib.Order.Nat
import TypedQuery.Number.Scaled
import TypedQuery.Text.Blank

/-!
# Digits that are read back

The digits of a number stand for that number, whatever zeros are in front of them, and no white
space is trimmed from them. So the text of a whole number is read back as that number, and the text
of a decimal with its coefficient and its scale. Only the sign of a zero is lost.
-/

namespace TypedQuery

namespace Number

theorem isDigit_of_mem_digits {n : Nat} {c : Char} (h : c ∈ digits n) : c.isDigit = true :=
  Nat.isDigit_of_mem_toDigits (by decide) (by decide) h

theorem digits_ne_nil (n : Nat) : digits n ≠ [] := Nat.toDigits_ne_nil

theorem digits_injective {m n : Nat} (h : digits m = digits n) : m = n := by
  rw [← Nat.ofDigitChars_ten_toDigits (n := m), ← Nat.ofDigitChars_ten_toDigits (n := n)]
  exact congrArg (Nat.ofDigitChars 10 · 0) h

/-- A number and what is behind a character after it are both told from the characters. -/
theorem digits_append_inj {m n : Nat} {c : Char} {cs ds : List Char} (hc : c.isDigit = false)
    (h : digits m ++ c :: cs = digits n ++ c :: ds) : m = n ∧ cs = ds := by
  have number (k : Nat) (es : List Char) :
      (digits k ++ c :: es).takeWhile Char.isDigit = digits k := by
    rw [List.takeWhile_append_of_pos fun d hd => isDigit_of_mem_digits hd]
    simp [List.takeWhile, hc]
  have hdigits : digits m = digits n := by
    rw [← number m cs, h, number]
  rw [hdigits] at h
  exact ⟨digits_injective hdigits, (List.cons.inj (List.append_cancel_left h)).2⟩

theorem toList_numbered (stem : String) (n : Nat) :
    (numbered stem n).toList = stem.toList ++ digits n := by
  simp [numbered, textOfNat]

theorem numbered_injective {stem : String} {i j : Nat}
    (h : numbered stem i = numbered stem j) : i = j := by
  have hlist := congrArg String.toList h
  rw [toList_numbered, toList_numbered] at hlist
  exact digits_injective (List.append_cancel_left hlist)

theorem ofDigits_digits (n : Nat) : ofDigits (digits n) = n := Nat.ofDigitChars_ten_toDigits

/-- A digit is none of the other characters in numbers. -/
theorem ne_of_isDigit {c d : Char} (hc : c.isDigit = true) (hd : d.isDigit = false) : c ≠ d := by
  rintro rfl
  rw [hc] at hd
  cases hd

theorem toNat_of_isDigit {c : Char} (h : c.isDigit = true) : 48 ≤ c.toNat ∧ c.toNat ≤ 57 := by
  simpa [Char.isDigit, UInt32.le_iff_toNat_le] using h

theorem toLower_of_isDigit {c : Char} (h : c.isDigit = true) : c.toLower = c := by
  have hc := toNat_of_isDigit h
  refine dif_neg ?_
  rintro ⟨upper, -⟩
  have : 65 ≤ c.toNat := by simpa [UInt32.le_iff_toNat_le] using upper
  omega

theorem isBlank_of_isDigit {c : Char} (h : c.isDigit = true) : Text.isBlank c = false := by
  have hc := toNat_of_isDigit h
  simp only [Text.isBlank, Bool.or_eq_false_iff, Bool.and_eq_false_iff, decide_eq_false_iff_not,
    beq_eq_false_iff_ne]
  omega

theorem trim_of_unblank {cs : List Char} (h : ∀ c ∈ cs, Text.isBlank c = false) :
    Text.trim cs = cs := by
  have unblank {cs : List Char} (h : ∀ c ∈ cs, Text.isBlank c = false) :
      cs.dropWhile Text.isBlank = cs := by
    cases cs with
    | nil => rfl
    | cons c cs => exact List.dropWhile_cons_of_neg (by simp [h c List.mem_cons_self])
  rw [Text.trim, unblank h, unblank fun c hc => h c (List.mem_reverse.1 hc), List.reverse_reverse]

theorem trim_digits (n : Nat) : Text.trim (digits n) = digits n :=
  trim_of_unblank fun _ hc => isBlank_of_isDigit (isDigit_of_mem_digits hc)

theorem readNat?_digits (n : Nat) : readNat? (digits n) = some n := by
  rw [readNat?, if_pos ⟨digits_ne_nil n, List.all_eq_true.2 fun c => isDigit_of_mem_digits⟩,
    ofDigits_digits]

theorem readUnsigned?_digits (n : Nat) : readUnsigned? (digits n) = some n := by
  unfold readUnsigned?
  split
  · rename_i hplus
    have hdigit := isDigit_of_mem_digits (n := n) (by rw [hplus]; exact List.mem_cons_self)
    exact absurd rfl (ne_of_isDigit hdigit (by decide))
  · exact readNat?_digits n

theorem toList_textOfInt_ofNat (n : Nat) : (textOfInt n).toList = digits n :=
  String.toList_ofList

theorem toList_textOfInt_negSucc (n : Nat) :
    (textOfInt (Int.negSucc n)).toList = '-' :: digits (n + 1) := by
  simp [textOfInt, textOfNat]

/-- The text of an integer is read back. -/
theorem readInt?_textOfInt (n : Int) : readInt? (textOfInt n).toList = some n := by
  cases n with
  | ofNat n =>
      rw [Int.ofNat_eq_natCast, toList_textOfInt_ofNat]
      unfold readInt?
      split
      · rename_i hminus
        have hdigit := isDigit_of_mem_digits (n := n) (by rw [hminus]; exact List.mem_cons_self)
        exact absurd rfl (ne_of_isDigit hdigit (by decide))
      · rw [readUnsigned?_digits]
        rfl
  | negSucc n =>
      rw [toList_textOfInt_negSucc, readInt?, readNat?_digits]
      rfl

theorem trim_textOfInt (n : Int) : Text.trim (textOfInt n).toList = (textOfInt n).toList := by
  cases n with
  | ofNat n => exact (toList_textOfInt_ofNat n).symm ▸ trim_digits n
  | negSucc n =>
      rw [toList_textOfInt_negSucc]
      refine trim_of_unblank (List.forall_mem_cons.2 ⟨by decide, fun c hc => ?_⟩)
      exact isBlank_of_isDigit (isDigit_of_mem_digits hc)

/-- The text of a word of 64 bits is read back. -/
theorem readWord?_textOfInt (w : Int64) : readWord? (textOfInt w.toInt).toList = some w := by
  rw [readWord?, readInt?_textOfInt]
  exact word?_toInt w

end Number

namespace ScaledDecimal

variable {point started : Bool} {coefficient scale : Nat} {ds rest : List Char}

theorem le_ofDigitChars (n : Nat) (ds : List Char) : n ≤ Nat.ofDigitChars 10 ds n := by
  induction ds generalizing n with
  | nil => exact Nat.le_refl _
  | cons d ds ih =>
      rw [Nat.ofDigitChars_cons]
      exact Nat.le_trans (by omega) (ih _)

/-- Digits that fit are read one after the other. -/
theorem readFrom?_digits (digits : ∀ c ∈ ds, c.isDigit = true)
    (fits : Nat.ofDigitChars 10 ds coefficient < bound)
    (room : point = true → scale + ds.length ≤ 28) :
    readFrom? point started coefficient scale (ds ++ rest) =
      readFrom? point (started || !ds.isEmpty) (Nat.ofDigitChars 10 ds coefficient)
        (if point then scale + ds.length else scale) rest := by
  induction ds generalizing started coefficient scale with
  | nil => simp
  | cons d ds ih =>
      obtain ⟨hd, hds⟩ := List.forall_mem_cons.1 digits
      rw [Nat.ofDigitChars_cons] at fits
      have hnext : coefficient * 10 + (d.toNat - '0'.toNat) =
          10 * coefficient + (d.toNat - '0'.toNat) := by
        rw [Nat.mul_comm]
      have inside : ¬ (point && decide (28 ≤ scale)) = true := by
        rintro full
        simp only [Bool.and_eq_true, decide_eq_true_eq] at full
        have := room full.1
        rw [List.length_cons] at this
        omega
      have below : coefficient * 10 + (d.toNat - '0'.toNat) < bound := by
        rw [hnext]
        exact Nat.lt_of_le_of_lt (le_ofDigitChars _ ds) fits
      have next : readFrom? point started coefficient scale (d :: (ds ++ rest)) =
          readFrom? point true (10 * coefficient + (d.toNat - '0'.toNat))
            (if point then scale + 1 else scale) (ds ++ rest) := by
        rw [readFrom?, if_neg inside, if_pos hd, if_pos below, hnext]
      rw [List.cons_append, next, ih hds fits, Nat.ofDigitChars_cons]
      · cases point <;> simp [Nat.add_assoc, Nat.add_comm 1]
      · rintro rfl
        have := room rfl
        rw [List.length_cons] at this
        simpa [Nat.add_assoc, Nat.add_comm 1] using this

/-- Digits in front of a point, at least one of them. -/
theorem readFrom?_whole (nonempty : ds ≠ []) (digits : ∀ c ∈ ds, c.isDigit = true)
    (fits : Nat.ofDigitChars 10 ds 0 < bound) :
    readFrom? false false 0 0 (ds ++ rest) =
      readFrom? false true (Nat.ofDigitChars 10 ds 0) 0 rest := by
  rw [readFrom?_digits digits fits (fun h => absurd h (by decide)),
    List.isEmpty_eq_false_iff.2 nonempty]
  rfl

/-- A point and the digits behind it, which are counted. -/
theorem readFrom?_fraction (digits : ∀ c ∈ ds, c.isDigit = true)
    (fits : Nat.ofDigitChars 10 ds coefficient < bound) (room : ds.length ≤ 28) :
    readFrom? false true coefficient 0 ('.' :: ds) =
      some (Nat.ofDigitChars 10 ds coefficient, ds.length) := by
  have hpoint : readFrom? false true coefficient 0 ('.' :: ds) =
      readFrom? true true coefficient 0 (ds ++ []) := by
    simp [readFrom?]
  rw [hpoint, readFrom?_digits digits fits fun _ => by rwa [Nat.zero_add], if_pos rfl,
    Nat.zero_add]
  rfl

/-- Both have the same digits and the same places behind the point, and one sign unless they are
zero. -/
structure Same (d d' : ScaledDecimal) : Prop where
  coefficient : d'.coefficient = d.coefficient
  scale : d'.scale = d.scale
  negative : d'.negative = d.negative ∨ d.coefficient = 0

/-- The digits that a decimal is written with, at least one of them in front of the point. -/
def written (d : ScaledDecimal) : List Char := (Number.padded (d.scale + 1) d.coefficient).toList

theorem isDigit_of_mem_written {d : ScaledDecimal} {c : Char} (h : c ∈ d.written) :
    c.isDigit = true := by
  rw [written, Number.padded, String.toList_ofList] at h
  rcases List.mem_append.1 h with hzero | hdigit
  · rw [List.eq_of_mem_replicate hzero]
    rfl
  · exact Number.isDigit_of_mem_digits hdigit

theorem scale_lt_length_written (d : ScaledDecimal) : d.scale < d.written.length := by
  rw [written, Number.padded, String.toList_ofList, List.length_append, List.length_replicate]
  omega

theorem ofDigitChars_written (d : ScaledDecimal) :
    Nat.ofDigitChars 10 d.written 0 = d.coefficient := by
  rw [written, Number.padded, String.toList_ofList, Nat.ofDigitChars_append,
    Nat.ofDigitChars_replicate_zero, Nat.mul_zero]
  exact Nat.ofDigitChars_ten_toDigits

/-- The text of a decimal without its sign. -/
def writtenText (d : ScaledDecimal) : List Char :=
  d.written.take (d.written.length - d.scale) ++
    if d.scale = 0 then [] else '.' :: d.written.drop (d.written.length - d.scale)

/-- The digits in front of the point are read first, then those behind it. -/
theorem readFrom?_writtenText (d : ScaledDecimal) :
    readFrom? false false 0 0 d.writtenText = some (d.coefficient, d.scale) := by
  have hlt := d.scale_lt_length_written
  have hvalue := d.ofDigitChars_written
  have hdigit {cs : List Char} (h : cs ⊆ d.written) : ∀ c ∈ cs, c.isDigit = true :=
    fun c hc => isDigit_of_mem_written (h hc)
  unfold writtenText
  generalize hk : d.written.length - d.scale = k
  rw [← List.take_append_drop k d.written, Nat.ofDigitChars_append] at hvalue
  have hfits := d.coefficient_lt
  rw [← hvalue] at hfits
  have hlength : (d.written.drop k).length = d.scale := by
    rw [List.length_drop]
    omega
  have hnonempty : d.written.take k ≠ [] := by
    rw [← List.length_pos_iff, List.length_take]
    omega
  rw [readFrom?_whole hnonempty (hdigit (List.take_subset _ _))
    (Nat.lt_of_le_of_lt (le_ofDigitChars _ _) hfits)]
  by_cases hscale : d.scale = 0
  · have hnone : d.written.drop k = [] := List.length_eq_zero_iff.1 (hlength.trans hscale)
    rw [hnone, Nat.ofDigitChars_nil] at hvalue
    rw [if_pos hscale, hscale, hvalue]
    rfl
  · have hroom : (d.written.drop k).length ≤ 28 := hlength ▸ d.scale_le
    rw [if_neg hscale, readFrom?_fraction (hdigit (List.drop_subset _ _)) hfits hroom, hvalue,
      hlength]

theorem exists_cons_writtenText (d : ScaledDecimal) :
    ∃ c cs, d.writtenText = c :: cs ∧ c.isDigit = true := by
  have hlt := d.scale_lt_length_written
  obtain ⟨c, cs, hcs⟩ : ∃ c cs, d.written.take (d.written.length - d.scale) = c :: cs := by
    refine List.exists_cons_of_ne_nil fun hnil => ?_
    have hlength := congrArg List.length hnil
    rw [List.length_take, List.length_nil] at hlength
    omega
  have hc : c ∈ d.written := List.take_subset _ _ (hcs ▸ List.mem_cons_self)
  exact ⟨c, _, by rw [writtenText, hcs, List.cons_append], isDigit_of_mem_written hc⟩

theorem toList_text (d : ScaledDecimal) :
    d.text.toList = (if d.negative then ['-'] else []) ++ d.writtenText := by
  unfold text writtenText written
  cases d.negative <;> by_cases hscale : d.scale = 0 <;> simp [hscale]

/-- A sign is read in front of a digit. -/
theorem readPlain?_signed (negative : Bool) {c : Char} {cs : List Char} (h : c.isDigit = true) :
    readPlain? ((if negative then ['-'] else []) ++ c :: cs) =
      (readFrom? false false 0 0 (c :: cs)).bind fun (coefficient, scale) =>
        ofParts? (negative && coefficient != 0) coefficient scale := by
  cases negative with
  | true => rfl
  | false =>
      simp only [Bool.false_eq_true, if_false, List.nil_append]
      have hminus : c ≠ '-' := Number.ne_of_isDigit h (by decide)
      have hplus : c ≠ '+' := Number.ne_of_isDigit h (by decide)
      simp [readPlain?, hminus, hplus]

/-- The text of a decimal is read back, but for the sign of a zero. -/
theorem read?_text (d : ScaledDecimal) : ∃ d', read? d.text.toList = some d' ∧ d.Same d' := by
  obtain ⟨c, cs, hcs, hdigit⟩ := d.exists_cons_writtenText
  have hread : readPlain? d.text.toList =
      ofParts? (d.negative && d.coefficient != 0) d.coefficient d.scale := by
    rw [toList_text, hcs, readPlain?_signed _ hdigit, ← hcs, readFrom?_writtenText]
    rfl
  refine ⟨⟨d.negative && d.coefficient != 0, d.coefficient, d.scale, d.coefficient_lt, d.scale_le⟩,
    ?_, rfl, rfl, ?_⟩
  · rw [read?, hread, ofParts?, dif_pos ⟨d.coefficient_lt, d.scale_le⟩]
    rfl
  · by_cases hzero : d.coefficient = 0
    · exact .inr hzero
    · exact .inl (by simp [hzero])

end ScaledDecimal

end TypedQuery
