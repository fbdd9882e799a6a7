import Mathlib.Algebra.Order.Field.Rat
import Mathlib.Algebra.Order.Field.Power
import Mathlib.Tactic.NormNum
import TypedQuery.Number.Reading
import TypedQuery.Proofs.Number.Digits
import TypedQuery.Proofs.Number.Words

/-!
# Decimals in text

A decimal is written with a sign or none, digits with at most one point among them, and an exponent
or none. It denotes a rational number, whatever its digits. Reading finds the parts that it was
written with, and reads no finite number from any other text. A word of 64 bits is read only if
there is neither point nor exponent.
-/

namespace TypedQuery.Number

/-- What stands in front of a number to tell its sign. -/
inductive Sign where
  | none | plus | minus
deriving DecidableEq

namespace Sign

def text : Sign → List Char
  | none => []
  | plus => ['+']
  | minus => ['-']

def isNegative : Sign → Bool
  | minus => true
  | _ => false

/-- The number of a size, with the sign. -/
def apply : Sign → Nat → Int
  | minus, n => -(n : Int)
  | _, n => n

variable {cs : List Char}

/-- There is no sign at the front. -/
def Absent (cs : List Char) : Prop := ∀ c ∈ cs.head?, c ≠ '-' ∧ c ≠ '+'

theorem readInt?_text (s : Sign) (h : Absent cs) :
    readInt? (s.text ++ cs) = (readNat? cs).map s.apply := by
  cases s with
  | minus =>
      show readInt? ('-' :: cs) = _
      rw [readInt?]
      cases readNat? cs <;> rfl
  | plus => rfl
  | none =>
      cases cs with
      | nil => rfl
      | cons c cs =>
          obtain ⟨notMinus, notPlus⟩ := h c rfl
          simp [text, readInt?, readUnsigned?, notMinus, notPlus]
          rfl

theorem readText?_text (s : Sign) (h : Absent cs) :
    readText? (s.text ++ cs) = (readUnsignedText? cs).map fun t => (s.isNegative, t) := by
  cases s with
  | minus => rfl
  | plus => rfl
  | none =>
      cases cs with
      | nil => rfl
      | cons c cs =>
          obtain ⟨notMinus, notPlus⟩ := h c rfl
          simp [text, readText?, notMinus, notPlus, isNegative]

end Sign

/-- Characters that are digits, at least one. -/
structure IsDigits (ds : List Char) : Prop where
  isDigit : ∀ c ∈ ds, c.isDigit = true
  nonempty : ds ≠ []

theorem readNat?_eq_some {ds : List Char} (h : IsDigits ds) : readNat? ds = some (ofDigits ds) := by
  rw [readNat?, if_pos ⟨h.nonempty, List.all_eq_true.2 h.isDigit⟩]

theorem readNat?_eq_none {cs : List Char} {c : Char} (hc : c ∈ cs) (h : c.isDigit = false) :
    readNat? cs = none := by
  rw [readNat?, if_neg]
  rintro ⟨-, digits⟩
  rw [List.all_eq_true.1 digits c hc] at h
  cases h

theorem isDigits_of_readNat? {cs : List Char} {n : Nat} (h : readNat? cs = some n) :
    IsDigits cs := by
  unfold readNat? at h
  split at h
  · rename_i digits
    exact ⟨List.all_eq_true.1 digits.2, digits.1⟩
  · cases h

theorem exists_sign_of_readInt? {cs : List Char} {n : Int} (h : readInt? cs = some n) :
    ∃ (s : Sign) (ds : List Char), IsDigits ds ∧ cs = s.text ++ ds := by
  unfold readInt? at h
  split at h
  · rename_i ds
    obtain ⟨_, hm, -⟩ := Option.map_eq_some_iff.1 h
    obtain ⟨m, hm, -⟩ := Option.bind_eq_some_iff.1 hm
    exact ⟨.minus, ds, isDigits_of_readNat? hm, rfl⟩
  · obtain ⟨m, hm, -⟩ := Option.map_eq_some_iff.1 h
    unfold readUnsigned? at hm
    split at hm
    · exact ⟨.plus, _, isDigits_of_readNat? hm, rfl⟩
    · exact ⟨.none, cs, isDigits_of_readNat? hm, rfl⟩

theorem IsDigits.absent {ds : List Char} (h : IsDigits ds) : Sign.Absent ds := by
  intro c hc
  have digit := h.isDigit c (List.mem_of_mem_head? hc)
  exact ⟨ne_of_isDigit digit (by decide), ne_of_isDigit digit (by decide)⟩

theorem foldl_digits_lt {ds : List Char} (h : ∀ c ∈ ds, c.isDigit = true) (n : Nat) :
    ds.foldl (fun n d => 10 * n + (d.toNat - '0'.toNat)) n < (n + 1) * 10 ^ ds.length := by
  induction ds generalizing n with
  | nil => simp
  | cons c cs ih =>
      have hc : c.toNat - '0'.toNat < 10 := by
        have digit := h c List.mem_cons_self
        have : c.toNat ≤ 57 := by
          simpa [UInt32.le_iff_toNat_le] using (Bool.and_eq_true_iff.1 digit).2
        have : '0'.toNat = 48 := rfl
        omega
      have rest := ih (fun c hc => h c (List.mem_cons_of_mem _ hc)) (10 * n + (c.toNat - '0'.toNat))
      calc _ < (10 * n + (c.toNat - '0'.toNat) + 1) * 10 ^ cs.length := rest
        _ ≤ ((n + 1) * 10) * 10 ^ cs.length := Nat.mul_le_mul_right _ (by omega)
        _ = (n + 1) * 10 ^ (cs.length + 1) := by rw [Nat.pow_succ', Nat.mul_assoc]

/-- Digits stand for a number with at most as many digits. -/
theorem IsDigits.ofDigits_lt {ds : List Char} (h : IsDigits ds) : ofDigits ds < 10 ^ ds.length := by
  have hlt := foldl_digits_lt h.isDigit 0
  rwa [Nat.zero_add, Nat.one_mul] at hlt

/-- A power of ten behind its mark. -/
structure Exponent where
  mark : Char
  sign : Sign
  digits : List Char
  isMark : mark = 'e' ∨ mark = 'E'
  isDigits : IsDigits digits

namespace Exponent

def text (x : Exponent) : List Char := x.mark :: (x.sign.text ++ x.digits)

def value (x : Exponent) : Int := x.sign.apply (ofDigits x.digits)

theorem readExponent?_text (x : Exponent) : readExponent? x.text = some x.value := by
  rw [text, readExponent?, if_pos x.isMark, x.sign.readInt?_text x.isDigits.absent,
    readNat?_eq_some x.isDigits]
  rfl

theorem exists_of_readExponent? {cs : List Char} {n : Int} (h : readExponent? cs = some n) :
    ∃ x : Option Exponent, cs = (x.map Exponent.text).getD [] := by
  unfold readExponent? at h
  split at h
  · exact ⟨none, rfl⟩
  · rename_i c cs
    split at h
    · rename_i mark
      obtain ⟨s, ds, digits, rfl⟩ := exists_sign_of_readInt? h
      exact ⟨some ⟨c, s, ds, mark, digits⟩, rfl⟩
    · cases h

end Exponent

/-- A decimal by the parts of its text. -/
structure Numeral where
  sign : Sign
  whole : List Char
  fraction : Option (List Char)
  exponent : Option Exponent
  isDigits : IsDigits (whole ++ fraction.getD [])

namespace Numeral

variable (d : Numeral)

/-- All digits in front of the exponent. -/
def digits : List Char := d.whole ++ d.fraction.getD []

def exponentText : List Char := (d.exponent.map Exponent.text).getD []

/-- What follows the digits in front of the point. -/
def tail : List Char :=
  match d.fraction with
  | some ds => '.' :: ds ++ d.exponentText
  | none => d.exponentText

def unsignedText : List Char := d.whole ++ d.tail

def text : List Char := d.sign.text ++ d.unsignedText

/-- The power of ten that the digits are multiplied by. -/
def power : Int := (d.exponent.map Exponent.value).getD 0 - (d.fraction.getD []).length

/-- The number that the text denotes. -/
def value : ℚ := d.sign.apply (ofDigits d.digits) * 10 ^ d.power

/-- There is neither a point nor an exponent. -/
def IsPlain : Prop := d.fraction = none ∧ d.exponent = none

def parts : DecimalParts :=
  ⟨d.digits, (d.fraction.getD []).length, (d.exponent.map Exponent.value).getD 0⟩

theorem readExponent?_exponentText :
    readExponent? d.exponentText = some ((d.exponent.map Exponent.value).getD 0) := by
  unfold exponentText
  cases d.exponent with
  | none => rfl
  | some x => exact x.readExponent?_text

/-- No digit and no point is in front of an exponent. -/
theorem head?_exponentText : ∀ c ∈ d.exponentText.head?, c.isDigit = false ∧ c ≠ '.' := by
  unfold exponentText
  cases d.exponent with
  | none => simp
  | some x =>
      have mark := x.isMark
      rintro c ⟨rfl⟩
      rcases mark with mark | mark <;> rw [mark] <;> decide

theorem takeWhile_append {ds rest : List Char} (digits : ∀ c ∈ ds, c.isDigit = true)
    (stop : ∀ c ∈ rest.head?, c.isDigit = false) :
    (ds ++ rest).takeWhile Char.isDigit = ds ∧ (ds ++ rest).dropWhile Char.isDigit = rest := by
  rw [List.takeWhile_append_of_pos digits, List.dropWhile_append_of_pos digits]
  cases rest with
  | nil => simp
  | cons c rest => simp [stop c rfl]

theorem head?_tail : ∀ c ∈ d.tail.head?, c.isDigit = false := by
  unfold tail
  split
  · rintro c ⟨rfl⟩
    rfl
  · exact fun c hc => (d.head?_exponentText c hc).1

theorem readDecimal?_unsignedText : readDecimal? d.unsignedText = some d.parts := by
  have digits := d.isDigits.isDigit
  obtain ⟨hwhole, hrest⟩ := takeWhile_append (fun c hc => digits c (List.mem_append_left _ hc))
    d.head?_tail
  have hnonempty : ¬ (d.whole = [] ∧ d.fraction.getD [] = []) := by
    rw [← List.append_eq_nil_iff]
    exact d.isDigits.nonempty
  have exponent := d.readExponent?_exponentText
  simp only [unsignedText, readDecimal?, hwhole, hrest]
  cases hfraction : d.fraction with
  | none =>
      have htail : d.tail = d.exponentText := by rw [tail, hfraction]
      have noPoint : ∀ more, d.exponentText ≠ '.' :: more := by
        intro more heq
        exact (d.head?_exponentText '.' (by rw [heq]; rfl)).2 rfl
      rw [hfraction] at hnonempty
      rw [htail]
      simpa [noPoint, exponent, parts, hfraction, Numeral.digits] using hnonempty
  | some ds =>
      have htail : d.tail = '.' :: (ds ++ d.exponentText) := by rw [tail, hfraction]; rfl
      rw [hfraction] at hnonempty
      have hds := takeWhile_append
        (fun c (hc : c ∈ ds) => digits c (List.mem_append_right _ (by rw [hfraction]; exact hc)))
        fun c hc => (d.head?_exponentText c hc).1
      rw [htail]
      simpa [hds.1, hds.2, exponent, parts, hfraction, Numeral.digits] using hnonempty

/-- A decimal starts with a digit or with its point. -/
theorem exists_cons_unsignedText :
    ∃ c cs, d.unsignedText = c :: cs ∧ (c.isDigit = true ∨ c = '.') := by
  have digits := d.isDigits.isDigit
  have nonempty := d.isDigits.nonempty
  rw [unsignedText]
  cases hwhole : d.whole with
  | cons c cs =>
      refine ⟨c, cs ++ d.tail, rfl, .inl (digits c ?_)⟩
      rw [hwhole]
      exact List.mem_append_left _ List.mem_cons_self
  | nil =>
      cases hfraction : d.fraction with
      | none => simp [hwhole, hfraction] at nonempty
      | some ds =>
          refine ⟨'.', ds ++ d.exponentText, ?_, .inr rfl⟩
          rw [tail, hfraction]
          rfl

theorem absent_unsignedText : Sign.Absent d.unsignedText := by
  obtain ⟨c, cs, hcs, start⟩ := d.exists_cons_unsignedText
  rw [hcs]
  rintro c' ⟨rfl⟩
  rcases start with digit | rfl
  · exact ⟨ne_of_isDigit digit (by decide), ne_of_isDigit digit (by decide)⟩
  · decide

/-- A decimal is none of the words that stand for numbers. -/
theorem readUnsignedText?_unsignedText :
    readUnsignedText? d.unsignedText = some (.decimal d.parts) := by
  obtain ⟨c, cs, hcs, start⟩ := d.exists_cons_unsignedText
  have first : c.toLower ≠ 'i' ∧ c.toLower ≠ 'n' := by
    rcases start with digit | rfl
    · rw [toLower_of_isDigit digit]
      exact ⟨ne_of_isDigit digit (by decide), ne_of_isDigit digit (by decide)⟩
    · decide
  have notInfinite : ¬ (d.unsignedText.map Char.toLower = "inf".toList ∨
      d.unsignedText.map Char.toLower = "infinity".toList) := by
    simp [hcs, first.1]
  have isNumber : d.unsignedText.map Char.toLower ≠ "nan".toList := by
    simp [hcs, first.2]
  simp only [readUnsignedText?]
  rw [if_neg notInfinite, if_neg isNumber, readDecimal?_unsignedText]
  rfl

theorem readDouble?_text : readDouble? d.text =
    some (NumberText.toDouble d.sign.isNegative (.decimal d.parts)) := by
  rw [readDouble?, text, d.sign.readText?_text d.absent_unsignedText,
    readUnsignedText?_unsignedText]
  rfl

/-- Digits are all that a plain decimal has, and any other has something else. -/
theorem readNat?_unsignedText_eq_some_iff {n : Nat} :
    readNat? d.unsignedText = some n ↔ d.IsPlain ∧ ofDigits d.digits = n := by
  cases hfraction : d.fraction with
  | some ds =>
      have point : '.' ∈ d.unsignedText := by simp [unsignedText, tail, hfraction]
      rw [readNat?_eq_none point rfl]
      simp [IsPlain, hfraction]
  | none =>
      cases hexponent : d.exponent with
      | some x =>
          have mark : x.mark ∈ d.unsignedText := by
            simp [unsignedText, tail, exponentText, hfraction, hexponent, Exponent.text]
          have notDigit : x.mark.isDigit = false := by
            rcases x.isMark with h | h <;> rw [h] <;> rfl
          rw [readNat?_eq_none mark notDigit]
          simp [IsPlain, hexponent]
      | none =>
          have htext : d.unsignedText = d.digits := by
            simp [unsignedText, tail, exponentText, digits, hfraction, hexponent]
          have hread : readNat? d.digits = some (ofDigits d.digits) := readNat?_eq_some d.isDigits
          rw [htext, hread]
          simp [IsPlain, hfraction, hexponent]

theorem abs_value : |d.value| = ofDigits d.digits * 10 ^ d.power := by
  have hpos : (0 : ℚ) < 10 ^ d.power := zpow_pos (by norm_num) _
  rw [value, abs_mul, abs_of_pos hpos]
  congr 1
  cases d.sign <;> simp [Sign.apply]

theorem value_eq_abs :
    d.value = if d.sign.isNegative then -|d.value| else |d.value| := by
  rw [abs_value, value]
  cases d.sign <;> simp [Sign.apply, Sign.isNegative]

theorem value_of_isPlain (h : d.IsPlain) : d.value = d.sign.apply (ofDigits d.digits) := by
  have hpower : d.power = 0 := by simp [power, h.1, h.2]
  rw [value, hpower, zpow_zero, mul_one]

/-- A word of 64 bits is read exactly from a plain decimal in range. -/
theorem readWord?_text_eq_some_iff {w : Int64} :
    readWord? d.text = some w ↔ d.IsPlain ∧ d.value = w.toInt := by
  have hread : readWord? d.text = some w ↔
      ∃ n, readNat? d.unsignedText = some n ∧ d.sign.apply n = w.toInt := by
    rw [readWord?, text, d.sign.readInt?_text d.absent_unsignedText]
    simp only [Option.bind_eq_bind, Option.bind_eq_some_iff, Option.map_eq_some_iff,
      word?_eq_some_iff]
    constructor
    · rintro ⟨_, ⟨n, hn, rfl⟩, hw⟩
      exact ⟨n, hn, hw.symm⟩
    · rintro ⟨n, hn, hw⟩
      exact ⟨_, ⟨n, hn, rfl⟩, hw.symm⟩
  rw [hread]
  simp only [readNat?_unsignedText_eq_some_iff]
  constructor
  · rintro ⟨n, ⟨plain, rfl⟩, hn⟩
    rw [d.value_of_isPlain plain, hn]
    exact ⟨plain, rfl⟩
  · rintro ⟨plain, hvalue⟩
    rw [d.value_of_isPlain plain] at hvalue
    exact ⟨_, ⟨plain, rfl⟩, by exact_mod_cast hvalue⟩

theorem exists_of_readDecimal? {cs : List Char} {p : DecimalParts} (h : readDecimal? cs = some p) :
    ∃ d : Numeral, cs = d.unsignedText := by
  have digits {cs : List Char} {c : Char} (hc : c ∈ cs.takeWhile Char.isDigit) :
      c.isDigit = true := List.all_eq_true.1 List.all_takeWhile c hc
  have split (cs : List Char) : cs.takeWhile Char.isDigit ++ cs.dropWhile Char.isDigit = cs :=
    List.takeWhile_append_dropWhile
  unfold readDecimal? at h
  dsimp only at h
  split at h
  · rename_i more point
    split at h
    · cases h
    · rename_i nonempty
      obtain ⟨e, hexponent, -⟩ := Option.map_eq_some_iff.1 h
      obtain ⟨x, (hx : more.dropWhile Char.isDigit = _)⟩ :=
        Exponent.exists_of_readExponent? hexponent
      refine ⟨⟨.none, cs.takeWhile Char.isDigit, some (more.takeWhile Char.isDigit), x, ?_, ?_⟩, ?_⟩
      · intro c hc
        exact (List.mem_append.1 hc).elim digits digits
      · rwa [ne_eq, List.append_eq_nil_iff]
      · calc cs = cs.takeWhile Char.isDigit ++
              '.' :: (more.takeWhile Char.isDigit ++ more.dropWhile Char.isDigit) := by
                rw [split more, ← point, split cs]
          _ = _ := by rw [hx]; rfl
  · split at h
    · cases h
    · rename_i nonempty
      obtain ⟨e, hexponent, -⟩ := Option.map_eq_some_iff.1 h
      obtain ⟨x, (hx : cs.dropWhile Char.isDigit = _)⟩ :=
        Exponent.exists_of_readExponent? hexponent
      refine ⟨⟨.none, cs.takeWhile Char.isDigit, none, x, ?_, ?_⟩, ?_⟩
      · intro c hc
        exact (List.mem_append.1 hc).elim digits nofun
      · rwa [ne_eq, List.append_eq_nil_iff]
      · calc cs = cs.takeWhile Char.isDigit ++ cs.dropWhile Char.isDigit := (split cs).symm
          _ = _ := by rw [hx]; rfl

theorem exists_of_readText? {cs : List Char} {negative : Bool} {p : DecimalParts}
    (h : readText? cs = some (negative, .decimal p)) : ∃ d : Numeral, cs = d.text := by
  have unsigned {cs : List Char} {t : NumberText} (h : readUnsignedText? cs = some t)
      (ht : t = .decimal p) : ∃ d : Numeral, cs = d.unsignedText := by
    unfold readUnsignedText? at h
    dsimp only at h
    subst ht
    split at h
    · cases h
    split at h
    · cases h
    obtain ⟨p', hp, -⟩ := Option.map_eq_some_iff.1 h
    exact exists_of_readDecimal? hp
  unfold readText? at h
  split at h
  · obtain ⟨t, ht, heq⟩ := Option.map_eq_some_iff.1 h
    obtain ⟨d, rfl⟩ := unsigned ht (Prod.mk.inj heq).2
    exact ⟨{ d with sign := .minus }, rfl⟩
  · obtain ⟨t, ht, heq⟩ := Option.map_eq_some_iff.1 h
    obtain ⟨d, rfl⟩ := unsigned ht (Prod.mk.inj heq).2
    exact ⟨{ d with sign := .plus }, rfl⟩
  · obtain ⟨t, ht, heq⟩ := Option.map_eq_some_iff.1 h
    obtain ⟨d, rfl⟩ := unsigned ht (Prod.mk.inj heq).2
    exact ⟨{ d with sign := .none }, rfl⟩

/-- A text that a finite number is read from is that of a decimal. -/
theorem exists_of_readDouble? {cs : List Char} {x : Double} (h : readDouble? cs = some x)
    (finite : x.isFinite = true) : ∃ d : Numeral, cs = d.text := by
  obtain ⟨⟨negative, t⟩, ht, rfl⟩ := Option.map_eq_some_iff.1 h
  cases t with
  | infinite => cases negative <;> exact absurd finite (by decide)
  | notANumber => cases negative <;> exact absurd finite (by decide)
  | decimal p => exact exists_of_readText? ht

theorem exists_of_readWord? {cs : List Char} {w : Int64} (h : readWord? cs = some w) :
    ∃ d : Numeral, cs = d.text := by
  obtain ⟨n, hn, -⟩ := Option.bind_eq_some_iff.1 h
  obtain ⟨s, ds, digits, rfl⟩ := exists_sign_of_readInt? hn
  refine ⟨⟨s, ds, none, none, ?_, ?_⟩, ?_⟩
  · intro c hc
    exact (List.mem_append.1 hc).elim (digits.isDigit c) nofun
  · simpa using digits.nonempty
  · simp [text, unsignedText, tail, exponentText]

/-- A whole number as it is written, without a sign. -/
def ofNat (n : Nat) : Numeral where
  sign := .none
  whole := Number.digits n
  fraction := none
  exponent := none
  isDigits := by
    rw [Option.getD_none, List.append_nil]
    exact ⟨fun c => isDigit_of_mem_digits, digits_ne_nil n⟩

theorem text_ofNat (n : Nat) : (ofNat n).text = Number.digits n := List.append_nil _

theorem parts_ofNat (n : Nat) : (ofNat n).parts = ⟨Number.digits n, 0, 0⟩ :=
  congrArg (DecimalParts.mk · 0 0) (List.append_nil _)

theorem quotient?_parts_ofNat (n : Nat) : (ofNat n).parts.quotient? = some (n, 1) := by
  have value : ofDigits (Number.digits n) = n := ofDigits_digits n
  rw [parts_ofNat, DecimalParts.quotient?]
  simp only [value]
  split
  · rename_i zero
    have hzero : n = 0 := by omega
    rw [hzero]
  · rw [if_neg (by decide)]
    simp

end Numeral

/-- A whole number in digits is read as the nearest number of 64 bits. -/
theorem readDouble?_digits (n : Nat) : readDouble? (digits n) = some (Double.ofInt n) := by
  rw [← Numeral.text_ofNat, Numeral.readDouble?_text, NumberText.toDouble,
    Numeral.quotient?_parts_ofNat]
  rfl

end TypedQuery.Number
