/-!
# Decimal digits

Reading and writing whole numbers in ASCII digits. A sign is one character in
front of at least one digit; nothing else is skipped or separated.
-/

namespace TypedQuery.Number

/-- The number that a list of digits stands for, most significant first. -/
def ofDigits (ds : List Char) : Nat :=
  ds.foldl (fun n d => 10 * n + (d.toNat - '0'.toNat)) 0

/-- A whole number without a sign: one or more digits. -/
def readNat? (cs : List Char) : Option Nat :=
  if cs ≠ [] ∧ cs.all Char.isDigit then some (ofDigits cs) else none

/-- A whole number behind an optional plus sign. -/
def readUnsigned? : List Char → Option Nat
  | '+' :: cs => readNat? cs
  | cs => readNat? cs

/-- A whole number behind an optional sign. -/
def readInt? : List Char → Option Int
  | '-' :: cs => (readNat? cs).map fun n => -(n : Int)
  | cs => (readUnsigned? cs).map Int.ofNat

/-- The digits of a whole number, most significant first. -/
def digits (n : Nat) : List Char := Nat.toDigits 10 n

def textOfNat (n : Nat) : String := String.ofList (digits n)

def textOfInt : Int → String
  | .ofNat n => textOfNat n
  | .negSucc n => "-" ++ textOfNat (n + 1)

/-- A name made of a stem and a number. -/
def numbered (stem : String) (n : Nat) : String := stem ++ textOfNat n

/-- At least `width` digits, filled up with zeros on the left. -/
def padded (width n : Nat) : String :=
  String.ofList (List.replicate (width - (digits n).length) '0' ++ digits n)

/-- Is the number one of a signed type of the given width? -/
def FitsSigned (width : Nat) (n : Int) : Prop :=
  -(Nat.pow 2 (width - 1) : Int) ≤ n ∧ n < Nat.pow 2 (width - 1)

/-- Is the number one of an unsigned type of the given width? -/
def FitsUnsigned (width : Nat) (n : Int) : Prop := 0 ≤ n ∧ n < Nat.pow 2 width

instance (width : Nat) (n : Int) : Decidable (FitsSigned width n) :=
  inferInstanceAs (Decidable (_ ∧ _))

instance (width : Nat) (n : Int) : Decidable (FitsUnsigned width n) :=
  inferInstanceAs (Decidable (_ ∧ _))

/-- A whole number as a 64-bit word, if it is in range. -/
def word? (n : Int) : Option Int64 :=
  if FitsSigned 64 n then some (Int64.ofInt n) else none

theorem toInt_of_word? {n : Int} {w : Int64} (h : word? n = some w) : w.toInt = n := by
  unfold word? at h
  split at h
  · rename_i fits
    obtain rfl := Option.some.inj h
    have lo := fits.1
    have hi := fits.2
    rw [Int64.toInt_ofInt, Int.bmod_eq_of_le]
    · simpa [Int64.size] using lo
    · simpa [Int64.size] using hi
  · cases h

@[simp] theorem word?_toInt (w : Int64) : word? w.toInt = some w := by
  have lo := w.le_toInt
  have hi := w.toInt_lt
  have fits : FitsSigned 64 w.toInt := ⟨by simpa using lo, by simpa using hi⟩
  simp [word?, fits]

/-- A 64-bit word in text: an optional sign, then digits within the range. -/
def readWord? (cs : List Char) : Option Int64 := readInt? cs >>= word?

end TypedQuery.Number
