/-!
# Case of ASCII letters

Result columns and keywords are compared without regard to the case of the
letters `A` to `Z`; every other character counts as it stands.
-/

namespace TypedQuery.Text

/-- A text with its ASCII letters in lower case. -/
def lower (s : String) : String := String.ofList (s.toList.map Char.toLower)

@[simp] theorem toList_lower (s : String) : (lower s).toList = s.toList.map Char.toLower := by
  simp [lower]

/-- Two texts are alike when they differ at most in the case of ASCII letters. -/
def alike (s t : String) : Bool := lower s == lower t

@[simp] theorem alike_self (s : String) : alike s s = true := by simp [alike]

theorem alike_comm (s t : String) : alike s t = alike t s := by
  simp only [alike, Bool.beq_comm]

end TypedQuery.Text
