import Mathlib
import TypedQuery.Proofs.Sql.Vocabulary
import TypedQuery.Text.CaseFold

/-!
# Names without regard to case

Names that are not alike stay different after a database has folded their case. The name of a
flattened column, a numbered alias with a field behind it, tells both parts: the number ends where
the underscore begins.
-/

namespace TypedQuery

namespace Text

variable {s t u : String}

theorem alike_iff : alike s t = true ↔ lower s = lower t := by
  simp [alike]

theorem lower_lower (s : String) : lower (lower s) = lower s := by
  apply String.toList_injective
  simp

theorem alike_lower (s : String) : alike (lower s) s = true := alike_iff.2 (lower_lower s)

theorem lower_append (s t : String) : lower (s ++ t) = lower s ++ lower t := by
  apply String.toList_injective
  simp

end Text

/-- No two of the names are alike. -/
def Apart (names : List String) : Prop := names.Pairwise fun s t => Text.alike s t = false

instance (names : List String) : Decidable (Apart names) :=
  inferInstanceAs (Decidable (names.Pairwise _))

namespace Apart

variable {names others : List String} {s t : String}

theorem nil : Apart [] := List.Pairwise.nil

theorem append_iff : Apart (names ++ others) ↔
    Apart names ∧ Apart others ∧ ∀ s ∈ names, ∀ t ∈ others, Text.alike s t = false :=
  List.pairwise_append

theorem symmetric : Std.Symm fun s t => Text.alike s t = false :=
  ⟨fun s t hst => (Text.alike_comm t s).trans hst⟩

theorem perm_iff (h : names.Perm others) : Apart names ↔ Apart others :=
  h.pairwise_iff fun {s t} hst => (Text.alike_comm t s).trans hst

/-- Names that are alike are the same. -/
theorem eq_of_alike (h : Apart names) (hs : s ∈ names) (ht : t ∈ names)
    (alike : Text.alike s t = true) : s = t := by
  by_contra hne
  have symm := symmetric
  have differ : Text.alike s t = false := h.forall hs ht hne
  simp [alike] at differ

theorem of_nodup (h : Apart names) (nodup : others.Nodup) (subset : others ⊆ names) :
    Apart others := by
  refine nodup.imp_of_mem fun {s t} hs ht hne => ?_
  by_contra halike
  exact hne (h.eq_of_alike (subset hs) (subset ht) (by simpa using halike))

/-- Names stay apart behind a common prefix. -/
theorem map_append (h : Apart names) (prefixed : String) :
    Apart (names.map fun s => prefixed ++ s) := by
  refine List.pairwise_map.2 (h.imp fun {s t} hst => ?_)
  rw [← Bool.not_eq_true, Text.alike_iff] at hst ⊢
  intro heq
  apply hst
  rw [Text.lower_append, Text.lower_append] at heq
  simpa using heq

end Apart

namespace Number

theorem map_toLower_digits (n : Nat) : (digits n).map Char.toLower = digits n := by
  have same : ∀ c ∈ digits n, c.toLower = id c :=
    fun c hc => toLower_of_isDigit (isDigit_of_mem_digits hc)
  rw [List.map_congr_left same, List.map_id]

/-- The number and the name behind it are told from a column, whatever its case. -/
theorem numbered_alike {stem s t : String} {m n : Nat}
    (h : Text.alike (numbered stem m ++ "_" ++ s) (numbered stem n ++ "_" ++ t) = true) :
    m = n ∧ Text.alike s t = true := by
  have chars (k : Nat) (u : String) : (Text.lower (numbered stem k ++ "_" ++ u)).toList =
      (Text.lower stem).toList ++ (digits k ++ '_' :: (Text.lower u).toList) := by
    simp [toList_numbered, map_toLower_digits]
  have heq := congrArg String.toList (Text.alike_iff.1 h)
  rw [chars, chars] at heq
  obtain ⟨hnumber, hname⟩ := digits_append_inj (by decide) (List.append_cancel_left heq)
  exact ⟨hnumber, Text.alike_iff.2 (String.toList_injective hname)⟩

end Number

end TypedQuery
