import Mathlib.Data.List.Basic
import TypedQuery.Field.TypeName

/-!
# The names of field types

A scalar type has a plain name, some have a qualified one, and a decimal may be reached by any path.
An optional type has the name of its scalar in a wrapper of one of two spellings. Each of these
names tells the kind of the type, however many blanks are written in it.
-/

namespace TypedQuery

namespace Text

variable {cs ds front back : List Char}

theorem dropWhile_append_of_text (nonempty : cs ≠ []) (text : cs.dropWhile isBlank = cs) :
    (cs ++ ds).dropWhile isBlank = cs ++ ds := by
  rw [List.dropWhile_append, text, if_neg]
  simpa using nonempty

/-- Only the white space in front of a text is trimmed if there is none at its end. -/
theorem trim_append (nonempty : back ≠ []) (starts : back.dropWhile isBlank = back)
    (ends : back.reverse.dropWhile isBlank = back.reverse) :
    trim (front ++ back) = front.dropWhile isBlank ++ back := by
  have first : (front ++ back).dropWhile isBlank = front.dropWhile isBlank ++ back := by
    rw [List.dropWhile_append, starts]
    split
    · rename_i hblank
      rw [List.isEmpty_iff.1 hblank, List.nil_append]
    · rfl
  have reversed : back.reverse ≠ [] := List.reverse_ne_nil_iff.2 nonempty
  rw [trim, first, List.reverse_append, dropWhile_append_of_text reversed ends,
    ← List.reverse_append, List.reverse_reverse]

end Text

theorem ScalarType.mem_all (t : ScalarType) : t ∈ all := by
  cases t with
  | integer t => cases t <;> decide
  | text | single | double | bool | uuid | instant | localInstant | date | decimal | json => decide

/-- The letters are a name of the scalar type. -/
inductive ScalarType.Named : ScalarType → List Char → Prop
  | plain (t : ScalarType) : Named t t.name.toList
  | qualified {t : ScalarType} {name : String} (listed : (name, t) ∈ TypeName.qualified) :
      Named t name.toList
  | decimal (path : List Char) : Named .decimal (path ++ "::Decimal".toList)

/-- The text is a name of the field type, in which blanks do not count. -/
def FieldType.Named (t : FieldType) (name : String) : Prop :=
  let letters := name.toList.filter (· ≠ ' ')
  if t.optional then
    ∃ inner, t.scalar.Named inner ∧
      (letters = "Option<".toList ++ inner ++ ['>'] ∨
        letters = "std::option::Option<".toList ++ inner ++ ['>'])
  else t.scalar.Named letters

namespace TypeName

variable {t : ScalarType} {letters start finish front s inner : List Char}

theorem afterStart?_eq_some_iff {rest : List Char} :
    afterStart? start s = some rest ↔ start ++ rest = s :=
  List.isPrefixOf?_eq_some_iff_append_eq

theorem beforeEnd?_eq_some_iff : beforeEnd? finish s = some front ↔ front ++ finish = s := by
  rw [beforeEnd?, Option.map_eq_some_iff]
  constructor
  · rintro ⟨rest, hrest, rfl⟩
    have hreverse := List.isPrefixOf?_eq_some_iff_append_eq.1 hrest
    rw [← List.reverse_reverse s, ← hreverse, List.reverse_append, List.reverse_reverse]
  · rintro rfl
    refine ⟨front.reverse, ?_, List.reverse_reverse front⟩
    rw [List.isPrefixOf?_eq_some_iff_append_eq, List.reverse_append]

/-- No other name ends like a path. -/
theorem scalar?_path (path : List Char) :
    scalar? (String.ofList (path ++ "::Decimal".toList)) = some .decimal := by
  have ends : ∀ name : String, name = String.ofList (path ++ "::Decimal".toList) →
      "::Decimal".toList.isSuffixOf name.toList = true := by
    rintro name rfl
    rw [List.isSuffixOf_iff_suffix]
    exact ⟨path, String.toList_ofList.symm⟩
  have plain : ScalarType.ofName? (String.ofList (path ++ "::Decimal".toList)) = none := by
    have table : ∀ t ∈ ScalarType.all, "::Decimal".toList.isSuffixOf t.name.toList = false := by
      decide +kernel
    refine List.find?_eq_none.2 fun t ht hname => ?_
    have same := ends t.name (by simpa using hname)
    rw [table t ht] at same
    cases same
  have listed : qualified.lookup (String.ofList (path ++ "::Decimal".toList)) = none := by
    have table : ∀ entry ∈ qualified, "::Decimal".toList.isSuffixOf entry.1.toList = false := by
      decide +kernel
    refine List.lookup_eq_none_iff.2 fun entry hentry => ?_
    rw [bne_iff_ne]
    intro hname
    have same := ends entry.1 hname.symm
    rw [table entry hentry] at same
    cases same
  rw [scalar?, plain, listed, if_pos (ends _ rfl)]
  rfl

/-- A name tells its scalar type. -/
theorem scalar?_of_named (h : t.Named letters) : scalar? (String.ofList letters) = some t := by
  cases h with
  | plain =>
      have table : ∀ t ∈ ScalarType.all, scalar? t.name = some t := by decide +kernel
      rw [String.ofList_toList]
      exact table t t.mem_all
  | qualified listed =>
      have table : ∀ entry ∈ qualified, scalar? entry.1 = some entry.2 := by decide +kernel
      rw [String.ofList_toList]
      exact table _ listed
  | decimal path => exact scalar?_path path

theorem trim_path (path : List Char) : Text.trim (path ++ "::Decimal".toList) =
    path.dropWhile Text.isBlank ++ "::Decimal".toList :=
  Text.trim_append (by decide) rfl rfl

/-- What ends like a path is in no wrapper. -/
theorem strip_path (path : List Char) :
    strip (path ++ "::Decimal".toList) = path.dropWhile Text.isBlank ++ "::Decimal".toList := by
  rw [strip, trim_path]
  generalize path.dropWhile Text.isBlank = front
  have unclosed (start : List Char) :
      (afterStart? start (front ++ "::Decimal".toList)).bind (beforeEnd? ['>']) = none := by
    rw [Option.bind_eq_none_iff]
    intro rest hrest
    rw [Option.eq_none_iff_forall_not_mem]
    intro inner hinner
    obtain rfl := beforeEnd?_eq_some_iff.1 hinner
    have hlast := congrArg List.getLast? (afterStart?_eq_some_iff.1 hrest)
    simp at hlast
  have unwrapped : (afterStart? "Option<".toList (front ++ "::Decimal".toList) <|>
      afterStart? "std::option::Option<".toList (front ++ "::Decimal".toList)).bind
        (beforeEnd? ['>']) = none := by
    have first := unclosed "Option<".toList
    cases hstart : afterStart? "Option<".toList (front ++ "::Decimal".toList) with
    | none => exact unclosed _
    | some rest =>
        rw [hstart] at first
        exact first
  rw [unwrapped]
  rfl

/-- A name that is not wrapped is a name without the white space around it. -/
theorem strip_of_named (h : t.Named letters) : t.Named (strip letters) := by
  cases h with
  | plain =>
      have table : ∀ t ∈ ScalarType.all, strip t.name.toList = t.name.toList := by decide +kernel
      rw [table t t.mem_all]
      exact .plain t
  | qualified listed =>
      have table : ∀ entry ∈ qualified, strip entry.1.toList = entry.1.toList := by decide +kernel
      rw [table _ listed]
      exact .qualified listed
  | decimal path =>
      rw [strip_path]
      exact .decimal _

/-- One wrapper is taken off. -/
theorem strip_wrapped (h : start = "Option<".toList ∨ start = "std::option::Option<".toList) :
    strip (start ++ inner ++ ['>']) = inner := by
  have text : start ≠ [] ∧ start.dropWhile Text.isBlank = start := by
    rcases h with rfl | rfl <;> decide
  have trimmed : Text.trim (start ++ inner ++ ['>']) = start ++ inner ++ ['>'] := by
    rw [Text.trim_append (by decide) rfl rfl, Text.dropWhile_append_of_text text.1 text.2]
  have wrapped : (afterStart? "Option<".toList (start ++ inner ++ ['>']) <|>
      afterStart? "std::option::Option<".toList (start ++ inner ++ ['>'])) =
        some (inner ++ ['>']) := by
    rcases h with rfl | rfl <;> rfl
  have inside : beforeEnd? ['>'] (inner ++ ['>']) = some inner := beforeEnd?_eq_some_iff.2 rfl
  rw [strip, trimmed, wrapped, Option.bind_some, inside]
  rfl

end TypeName

/-- Each name of a field type tells the kind of its fields. -/
theorem FieldType.kind?_of_named {t : FieldType} {name : String} (h : t.Named name) :
    TypeName.kind? name.toList = some t.kind := by
  obtain ⟨s, optional⟩ := t
  have scalar : s.Named (TypeName.strip (name.toList.filter (· ≠ ' '))) := by
    cases optional with
    | false => exact TypeName.strip_of_named h
    | true =>
        obtain ⟨inner, named, hletters⟩ := h
        cases hletters with
        | inl hletters =>
            rw [hletters, TypeName.strip_wrapped (.inl rfl)]
            exact named
        | inr hletters =>
            rw [hletters, TypeName.strip_wrapped (.inr rfl)]
            exact named
  rw [TypeName.kind?, TypeName.scalar?_of_named scalar]
  rfl

end TypedQuery
