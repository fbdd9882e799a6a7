import Mathlib.Data.List.Forall2
import TypedQuery.Proofs.Value.SameKey

/-!
# Equal values and their digests

Equality of values is an equivalence, and a digest tells no two equal values apart but for one
thing: reals of documents are equal as numbers, and the text of a zero shows its sign. So equal
values have one digest exactly when the zeros in their documents have the same signs in turn.

A document is written between signs that do not depend on it. Texts of equal documents can
therefore be cancelled in front of whatever follows, and the documents turn out to be one; so can
their lists of signs.
-/

namespace TypedQuery

/-- Things whose spellings go on alike are one thing, and what follows is the same. -/
def Cancels {α β : Type} (F : α → List β) (a b : α) : Prop :=
  ∀ ⦃s t⦄, F a ++ s = F b ++ t → a = b ∧ s = t

namespace Cancels

variable {α β : Type} {F : α → List β} {a b : α}

theorem refl (F : α → List β) (a : α) : Cancels F a a :=
  fun _ _ h => ⟨rfl, List.append_cancel_left h⟩

theorem eq_iff (h : Cancels F a b) : F a = F b ↔ a = b := by
  refine ⟨fun spelling => (@h [] [] ?_).1, congrArg F⟩
  rw [spelling]

/-- What is the same around the spellings does not matter. -/
theorem around (key : α → List β) (behind : List β) (h : Cancels F a b) (keys : key a = key b) :
    Cancels (fun x => key x ++ F x ++ behind) a b := by
  intro s t heq
  simp only [keys, List.append_assoc, List.append_cancel_left_eq] at heq
  obtain ⟨hab, hbehind⟩ := h heq
  exact ⟨hab, List.append_cancel_left hbehind⟩

/-- Things are cancelled in a row if each of them is. -/
theorem row {as bs : List α} (sep : List β) (h : List.Forall₂ (Cancels F) as bs) :
    Cancels (fun xs => sep.intercalate (xs.map F)) as bs := by
  induction h with
  | nil => exact .refl _ _
  | @cons a b as bs first rest ih =>
      intro s t heq
      cases rest with
      | nil =>
          simp only [List.map_singleton, List.intercalate_singleton] at heq
          obtain ⟨rfl, rfl⟩ := first heq
          exact ⟨rfl, rfl⟩
      | cons =>
          simp only [List.map_cons, List.intercalate_cons_cons, List.append_assoc] at heq
          obtain ⟨rfl, hbehind⟩ := first heq
          have hrest := List.append_cancel_left hbehind
          obtain ⟨htail, rfl⟩ := ih hrest
          exact ⟨congrArg _ htail, rfl⟩

end Cancels

/-- Parts that follow one another are a row with nothing between them. -/
theorem flatten_eq_intercalate {α : Type} (xss : List (List α)) :
    xss.flatten = ([] : List α).intercalate xss := by
  induction xss with
  | nil => rfl
  | cons xs xss ih =>
      cases xss with
      | nil => simp
      | cons ys yss => rw [List.flatten_cons, ih, List.intercalate_cons_cons, List.append_nil]

namespace Double

variable {x y : Double}

theorem eq_of_parts (sign : x.isNegative = y.isNegative) (word : x.word = y.word) : x = y := by
  have hx : x.bits.toNat < 2 ^ 64 := x.bits.toNat_lt
  have hy : y.bits.toNat < 2 ^ 64 := y.bits.toNat_lt
  have hpow : Nat.pow 2 63 = 2 ^ 63 := rfl
  simp only [isNegative, Double.word, hpow, decide_eq_decide] at sign word
  have hbits : x.bits.toNat = y.bits.toNat := by omega
  obtain ⟨x⟩ := x
  obtain ⟨y⟩ := y
  exact congrArg Double.mk (UInt64.toNat_inj.1 hbits)

/-- Numbers with one place in the order are one number, or zeros of both signs. -/
theorem eq_or_isZero_of_sameNumber (h : x.sameNumber y = true) :
    x = y ∨ x.isZero = true ∧ y.isZero = true ∧ x.isNegative ≠ y.isNegative := by
  obtain ⟨-, -, hrank⟩ := sameNumber_iff.1 h
  unfold rank at hrank
  simp only [isZero, beq_iff_eq]
  cases hx : x.isNegative <;> cases hy : y.isNegative <;> simp only [hx, hy] at hrank
  · exact .inl (eq_of_parts (hx.trans hy.symm) (by omega))
  · exact .inr ⟨by grind, by grind, by simp⟩
  · exact .inr ⟨by grind, by grind, by simp⟩
  · exact .inl (eq_of_parts (hx.trans hy.symm) (by omega))

theorem sameNumber_self (h : x.isFinite = true) : x.sameNumber x = true := by
  have number : x.isNaN = false := by
    rw [isFinite, decide_eq_true_eq] at h
    rw [isNaN, decide_eq_false_iff_not]
    omega
  exact sameNumber_iff.2 ⟨number, number, rfl⟩

end Double

namespace JsonNumber

/-- Reals of documents are finite. -/
def isValid : JsonNumber → Bool
  | .whole _ => true
  | .real x => x.isFinite

/-- The sign of a real that is zero; no other number has one here. -/
def zeroSigns : JsonNumber → List Bool
  | .whole _ => []
  | .real x => if x.isZero then [x.isNegative] else []

variable {m n : JsonNumber}

theorem same_self (h : n.isValid = true) : n.same n = true := by
  cases n with
  | whole k => exact beq_self_eq_true k
  | real x => exact Double.sameNumber_self h

/-- Equal numbers are one number, or zeros of both signs. -/
theorem eq_or_zeros_of_same (h : m.same n = true) : m = n ∨ ∃ x y, m = .real x ∧ n = .real y ∧
    x.isZero = true ∧ y.isZero = true ∧ x.isNegative ≠ y.isNegative := by
  cases m with
  | whole k =>
      cases n with
      | whole l => exact .inl (congrArg whole (beq_iff_eq.1 h))
      | real y => cases h
  | real x =>
      cases n with
      | whole l => cases h
      | real y =>
          rcases Double.eq_or_isZero_of_sameNumber h with rfl | zeros
          · exact .inl rfl
          · exact .inr ⟨x, y, rfl, rfl, zeros⟩

theorem cancels_zeroSigns (h : m.same n = true) : Cancels zeroSigns m n := by
  rcases eq_or_zeros_of_same h with rfl | ⟨x, y, rfl, rfl, hx, hy, signs⟩
  · exact .refl _ _
  · intro s t heq
    simp only [zeroSigns, hx, hy, if_true, List.cons_append, List.cons.injEq] at heq
    exact (signs heq.1).elim

theorem cancels_text (h : m.same n = true) : Cancels (fun k => k.text.toList) m n := by
  rcases eq_or_zeros_of_same h with rfl | ⟨x, y, rfl, rfl, hx, hy, signs⟩
  · exact .refl _ _
  · intro s t heq
    simp only [text, hx, hy, if_true] at heq
    cases hsign : x.isNegative <;> cases hsign' : y.isNegative <;> simp_all

end JsonNumber

namespace Json

mutual

def isValid : Json → Bool
  | .number n => n.isValid
  | .array items => areValid items
  | .object fields => haveValid fields
  | _ => true
termination_by structural j => j

def areValid : List Json → Bool
  | [] => true
  | j :: js => isValid j && areValid js
termination_by structural js => js

def haveValid : List (String × Json) → Bool
  | [] => true
  | (_, j) :: fs => isValid j && haveValid fs
termination_by structural fs => fs

end

mutual

/-- The signs of the zeros in a document, from left to right. -/
def zeroSigns : Json → List Bool
  | .number n => n.zeroSigns
  | .array items => zeroSignsOfItems items
  | .object fields => zeroSignsOfFields fields
  | _ => []
termination_by structural j => j

def zeroSignsOfItems : List Json → List Bool
  | [] => []
  | j :: js => zeroSigns j ++ zeroSignsOfItems js
termination_by structural js => js

def zeroSignsOfFields : List (String × Json) → List Bool
  | [] => []
  | (_, j) :: fs => zeroSigns j ++ zeroSignsOfFields fs
termination_by structural fs => fs

end

mutual

theorem same_self : ∀ a : Json, a.isValid = true → same a a = true
  | .null, _ => rfl
  | .bool b, _ => beq_self_eq_true b
  | .number _, h => JsonNumber.same_self h
  | .text s, _ => beq_self_eq_true s
  | .array items, h => sameItems_self items h
  | .object fields, h => sameFields_self fields h

theorem sameItems_self : ∀ as : List Json, areValid as = true → sameItems as as = true
  | [], _ => rfl
  | a :: as, h => by
      obtain ⟨ha, has⟩ := Bool.and_eq_true_iff.1 h
      rw [sameItems, same_self a ha, sameItems_self as has]
      rfl

theorem sameFields_self : ∀ fs : List (String × Json), haveValid fs = true →
    sameFields fs fs = true
  | [], _ => rfl
  | (k, a) :: fs, h => by
      obtain ⟨ha, hfs⟩ := Bool.and_eq_true_iff.1 h
      rw [sameFields, same_self a ha, sameFields_self fs hfs, beq_self_eq_true]
      rfl

end

/-- A way to spell documents by their parts, with signs around and between them that are always the
same. Documents that have no parts are spelled in any way, equal numbers so that they cancel. -/
structure Spells {α : Type} (F : Json → List α) : Prop where
  number : ∀ m n : JsonNumber, m.same n = true → Cancels (fun n => F (.number n)) m n
  array : ∃ before sep behind : List α, ∀ items, F (.array items) =
    before ++ sep.intercalate (items.map F) ++ behind
  object : ∃ (before sep behind : List α) (key : String → List α), ∀ fields, F (.object fields) =
    before ++ sep.intercalate (fields.map fun (k, j) => key k ++ F j) ++ behind

section

variable {α : Type} {F : Json → List α}

mutual

/-- Spellings of equal documents can be cancelled, and show that the documents are one. -/
theorem Spells.cancels (spells : Spells F) : ∀ a b : Json, same a b = true → Cancels F a b
  | .null, .null, _ => .refl F _
  | .bool x, .bool y, h => by
      obtain rfl := beq_iff_eq.1 h
      exact .refl F _
  | .text x, .text y, h => by
      obtain rfl := beq_iff_eq.1 h
      exact .refl F _
  | .number m, .number n, h => by
      intro s t heq
      obtain ⟨rfl, rfl⟩ := spells.number m n h heq
      exact ⟨rfl, rfl⟩
  | .array xs, .array ys, h => by
      obtain ⟨before, sep, behind, array⟩ := spells.array
      have row := Cancels.row sep (spells.cancels_items xs ys h)
      have items := row.around (fun _ => before) behind rfl
      intro s t heq
      rw [array, array] at heq
      obtain ⟨rfl, rfl⟩ := items heq
      exact ⟨rfl, rfl⟩
  | .object xs, .object ys, h => by
      obtain ⟨before, sep, behind, key, object⟩ := spells.object
      have row := Cancels.row sep (spells.cancels_fields key xs ys h)
      have fields := row.around (fun _ => before) behind rfl
      intro s t heq
      rw [object, object] at heq
      obtain ⟨rfl, rfl⟩ := fields heq
      exact ⟨rfl, rfl⟩

theorem Spells.cancels_items (spells : Spells F) : ∀ as bs : List Json, sameItems as bs = true →
    List.Forall₂ (Cancels F) as bs
  | [], [], _ => .nil
  | a :: as, b :: bs, h => by
      obtain ⟨hab, hrest⟩ := Bool.and_eq_true_iff.1 h
      exact .cons (spells.cancels a b hab) (spells.cancels_items as bs hrest)

theorem Spells.cancels_fields (spells : Spells F) (key : String → List α) :
    ∀ fs gs : List (String × Json), sameFields fs gs = true →
      List.Forall₂ (Cancels fun (k, j) => key k ++ F j) fs gs
  | [], [], _ => .nil
  | (k, a) :: fs, (l, b) :: gs, h => by
      simp only [sameFields, Bool.and_eq_true, beq_iff_eq] at h
      obtain ⟨⟨rfl, hab⟩, hrest⟩ := h
      refine .cons ?_ (spells.cancels_fields key fs gs hrest)
      intro s t heq
      simp only [List.append_assoc] at heq
      obtain ⟨rfl, rfl⟩ := spells.cancels a b hab (List.append_cancel_left heq)
      exact ⟨rfl, rfl⟩

end

end

theorem zeroSignsOfItems_eq (items : List Json) :
    zeroSignsOfItems items = ([] : List Bool).intercalate (items.map zeroSigns) := by
  rw [← flatten_eq_intercalate]
  induction items with
  | nil => rfl
  | cons j js ih => rw [zeroSignsOfItems, ih, List.map_cons, List.flatten_cons]

theorem zeroSignsOfFields_eq (fields : List (String × Json)) :
    zeroSignsOfFields fields =
      ([] : List Bool).intercalate (fields.map fun (_, j) => zeroSigns j) := by
  rw [← flatten_eq_intercalate]
  induction fields with
  | nil => rfl
  | cons f fs ih => rw [zeroSignsOfFields, ih, List.map_cons, List.flatten_cons]

theorem spells_zeroSigns : Spells zeroSigns where
  number _ _ h := JsonNumber.cancels_zeroSigns h
  array := ⟨[], [], [], fun items => by rw [zeroSigns, zeroSignsOfItems_eq]; simp⟩
  object := ⟨[], [], [], fun _ => [], fun fields => by rw [zeroSigns, zeroSignsOfFields_eq]; simp⟩

theorem toList_printItems (items : List Json) :
    (printItems items).toList = [','].intercalate (items.map fun j => j.print.toList) := by
  induction items with
  | nil => rfl
  | cons j js ih =>
      cases js with
      | nil => simp [printItems]
      | cons k ks =>
          rw [printItems, String.toList_append, String.toList_append, ih]
          simp
          · simp

theorem toList_printFields (fields : List (String × Json)) :
    (printFields fields).toList = [','].intercalate
      (fields.map fun (k, j) => ((quoted k).toList ++ [':']) ++ j.print.toList) := by
  induction fields with
  | nil => rfl
  | cons f fs ih =>
      cases fs with
      | nil => simp [printFields]
      | cons g gs =>
          obtain ⟨k, j⟩ := f
          rw [printFields, String.toList_append, String.toList_append, ih]
          simp
          · simp

theorem spells_print : Spells fun j => j.print.toList where
  number _ _ h := JsonNumber.cancels_text h
  array := ⟨['['], [','], [']'], fun items => by
    simp only [print, String.toList_append, toList_printItems]
    rfl⟩
  object := ⟨['\x7b'], [','], ['\x7d'], fun k => (quoted k).toList ++ [':'], fun fields => by
    simp only [print, String.toList_append, toList_printFields]
    rfl⟩

end Json

namespace Value

mutual

/-- Are all documents in the value valid? -/
def isValid : Value → Bool
  | .json j => j.isValid
  | .list items => areValid items
  | _ => true
termination_by structural v => v

def areValid : List Value → Bool
  | [] => true
  | v :: vs => isValid v && areValid vs
termination_by structural vs => vs

end

mutual

/-- The signs of the zeros in the documents of a value, from left to right. -/
def zeroSigns : Value → List Bool
  | .json j => j.zeroSigns
  | .list items => zeroSignsOfItems items
  | _ => []
termination_by structural v => v

def zeroSignsOfItems : List Value → List Bool
  | [] => []
  | v :: vs => zeroSigns v ++ zeroSignsOfItems vs
termination_by structural vs => vs

end

mutual

theorem same_self : ∀ a : Value, a.isValid = true → same a a = true
  | .null, _ => rfl
  | .bool b, _ => beq_self_eq_true b
  | .int n, _ => beq_self_eq_true n
  | .float x, _ => beq_self_eq_true x
  | .decimal s, _ => beq_self_eq_true s
  | .text s, _ => beq_self_eq_true s
  | .uuid u, _ => beq_self_eq_true u
  | .timestamp t, _ => beq_self_eq_true t
  | .date d, _ => beq_self_eq_true d
  | .json j, h => Json.same_self j h
  | .list items, h => sameItems_self items h

theorem sameItems_self : ∀ as : List Value, areValid as = true → sameItems as as = true
  | [], _ => rfl
  | a :: as, h => by
      obtain ⟨ha, has⟩ := Bool.and_eq_true_iff.1 h
      rw [sameItems, same_self a ha, sameItems_self as has]
      rfl

end

/-- On values whose documents are valid equality is an equivalence. -/
theorem equivalence_same :
    Equivalence fun a b : { v : Value // v.isValid = true } => same a.1 b.1 = true where
  refl a := same_self a.1 a.2
  symm h := (same_comm _ _).trans h
  trans h h' := same_trans _ _ _ h h'

/-- A way to spell values by their documents and items, where equal documents cancel and the number
of items is all that stands in front of them. -/
structure Spells {α : Type} (F : Value → List α) : Prop where
  json : ∀ i j : Json, Json.same i j = true → Cancels (fun j => F (.json j)) i j
  list : ∃ before : Nat → List α, ∀ items, F (.list items) =
    before items.length ++ ([] : List α).intercalate (items.map F)

section

variable {α : Type} {F : Value → List α}

mutual

/-- Spellings of equal values can be cancelled, and show that the values are one. -/
theorem Spells.cancels (spells : Spells F) (a b : Value) (h : same a b = true) :
    Cancels F a b := by
  cases a with
  | json i =>
      cases b with
      | json j =>
          intro s t heq
          obtain ⟨rfl, rfl⟩ := spells.json i j h heq
          exact ⟨rfl, rfl⟩
      | _ => cases h
  | list xs =>
      cases b with
      | list ys =>
          have items := spells.cancels_items xs ys h
          obtain ⟨before, list⟩ := spells.list
          have row := (Cancels.row [] items).around (fun zs => before zs.length) []
            (by rw [items.length_eq])
          intro s t heq
          rw [list, list] at heq
          obtain ⟨rfl, rfl⟩ := row (by simpa using heq)
          exact ⟨rfl, rfl⟩
      | _ => cases h
  | _ =>
      obtain rfl := eq_of_same h (by simp) (by simp)
      exact .refl F _

theorem Spells.cancels_items (spells : Spells F) : ∀ as bs : List Value, sameItems as bs = true →
    List.Forall₂ (Cancels F) as bs
  | [], [], _ => .nil
  | a :: as, b :: bs, h => by
      obtain ⟨hab, hrest⟩ := Bool.and_eq_true_iff.1 h
      exact .cons (spells.cancels a b hab) (spells.cancels_items as bs hrest)

end

end

theorem zeroSignsOfItems_eq (items : List Value) :
    zeroSignsOfItems items = ([] : List Bool).intercalate (items.map zeroSigns) := by
  rw [← flatten_eq_intercalate]
  induction items with
  | nil => rfl
  | cons v vs ih => rw [zeroSignsOfItems, ih, List.map_cons, List.flatten_cons]

theorem digestItems_eq (items : List Value) :
    digestItems items = ([] : List DigestItem).intercalate (items.map digest) := by
  rw [← flatten_eq_intercalate]
  induction items with
  | nil => rfl
  | cons v vs ih => rw [digestItems, ih, List.map_cons, List.flatten_cons]

theorem spells_zeroSigns : Spells zeroSigns where
  json i j h := Json.spells_zeroSigns.cancels i j h
  list := ⟨fun _ => [], fun items => by rw [zeroSigns, zeroSignsOfItems_eq]; rfl⟩

theorem spells_digest : Spells digest where
  json i j h := by
    intro s t heq
    obtain ⟨htext, hrest⟩ : i.print = j.print ∧ s = t := by simpa [digest] using heq
    exact ⟨(Json.spells_print.cancels i j h).eq_iff.1 (by simp only [htext]), hrest⟩
  list := ⟨fun n => [.number 10, .number n], fun items => by rw [digest, digestItems_eq]; rfl⟩

variable {a b : Value}

/-- Equal values have one digest when they are one value, which their zeros tell. -/
theorem digest_eq_iff (h : same a b = true) : a.digest = b.digest ↔ a.zeroSigns = b.zeroSigns := by
  rw [(spells_digest.cancels a b h).eq_iff, (spells_zeroSigns.cancels a b h).eq_iff]

theorem digestItems_eq_iff {as bs : List Value} (h : sameItems as bs = true) :
    digestItems as = digestItems bs ↔ zeroSignsOfItems as = zeroSignsOfItems bs := by
  have digests := Cancels.row [] (spells_digest.cancels_items as bs h)
  have signs := Cancels.row [] (spells_zeroSigns.cancels_items as bs h)
  rw [digestItems_eq, digestItems_eq, zeroSignsOfItems_eq, zeroSignsOfItems_eq, digests.eq_iff,
    signs.eq_iff]

/-- Equality is an equivalence of the values whose documents are valid. Equal values have one
digest, and are one key, exactly when the zeros in their documents have the same signs in turn. So
it is with keys of groups. -/
theorem sameKey_iff_of_same (a b : Value) (k l : GroupKey) :
    (Equivalence fun v w : { v : Value // v.isValid = true } => (v.1 == w.1) = true) ∧
      ((a == b) = true → (a.digest = b.digest ↔ a.zeroSigns = b.zeroSigns) ∧
        (a.sameKey b = true ↔ a.zeroSigns = b.zeroSigns)) ∧
      (k.same l = true →
        (k.sameGroup l = true ↔ zeroSignsOfItems k.values = zeroSignsOfItems l.values)) := by
  refine ⟨equivalence_same, fun h => ?_, fun h => ?_⟩
  · have digests := digest_eq_iff h
    refine ⟨digests, ?_⟩
    rw [sameKey, h, Bool.and_true, beq_iff_eq, digests]
  · rw [GroupKey.sameGroup, h, Bool.and_true, beq_iff_eq, digestItems_eq_iff h]

/-- A document with two zeros. -/
def zeros (first second : Bool) : Value :=
  .json (.object [("a", .number (.real (.zero first))), ("b", .number (.real (.zero second)))])

/-- Both documents hold one zero of each sign, in turn and in a list with another value. -/
theorem zeros_sameKey_iff :
    (list [text "x", zeros true false] == list [text "x", zeros false true]) = true ∧
      (list [text "x", zeros true false]).sameKey (list [text "x", zeros false true]) = false ∧
      ((⟨[zeros true false, null]⟩ : GroupKey).same ⟨[zeros true false, null]⟩ = true ∧
        (⟨[zeros true false, null]⟩ : GroupKey).sameGroup ⟨[zeros true false, null]⟩ = true) := by
  have equal : (list [text "x", zeros true false] == list [text "x", zeros false true]) = true := by
    decide +kernel
  have one : (⟨[zeros true false, null]⟩ : GroupKey).same ⟨[zeros true false, null]⟩ = true := by
    decide +kernel
  obtain ⟨-, keys, groups⟩ := sameKey_iff_of_same (list [text "x", zeros true false])
    (list [text "x", zeros false true]) ⟨[zeros true false, null]⟩ ⟨[zeros true false, null]⟩
  refine ⟨equal, ?_, one, (groups one).2 rfl⟩
  rw [Bool.eq_false_iff, ne_eq, (keys equal).2]
  decide +kernel

/-- Zeros of both signs are equal documents, but not one key. -/
theorem zeros_apart :
    (json (.number (.real (.zero false))) == json (.number (.real (.zero true)))) = true ∧
      (json (.number (.real (.zero false)))).digest ≠ (json (.number (.real (.zero true)))).digest ∧
      firstPositions [json (.number (.real (.zero false))), json (.number (.real (.zero true)))] =
        [0, 1] := by
  decide +kernel

end Value

end TypedQuery
