import Mathlib.Tactic.Tauto
import TypedQuery.Value.Key

/-!
# Values that are one key

Being one key is symmetric and transitive. It need not be reflexive, because a document may hold
what is not a number, so nothing here looks a key up by itself.
-/

namespace TypedQuery

theorem beq_trans {α : Type} [BEq α] [LawfulBEq α] {a b c : α} (h : (a == b) = true)
    (h' : (b == c) = true) : (a == c) = true :=
  beq_iff_eq.2 ((beq_iff_eq.1 h).trans (beq_iff_eq.1 h'))

namespace Double

variable {x y z : Double}

/-- Numbers are the same when both are numbers with one place in the order. -/
theorem sameNumber_iff :
    x.sameNumber y = true ↔ x.isNaN = false ∧ y.isNaN = false ∧ x.rank = y.rank := by
  unfold sameNumber compare?
  cases hx : x.isNaN <;> cases hy : y.isNaN <;> simp

theorem sameNumber_comm (x y : Double) : x.sameNumber y = y.sameNumber x := by
  rw [Bool.eq_iff_iff, sameNumber_iff, sameNumber_iff, eq_comm (a := x.rank)]
  tauto

theorem sameNumber_trans (h : x.sameNumber y = true) (h' : y.sameNumber z = true) :
    x.sameNumber z = true := by
  rw [sameNumber_iff] at *
  exact ⟨h.1, h'.2.1, h.2.2.trans h'.2.2⟩

end Double

namespace JsonNumber

variable {a b c : JsonNumber}

theorem same_comm (a b : JsonNumber) : a.same b = b.same a := by
  cases a <;> cases b <;> simp [same, Bool.beq_comm, Double.sameNumber_comm]

theorem same_trans (h : a.same b = true) (h' : b.same c = true) : a.same c = true := by
  cases a <;> cases b <;> cases c <;> simp_all [same]
  exact Double.sameNumber_trans h h'

end JsonNumber

namespace Json

mutual

theorem same_comm : ∀ a b : Json, same a b = same b a
  | .null, b => by cases b <;> rfl
  | .bool x, b => by cases b <;> simp [same, Bool.beq_comm]
  | .number x, b => by cases b <;> simp [same, JsonNumber.same_comm]
  | .text x, b => by cases b <;> simp [same, Bool.beq_comm]
  | .array xs, b => by
      cases b with
      | array ys => exact sameItems_comm xs ys
      | _ => rfl
  | .object xs, b => by
      cases b with
      | object ys => exact sameFields_comm xs ys
      | _ => rfl

theorem sameItems_comm : ∀ as bs : List Json, sameItems as bs = sameItems bs as
  | [], [] | [], _ :: _ | _ :: _, [] => rfl
  | a :: as, b :: bs => by rw [sameItems, sameItems, same_comm a b, sameItems_comm as bs]

theorem sameFields_comm : ∀ as bs : List (String × Json), sameFields as bs = sameFields bs as
  | [], [] | [], _ :: _ | _ :: _, [] => rfl
  | (k, a) :: as, (l, b) :: bs => by
      rw [sameFields, sameFields, same_comm a b, sameFields_comm as bs, Bool.beq_comm]

end

mutual

theorem same_trans : ∀ a b c : Json, same a b = true → same b c = true → same a c = true
  | .null, .null, .null, _, _ => rfl
  | .bool x, .bool y, .bool z, h, h' => beq_trans h h'
  | .number x, .number y, .number z, h, h' => JsonNumber.same_trans h h'
  | .text x, .text y, .text z, h, h' => beq_trans h h'
  | .array xs, .array ys, .array zs, h, h' => sameItems_trans xs ys zs h h'
  | .object xs, .object ys, .object zs, h, h' => sameFields_trans xs ys zs h h'

theorem sameItems_trans : ∀ as bs cs : List Json,
    sameItems as bs = true → sameItems bs cs = true → sameItems as cs = true
  | [], [], [], _, _ => rfl
  | a :: as, b :: bs, c :: cs, h, h' => by
      simp only [sameItems, Bool.and_eq_true] at h h' ⊢
      exact ⟨same_trans a b c h.1 h'.1, sameItems_trans as bs cs h.2 h'.2⟩

theorem sameFields_trans : ∀ as bs cs : List (String × Json),
    sameFields as bs = true → sameFields bs cs = true → sameFields as cs = true
  | [], [], [], _, _ => rfl
  | (k, a) :: as, (l, b) :: bs, (m, c) :: cs, h, h' => by
      simp only [sameFields, Bool.and_eq_true, beq_iff_eq] at h h' ⊢
      exact ⟨⟨h.1.1.trans h'.1.1, same_trans a b c h.1.2 h'.1.2⟩,
        sameFields_trans as bs cs h.2 h'.2⟩

end

end Json

namespace Value

mutual

theorem same_comm : ∀ a b : Value, same a b = same b a
  | .null, b => by cases b <;> rfl
  | .bool x, b => by cases b <;> simp [same, Bool.beq_comm]
  | .int x, b => by cases b <;> simp [same, Bool.beq_comm]
  | .float x, b => by cases b <;> simp [same, Bool.beq_comm]
  | .decimal x, b => by cases b <;> simp [same, Bool.beq_comm]
  | .text x, b => by cases b <;> simp [same, Bool.beq_comm]
  | .uuid x, b => by cases b <;> simp [same, Bool.beq_comm]
  | .timestamp x, b => by cases b <;> simp [same, Bool.beq_comm]
  | .date x, b => by cases b <;> simp [same, Bool.beq_comm]
  | .json x, b => by
      cases b with
      | json y => exact Json.same_comm x y
      | _ => rfl
  | .list xs, b => by
      cases b with
      | list ys => exact sameItems_comm xs ys
      | _ => rfl

theorem sameItems_comm : ∀ as bs : List Value, sameItems as bs = sameItems bs as
  | [], [] | [], _ :: _ | _ :: _, [] => rfl
  | a :: as, b :: bs => by rw [sameItems, sameItems, same_comm a b, sameItems_comm as bs]

end

/-- Only documents and lists are compared by their parts. -/
theorem eq_of_same : ∀ {a b : Value}, same a b = true → (∀ x, a ≠ .json x) →
    (∀ xs, a ≠ .list xs) → a = b
  | .null, b, h, _, _ => by
      cases b with
      | null => rfl
      | _ => cases h
  | .bool x, b, h, _, _ => by
      cases b with
      | bool y => exact congrArg bool (beq_iff_eq.1 h)
      | _ => cases h
  | .int x, b, h, _, _ => by
      cases b with
      | int y => exact congrArg int (beq_iff_eq.1 h)
      | _ => cases h
  | .float x, b, h, _, _ => by
      cases b with
      | float y => exact congrArg float (beq_iff_eq.1 h)
      | _ => cases h
  | .decimal x, b, h, _, _ => by
      cases b with
      | decimal y => exact congrArg decimal (beq_iff_eq.1 h)
      | _ => cases h
  | .text x, b, h, _, _ => by
      cases b with
      | text y => exact congrArg text (beq_iff_eq.1 h)
      | _ => cases h
  | .uuid x, b, h, _, _ => by
      cases b with
      | uuid y => exact congrArg uuid (beq_iff_eq.1 h)
      | _ => cases h
  | .timestamp x, b, h, _, _ => by
      cases b with
      | timestamp y => exact congrArg timestamp (beq_iff_eq.1 h)
      | _ => cases h
  | .date x, b, h, _, _ => by
      cases b with
      | date y => exact congrArg date (beq_iff_eq.1 h)
      | _ => cases h
  | .json x, _, _, noJson, _ => absurd rfl (noJson x)
  | .list xs, _, _, _, noList => absurd rfl (noList xs)

mutual

theorem same_trans (a b c : Value) (h : same a b = true) (h' : same b c = true) :
    same a c = true := by
  cases a with
  | json x =>
      cases b with
      | json y =>
          cases c with
          | json z => exact Json.same_trans x y z h h'
          | _ => cases h'
      | _ => cases h
  | list xs =>
      cases b with
      | list ys =>
          cases c with
          | list zs => exact sameItems_trans xs ys zs h h'
          | _ => cases h'
      | _ => cases h
  | _ =>
      obtain rfl := eq_of_same h (by simp) (by simp)
      exact h'

theorem sameItems_trans : ∀ as bs cs : List Value,
    sameItems as bs = true → sameItems bs cs = true → sameItems as cs = true
  | [], [], [], _, _ => rfl
  | a :: as, b :: bs, c :: cs, h, h' => by
      simp only [sameItems, Bool.and_eq_true] at h h' ⊢
      exact ⟨same_trans a b c h.1 h'.1, sameItems_trans as bs cs h.2 h'.2⟩

end

/-- Values that are one key with the same value are one key with each other. -/
theorem sameKey_of_sameKey {a b k : Value} (ha : a.sameKey k = true) (hb : b.sameKey k = true) :
    a.sameKey b = true := by
  simp only [sameKey, Bool.and_eq_true, beq_iff_eq] at ha hb ⊢
  refine ⟨ha.1.trans hb.1.symm, same_trans a k b ha.2 ?_⟩
  rw [same_comm]
  exact hb.2

/-- The value is NULL, or of a kind other than that of documents. -/
def NoDocument (v : Value) : Prop := v ≠ null → ∃ k, v.kind? = some k ∧ k ≠ .json

/-- Only documents, and lists that hold them, can be equal and have two digests. -/
theorem NoDocument.digest_eq {a b : Value} (h : a.NoDocument) (hsame : same a b = true) :
    a.digest = b.digest := by
  refine congrArg digest (eq_of_same hsame ?_ ?_)
  · rintro x rfl
    obtain ⟨k, hk, other⟩ := h (by simp)
    exact other (Option.some.inj hk).symm
  · rintro xs rfl
    obtain ⟨k, hk, -⟩ := h (by simp)
    cases hk

theorem digestItems_eq_of_sameItems : ∀ {as bs : List Value}, (∀ a ∈ as, a.NoDocument) →
    sameItems as bs = true → digestItems as = digestItems bs
  | [], [], _, _ => rfl
  | a :: as, b :: bs, h, hsame => by
      obtain ⟨ha, has⟩ := List.forall_mem_cons.1 h
      obtain ⟨first, others⟩ := Bool.and_eq_true_iff.1 hsame
      rw [digestItems, digestItems, ha.digest_eq first, digestItems_eq_of_sameItems has others]

end Value

namespace GroupKey

variable {a b k : GroupKey}

theorem same_comm (a b : GroupKey) : a.same b = b.same a := Value.sameItems_comm _ _

theorem same_trans (ha : a.same b = true) (hb : b.same k = true) : a.same k = true :=
  Value.sameItems_trans _ _ _ ha hb

/-- Keys that are equal to a third are equal to each other. -/
theorem same_of_same (ha : a.same k = true) (hb : b.same k = true) : a.same b = true :=
  same_trans ha (same_comm b k ▸ hb)

end GroupKey

end TypedQuery
