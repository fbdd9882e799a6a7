import Mathlib.Data.List.Forall2

/-!
# Steps that may fail

A sequence of steps succeeds exactly when each of them does.
-/

namespace TypedQuery

namespace Outcome

variable {ε α β : Type}

theorem bind_ok {x : Except ε α} {f : α → Except ε β} {b : β} :
    (x >>= f) = .ok b ↔ ∃ a, x = .ok a ∧ f a = .ok b := by
  cases x <;> simp [bind, Except.bind]

theorem map_ok {x : Except ε α} {f : α → β} {b : β} :
    x.map f = .ok b ↔ ∃ a, x = .ok a ∧ b = f a := by
  cases x <;> simp [Except.map, eq_comm]

theorem eq_ok_of_toOption {x : Except ε α} {a : α} (h : x.toOption = some a) : x = .ok a := by
  cases x with
  | error e => cases h
  | ok b =>
      obtain rfl := Option.some.inj h
      rfl

theorem forM_ok {f : α → Except ε Unit} {xs : List α} (h : xs.forM f = .ok ()) :
    ∀ x ∈ xs, f x = .ok () := by
  induction xs with
  | nil => simp
  | cons x xs ih =>
      have hsteps : (f x >>= fun _ => xs.forM f) = .ok () := h
      obtain ⟨_, hx, hxs⟩ := bind_ok.1 hsteps
      exact List.forall_mem_cons.2 ⟨hx, ih hxs⟩

theorem forM_of_ok {f : α → Except ε Unit} {xs : List α} (h : ∀ x ∈ xs, f x = .ok ()) :
    xs.forM f = .ok () := by
  induction xs with
  | nil => rfl
  | cons x xs ih =>
      obtain ⟨hx, hxs⟩ := List.forall_mem_cons.1 h
      show (f x >>= fun _ => xs.forM f) = .ok ()
      exact bind_ok.2 ⟨(), hx, ih hxs⟩

/-- Each element has its result at its place. -/
theorem mapM_ok_iff {f : α → Except ε β} {xs : List α} {ys : List β} :
    xs.mapM f = .ok ys ↔ List.Forall₂ (fun x y => f x = .ok y) xs ys := by
  induction xs generalizing ys with
  | nil =>
      rw [List.mapM_nil, List.forall₂_nil_left_iff]
      exact ⟨fun h => (Except.ok.inj h).symm, fun h => congrArg _ h.symm⟩
  | cons x xs ih =>
      rw [List.mapM_cons, bind_ok, List.forall₂_cons_left_iff]
      constructor
      · rintro ⟨y, hx, h⟩
        obtain ⟨rest, hrest, h⟩ := bind_ok.1 h
        exact ⟨y, rest, hx, ih.1 hrest, (Except.ok.inj h).symm⟩
      · rintro ⟨y, rest, hx, hrest, rfl⟩
        exact ⟨y, hx, bind_ok.2 ⟨rest, ih.2 hrest, rfl⟩⟩

/-- Each element has a value exactly when the values, with any default, are those of all elements. -/
theorem forall₂_some_iff {f : α → Option β} {xs : List α} {ys : List β} (default : β) :
    List.Forall₂ (fun x y => f x = some y) xs ys ↔
      (∀ x ∈ xs, (f x).isSome = true) ∧ ys = xs.map fun x => (f x).getD default := by
  induction xs generalizing ys with
  | nil => simp
  | cons x xs ih =>
      rw [List.forall₂_cons_left_iff, List.forall_mem_cons, Option.isSome_iff_exists]
      constructor
      · rintro ⟨y, rest, hy, hrest, rfl⟩
        obtain ⟨hxs, rfl⟩ := ih.1 hrest
        exact ⟨⟨⟨y, hy⟩, hxs⟩, by simp [hy]⟩
      · rintro ⟨⟨⟨y, hy⟩, hxs⟩, rfl⟩
        exact ⟨y, _, hy, ih.2 ⟨hxs, rfl⟩, by simp [hy]⟩

/-- Two passes over a list give what both steps give for each element. -/
theorem mapM_mapM_ok_iff {γ : Type} {f : α → Except ε β} {g : β → Except ε γ} {xs : List α}
    {zs : List γ} : (xs.mapM f >>= fun ys => ys.mapM g) = .ok zs ↔
      List.Forall₂ (fun x z => (f x >>= g) = .ok z) xs zs := by
  simp only [bind_ok, mapM_ok_iff]
  constructor
  · rintro ⟨ys, first, second⟩
    induction first generalizing zs with
    | nil =>
        obtain rfl := List.forall₂_nil_left_iff.1 second
        exact .nil
    | cons hx _ ih =>
        obtain ⟨z, rest, hz, hrest, rfl⟩ := List.forall₂_cons_left_iff.1 second
        exact .cons ⟨_, hx, hz⟩ (ih hrest)
  · intro h
    induction h with
    | nil => exact ⟨[], .nil, .nil⟩
    | cons hx _ ih =>
        obtain ⟨y, hy, hz⟩ := hx
        obtain ⟨ys, first, second⟩ := ih
        exact ⟨y :: ys, .cons hy first, .cons hz second⟩

theorem mem_of_mapM {f : α → Except ε β} {xs : List α} {ys : List β} (h : xs.mapM f = .ok ys) :
    ∀ y ∈ ys, ∃ x ∈ xs, f x = .ok y := by
  induction xs generalizing ys with
  | nil =>
      obtain rfl := Except.ok.inj h
      simp
  | cons x xs ih =>
      rw [List.mapM_cons, bind_ok] at h
      obtain ⟨y, hy, h⟩ := h
      obtain ⟨rest, hrest, h⟩ := bind_ok.1 h
      obtain rfl := Except.ok.inj h
      refine List.forall_mem_cons.2 ⟨⟨x, List.mem_cons_self, hy⟩, fun z hz => ?_⟩
      obtain ⟨w, hw, hfw⟩ := ih hrest z hz
      exact ⟨w, List.mem_cons_of_mem _ hw, hfw⟩

/-- What holds at the start and is kept by each step holds at the end. -/
theorem foldlM_induction {motive : β → Prop} {f : β → α → Except ε β} {xs : List α} {a b : β}
    (h : xs.foldlM f a = .ok b) (start : motive a)
    (step : ∀ x ∈ xs, ∀ a b, motive a → f a x = .ok b → motive b) : motive b := by
  induction xs generalizing a with
  | nil =>
      obtain rfl := Except.ok.inj h
      exact start
  | cons x xs ih =>
      rw [List.foldlM_cons] at h
      obtain ⟨middle, hx, hrest⟩ := bind_ok.1 h
      have hmiddle := step x (by simp) a middle start hx
      exact ih hrest hmiddle fun y hy => step y (by simp [hy])

theorem mapM_congr {f g : α → Except ε β} {xs : List α} (h : ∀ x ∈ xs, f x = g x) :
    xs.mapM f = xs.mapM g := by
  induction xs with
  | nil => rfl
  | cons x xs ih =>
      obtain ⟨hx, hxs⟩ := List.forall_mem_cons.1 h
      rw [List.mapM_cons, List.mapM_cons, hx, ih hxs]

theorem foldlM_congr {f g : β → α → Except ε β} {xs : List α} (h : ∀ x ∈ xs, ∀ b, f b x = g b x)
    (b : β) : xs.foldlM f b = xs.foldlM g b := by
  induction xs generalizing b with
  | nil => rfl
  | cons x xs ih =>
      obtain ⟨hx, hxs⟩ := List.forall_mem_cons.1 h
      rw [List.foldlM_cons, List.foldlM_cons, hx]
      exact congrArg (g b x >>= ·) (funext fun b => ih hxs b)

end Outcome

end TypedQuery
