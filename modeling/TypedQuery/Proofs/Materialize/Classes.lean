import Mathlib.Data.List.Basic
import Mathlib.Data.List.Nodup

/-!
# Classes in first-seen order

A list is divided by a test of sameness: every class is the first element of it with the later
ones that are the same. Nothing is asked of the test to begin with. Where elements that are the
same as a third are the same as each other, at most one class takes a new element.
-/

namespace TypedQuery

variable {α ι : Type} (same : α → α → Bool)

/-- The elements that differ from a given one. -/
def differing (x : α) (xs : List α) : List α := xs.filter fun y => !same x y

theorem length_differing_le (x : α) (xs : List α) : (differing same x xs).length ≤ xs.length :=
  List.length_filter_le ..

def classes : List α → List (α × List α)
  | [] => []
  | x :: xs => (x, xs.filter (same x)) :: classes (differing same x xs)
termination_by xs => xs.length
decreasing_by exact Nat.lt_succ_of_le (length_differing_le same x xs)

/-- Puts an element into the first class whose first element is the same, or into a new one. -/
def addTo (x : α) : List (α × List α) → List (α × List α)
  | [] => [(x, [])]
  | (y, ys) :: rest => if same y x then (y, ys ++ [x]) :: rest else (y, ys) :: addTo x rest

/-- Elements that are the same as a third are the same as each other. -/
def Euclidean : Prop := ∀ a b x, same a x = true → same b x = true → same a b = true

variable {same} {x : α} {xs : List α}

/-- Classes grow as elements come in. -/
theorem classes_concat (xs : List α) :
    classes same (xs ++ [x]) = addTo same x (classes same xs) := by
  induction xs using classes.induct same with
  | case1 => simp [classes, addTo, differing]
  | case2 y ys ih =>
      rw [List.cons_append, classes, classes, addTo, List.filter_append]
      cases hx : same y x with
      | true => simp [hx, differing]
      | false =>
          have hdiffering : differing same y (ys ++ [x]) = differing same y ys ++ [x] := by
            simp [differing, hx]
          simp [hx, hdiffering, ih]

/-- Tests that agree on a list make the same classes of it. -/
theorem classes_congr {same' : α → α → Bool} (xs : List α)
    (h : ∀ a ∈ xs, ∀ b ∈ xs, same a b = same' a b) : classes same xs = classes same' xs := by
  induction xs using classes.induct same with
  | case1 => simp [classes]
  | case2 y ys ih =>
      have hy (z : α) (hz : z ∈ ys) : same y z = same' y z :=
        h y List.mem_cons_self z (List.mem_cons_of_mem y hz)
      have hdiffering : differing same y ys = differing same' y ys :=
        List.filter_congr fun z hz => by rw [hy z hz]
      have hrest (z : α) (hz : z ∈ differing same y ys) : z ∈ y :: ys :=
        List.mem_cons_of_mem y (List.mem_filter.1 hz).1
      rw [classes, classes, ← hdiffering, List.filter_congr hy,
        ih fun a ha b hb => h a (hrest a ha) b (hrest b hb)]

theorem mem_of_mem_classes {c : α × List α} (xs : List α) (h : c ∈ classes same xs) : c.1 ∈ xs := by
  induction xs using classes.induct same with
  | case1 => simp [classes] at h
  | case2 y ys ih =>
      rw [classes] at h
      rcases List.mem_cons.1 h with rfl | h
      · exact List.mem_cons_self
      · exact List.mem_cons_of_mem y (List.mem_filter.1 (ih h)).1

theorem pairwise_classes (xs : List α) :
    (classes same xs).Pairwise fun a b => same a.1 b.1 = false := by
  induction xs using classes.induct same with
  | case1 => simp [classes]
  | case2 y ys ih =>
      rw [classes]
      refine List.pairwise_cons.2 ⟨?_, ih⟩
      intro c hc
      simpa using (List.mem_filter.1 (mem_of_mem_classes _ hc)).2

/-- Every element is in one class. -/
theorem perm_classes (xs : List α) :
    ((classes same xs).flatMap fun c => c.1 :: c.2).Perm xs := by
  induction xs using classes.induct same with
  | case1 => simp [classes]
  | case2 y ys ih =>
      rw [classes, List.flatMap_cons]
      have hsplit : (ys.filter (same y) ++ differing same y ys).Perm ys :=
        List.filter_append_perm (same y) ys
      exact .cons y ((List.Perm.append_left _ ih).trans hsplit)

theorem mem_of_mem_class {c : α × List α} (hc : c ∈ classes same xs) (hx : x ∈ c.1 :: c.2) :
    x ∈ xs :=
  (perm_classes xs).subset (List.mem_flatMap.2 ⟨c, hc, hx⟩)

theorem same_of_mem_class {c : α × List α} (xs : List α) (hc : c ∈ classes same xs)
    (hx : x ∈ c.1 :: c.2) (self : same x x = true) : same c.1 x = true := by
  induction xs using classes.induct same with
  | case1 => simp [classes] at hc
  | case2 y ys ih =>
      rw [classes] at hc
      rcases List.mem_cons.1 hc with rfl | hc
      · rcases List.mem_cons.1 hx with rfl | hx
        · exact self
        · exact (List.mem_filter.1 hx).2
      · exact ih hc

theorem exists_class_of_mem (hx : x ∈ xs) : ∃ c ∈ classes same xs, x ∈ c.1 :: c.2 :=
  List.mem_flatMap.1 ((perm_classes xs).symm.subset hx)

/-- A class is made of all elements that are the same as its first one. -/
theorem filter_of_mem_classes (symm : ∀ a b, same a b = same b a) (euclid : Euclidean same)
    {c : α × List α} (xs : List α) (h : c ∈ classes same xs) (self : same c.1 c.1 = true) :
    xs.filter (same c.1) = c.1 :: c.2 := by
  induction xs using classes.induct same with
  | case1 => simp [classes] at h
  | case2 y ys ih =>
      rw [classes] at h
      rcases List.mem_cons.1 h with rfl | h
      · exact List.filter_cons_of_pos self
      · have hother : same y c.1 = false := by
          simpa using (List.mem_filter.1 (mem_of_mem_classes _ h)).2
        have hkept : (ys.filter (same c.1)) = (differing same y ys).filter (same c.1) := by
          rw [differing, List.filter_filter]
          apply List.filter_congr
          intro z _
          cases hz : same c.1 z with
          | false => rfl
          | true =>
              have hdiffers : same y z = false := by
                by_contra hyz
                rw [euclid y c.1 z (by simpa using hyz) hz] at hother
                cases hother
              simp [hdiffers]
        rw [List.filter_cons_of_neg (by simp [symm c.1 y, hother]), hkept, ih h]

/-- The classes of a part that no class crosses are some of the classes of the whole. -/
theorem classes_filter {P : α → Bool} (closed : ∀ a b, same a b = true → P a = P b) (xs : List α) :
    classes same (xs.filter P) = (classes same xs).filter fun c => P c.1 := by
  induction xs using classes.induct same with
  | case1 => simp [classes]
  | case2 y ys ih =>
      rw [classes, List.filter_cons, List.filter_cons]
      cases hy : P y with
      | true =>
          have hsame : (ys.filter P).filter (same y) = ys.filter (same y) := by
            rw [List.filter_filter]
            apply List.filter_congr
            intro z _
            cases hz : same y z with
            | true => simp [← closed y z hz, hy]
            | false => rfl
          have hdiffering : differing same y (ys.filter P) = (differing same y ys).filter P := by
            rw [differing, differing, List.filter_comm]
          rw [if_pos rfl, if_pos rfl, classes, hsame, hdiffering, ih]
      | false =>
          have hdiffering : ys.filter P = (differing same y ys).filter P := by
            rw [differing, List.filter_filter]
            apply List.filter_congr
            intro z _
            cases hz : same y z with
            | true => simp [← closed y z hz, hy]
            | false => simp
          rw [if_neg (by simp), if_neg (by simp), hdiffering, ih]

theorem classes_map {β : Type} (f : β → α) (ys : List β) :
    classes same (ys.map f) =
      (classes (fun a b => same (f a) (f b)) ys).map fun c => (f c.1, c.2.map f) := by
  induction ys using classes.induct (fun a b => same (f a) (f b)) with
  | case1 => simp [classes]
  | case2 y ys ih =>
      have hdiffering : differing same (f y) (ys.map f) =
          (differing (fun a b => same (f a) (f b)) y ys).map f := by
        rw [differing, differing, List.filter_map]
        rfl
      rw [List.map_cons, classes, classes, List.map_cons, hdiffering, ih, List.filter_map]
      rfl

/-- At most one of the classes takes an element. -/
theorem eq_of_same_classes {is : List ι} {F : ι → α × List α} (euclid : Euclidean same)
    (h : classes same xs = is.map F) {i j : ι} (hi : i ∈ is) (hj : j ∈ is)
    (hix : same (F i).1 x = true) (hjx : same (F j).1 x = true) : i = j := by
  have hpairs : (classes same xs).Pairwise fun a b => same a.1 b.1 = false := pairwise_classes xs
  rw [h, List.pairwise_map] at hpairs
  obtain ⟨m, hm, rfl⟩ := List.getElem_of_mem hi
  obtain ⟨n, hn, rfl⟩ := List.getElem_of_mem hj
  have hfalse := List.pairwise_iff_getElem.1 hpairs
  rcases Nat.lt_trichotomy m n with hlt | rfl | hgt
  · have := hfalse m n hm hn hlt
    rw [euclid _ _ x hix hjx] at this
    cases this
  · rfl
  · have := hfalse n m hn hm hgt
    rw [euclid _ _ x hjx hix] at this
    cases this

/-- The class that takes an element is the one that changes. -/
theorem addTo_map {is : List ι} {F F' : ι → α × List α} {i : ι} (hi : i ∈ is)
    (hix : same (F i).1 x = true) (unique : ∀ j ∈ is, same (F j).1 x = true → j = i)
    (nodup : is.Nodup) (taken : F' i = ((F i).1, (F i).2 ++ [x]))
    (kept : ∀ j ∈ is, j ≠ i → F' j = F j) : addTo same x (is.map F) = is.map F' := by
  induction is with
  | nil => cases hi
  | cons j is ih =>
      obtain ⟨hfresh, hnodup⟩ := List.nodup_cons.1 nodup
      by_cases hji : j = i
      · subst hji
        have hrest : is.map F' = is.map F :=
          List.map_congr_left fun k hk => kept k (by simp [hk]) fun heq => hfresh (heq ▸ hk)
        rw [List.map_cons, List.map_cons, addTo, if_pos hix, taken, hrest]
      · have hmem : i ∈ is := (List.mem_cons.1 hi).resolve_left fun h => hji h.symm
        have hother : same (F j).1 x ≠ true := fun h => hji (unique j (by simp) h)
        rw [List.map_cons, List.map_cons, addTo, if_neg hother, kept j (by simp) hji,
          ih hmem (fun k hk => unique k (by simp [hk])) hnodup fun k hk => kept k (by simp [hk])]

/-- An element that no class takes is a class of its own. -/
theorem addTo_of_new {cs : List (α × List α)} (h : ∀ c ∈ cs, same c.1 x = false) :
    addTo same x cs = cs ++ [(x, [])] := by
  induction cs with
  | nil => rfl
  | cons c cs ih =>
      rw [addTo, if_neg (by simp [h c (by simp)]), ih fun d hd => h d (by simp [hd]),
        List.cons_append]

end TypedQuery
