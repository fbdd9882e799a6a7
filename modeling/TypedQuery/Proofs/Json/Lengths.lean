import Mathlib.Order.Nat
import TypedQuery.Json.Reader

/-!
# Readers of documents consume their text

What a reader leaves is no longer than what it was given, and a string that it reads is shorter than
that. So no document is read from a text that it holds.
-/

namespace TypedQuery.Json

variable {cs rest : List Char}

theorem length_skipSpace_le (cs : List Char) : (skipSpace cs).length ≤ cs.length :=
  (List.dropWhile_suffix isSpace).length_le

theorem length_of_skipSpace {c : Char} (h : skipSpace cs = c :: rest) :
    rest.length < cs.length := by
  have hle := length_skipSpace_le cs
  rwa [h, List.length_cons] at hle

theorem length_of_skipWord? {ws : List Char} (h : skipWord? ws cs = some rest) :
    rest.length ≤ cs.length := by
  induction ws generalizing cs with
  | nil =>
      obtain rfl := Option.some.inj h
      exact Nat.le_refl _
  | cons w ws ih =>
      cases cs with
      | nil => cases h
      | cons c cs =>
          rw [skipWord?] at h
          split at h
          · exact Nat.le_succ_of_le (ih h)
          · cases h

/-! ## Numbers -/

theorem length_of_takeWhole? {ds : List Char} (h : takeWhole? cs = some (ds, rest)) :
    rest.length ≤ cs.length := by
  unfold takeWhole? at h
  split at h <;> cases h <;> simp

theorem length_of_takeFraction? {ds : Option (List Char)}
    (h : takeFraction? cs = some (ds, rest)) : rest.length ≤ cs.length := by
  unfold takeFraction? at h
  split at h
  · dsimp only at h
    split at h
    · cases h
    · cases h
      simp only [List.length_drop, List.length_cons]
      omega
  · cases h
    exact Nat.le_refl _

theorem length_of_takeExponent? {e : Option Int} (h : takeExponent? cs = some (e, rest)) :
    rest.length ≤ cs.length := by
  unfold takeExponent? at h
  split at h
  · cases h
    exact Nat.le_refl _
  split at h
  · -- the sign is split off first
    split at h
    rename_i c cs _ _ sign digits hsign
    have hdigits : digits.length ≤ cs.length := by
      split at hsign <;> cases hsign
      · exact Nat.le_succ _
      · exact Nat.le_succ _
      · exact Nat.le_refl _
    dsimp only at h
    split at h
    · cases h
    · cases h
      simp only [List.length_drop, List.length_cons]
      omega
  · cases h
    exact Nat.le_refl _

theorem length_of_takeMagnitude? {negative : Bool} {n : JsonNumber}
    (h : takeMagnitude? negative cs = some (n, rest)) : rest.length ≤ cs.length := by
  unfold takeMagnitude? at h
  obtain ⟨⟨whole, cs₁⟩, hwhole, h⟩ := Option.bind_eq_some_iff.1 h
  obtain ⟨⟨fraction, cs₂⟩, hfraction, h⟩ := Option.bind_eq_some_iff.1 h
  obtain ⟨⟨exponent, cs₃⟩, hexponent, h⟩ := Option.bind_eq_some_iff.1 h
  have hle : cs₃.length ≤ cs.length :=
    calc cs₃.length ≤ cs₂.length := length_of_takeExponent? hexponent
      _ ≤ cs₁.length := length_of_takeFraction? hfraction
      _ ≤ cs.length := length_of_takeWhole? hwhole
  dsimp only at h
  split at h
  · cases h
    exact hle
  · split at h
    · cases h
      exact hle
    · obtain ⟨x, -, h⟩ := Option.bind_eq_some_iff.1 h
      cases h
      exact hle

theorem length_of_takeNumber? {n : JsonNumber} (h : takeNumber? cs = some (n, rest)) :
    rest.length ≤ cs.length := by
  unfold takeNumber? at h
  split at h
  · exact Nat.le_succ_of_le (length_of_takeMagnitude? h)
  · exact length_of_takeMagnitude? h

/-! ## Strings -/

theorem length_of_takeUnit? {u : Nat} (h : takeUnit? cs = some (u, rest)) :
    rest.length ≤ cs.length := by
  unfold takeUnit? at h
  split at h
  · cases h
  · obtain ⟨_, -, heq⟩ := Option.map_eq_some_iff.1 h
    cases heq
    simp

theorem length_of_takeUnits? {c : Char} (h : takeUnits? cs = some (c, rest)) :
    rest.length ≤ cs.length := by
  unfold takeUnits? at h
  obtain ⟨⟨high, cs₁⟩, hhigh, h⟩ := Option.bind_eq_some_iff.1 h
  have hle := length_of_takeUnit? hhigh
  dsimp only at h
  split at h
  · cases h
    exact hle
  · split at h
    · cases h
    · obtain ⟨cs₂, hword, h⟩ := Option.bind_eq_some_iff.1 h
      obtain ⟨⟨low, cs₃⟩, hlow, h⟩ := Option.bind_eq_some_iff.1 h
      dsimp only at h
      split at h
      · cases h
      · obtain ⟨-, rfl⟩ := Prod.mk.inj (Option.some.inj h)
        calc cs₃.length ≤ cs₂.length := length_of_takeUnit? hlow
          _ ≤ cs₁.length := length_of_skipWord? hword
          _ ≤ cs.length := hle

theorem length_of_takeEscape? {c : Char} (h : takeEscape? cs = some (c, rest)) :
    rest.length < cs.length := by
  unfold takeEscape? at h
  split at h
  case h_9 => exact Nat.lt_succ_of_le (length_of_takeUnits? h)
  case h_10 => cases h
  all_goals
    cases h
    exact Nat.lt_succ_self _

/-- A string is read from as many characters as it has, at least, and its closing quote. -/
theorem length_of_takeString? {fuel : Nat} {read : List Char} {s : String}
    (h : takeString? fuel read cs = some (s, rest)) :
    s.length + rest.length < read.length + cs.length := by
  induction fuel generalizing read cs with
  | zero => cases h
  | succ fuel ih =>
      cases cs with
      | nil => cases h
      | cons c cs =>
          unfold takeString? at h
          split at h
          · cases h
            simp
          split at h
          · obtain ⟨⟨d, cs₁⟩, hescape, h⟩ := Option.bind_eq_some_iff.1 h
            have hrest := ih h
            have hlt := length_of_takeEscape? hescape
            simp only [List.length_cons] at hrest ⊢
            omega
          split at h
          · cases h
          · have hrest := ih h
            simp only [List.length_cons] at hrest ⊢
            omega

theorem length_of_takeKey? {key : String} (h : takeKey? cs = some (key, rest)) :
    rest.length ≤ cs.length := by
  unfold takeKey? at h
  split at h
  · have hlt := length_of_takeString? h
    simp only [List.length_nil, List.length_cons] at hlt ⊢
    omega
  · cases h

/-! ## Documents -/

/-- All texts that a document is, or has as a field, are shorter than a number. -/
def TextsBelow (n : Nat) : Json → Prop
  | .text s => s.length < n
  | .object fields => ∀ k s, (k, Json.text s) ∈ fields → s.length < n
  | _ => True

theorem mem_putField {key : String} {value : Json} {fields : List (String × Json)}
    {f : String × Json} (h : f ∈ putField key value fields) : f = (key, value) ∨ f ∈ fields := by
  induction fields with
  | nil => exact .inl (List.mem_singleton.1 h)
  | cons g fields ih =>
      obtain ⟨k, v⟩ := g
      rw [putField] at h
      split at h
      · exact (List.mem_cons.1 h).imp id (List.mem_cons_of_mem _)
      split at h
      · exact List.mem_cons.1 h
      · rcases List.mem_cons.1 h with rfl | h
        · exact .inr List.mem_cons_self
        · exact (ih h).imp id (List.mem_cons_of_mem _)

/-- An object has no fields but those that it is made of. -/
theorem mem_of_foldl_putField {sorted fields : List (String × Json)} {f : String × Json}
    (h : f ∈ fields.foldl (fun sorted (k, v) => putField k v sorted) sorted) :
    f ∈ sorted ∨ f ∈ fields := by
  induction fields generalizing sorted with
  | nil => exact .inl h
  | cons g fields ih =>
      rcases ih h with h | h
      · rcases mem_putField h with rfl | h
        · exact .inr List.mem_cons_self
        · exact .inl h
      · exact .inr (List.mem_cons_of_mem _ h)

theorem textsBelow_ofFields {n : Nat} {fields : List (String × Json)}
    (h : ∀ k s, (k, Json.text s) ∈ fields → s.length < n) : TextsBelow n (ofFields fields) := by
  intro k s hf
  exact h k s ((mem_of_foldl_putField hf).resolve_left nofun)

/-- What is read with some fuel, told by its length. -/
structure Shortens (fuel : Nat) : Prop where
  value : ∀ {depth cs j rest}, takeValue? fuel depth cs = some (j, rest) →
    rest.length ≤ cs.length ∧ TextsBelow cs.length j
  items : ∀ {depth cs items rest}, takeItems? fuel depth cs = some (items, rest) →
    rest.length ≤ cs.length
  fields : ∀ {depth cs fields rest}, takeFields? fuel depth cs = some (fields, rest) →
    rest.length ≤ cs.length ∧ ∀ k s, (k, Json.text s) ∈ fields → s.length < cs.length

variable {fuel depth : Nat}

/-- A word that stands for a document that is no text. -/
theorem length_of_word {ws : List Char} {c : Char} {w j : Json}
    (h : (skipWord? ws cs).map ((w, ·)) = some (j, rest))
    (below : TextsBelow (c :: cs).length w) :
    rest.length ≤ (c :: cs).length ∧ TextsBelow (c :: cs).length j := by
  obtain ⟨_, hword, heq⟩ := Option.map_eq_some_iff.1 h
  cases heq
  exact ⟨Nat.le_succ_of_le (length_of_skipWord? hword), below⟩

theorem takeValue?_succ (ih : Shortens fuel) {j : Json}
    (h : takeValue? (fuel + 1) depth cs = some (j, rest)) :
    rest.length ≤ cs.length ∧ TextsBelow cs.length j := by
  unfold takeValue? at h
  dsimp only at h
  split at h
  case h_1 => exact length_of_word h trivial
  case h_2 => exact length_of_word h trivial
  case h_3 => exact length_of_word h trivial
  case h_4 =>
    obtain ⟨⟨s, rest'⟩, hstring, heq⟩ := Option.map_eq_some_iff.1 h
    cases heq
    have hlt := length_of_takeString? hstring
    simp only [List.length_nil, List.length_cons, TextsBelow] at hlt ⊢
    omega
  case h_5 cs =>
    split at h
    · cases h
    split at h
    · rename_i hclose
      cases h
      exact ⟨(length_of_skipSpace hclose).le.trans (Nat.le_succ _), trivial⟩
    · obtain ⟨⟨items, rest'⟩, hitems, heq⟩ := Option.map_eq_some_iff.1 h
      cases heq
      have hle := (ih.items hitems).trans (length_skipSpace_le cs)
      exact ⟨Nat.le_succ_of_le hle, trivial⟩
  case h_6 cs =>
    have hspace := length_skipSpace_le cs
    split at h
    · cases h
    split at h
    · rename_i hclose
      cases h
      exact ⟨(length_of_skipSpace hclose).le.trans (Nat.le_succ _), nofun⟩
    · obtain ⟨⟨fields, rest'⟩, hfields, heq⟩ := Option.map_eq_some_iff.1 h
      cases heq
      obtain ⟨hrest, below⟩ := ih.fields hfields
      refine ⟨Nat.le_succ_of_le (hrest.trans hspace), textsBelow_ofFields ?_⟩
      intro k s hs
      exact Nat.lt_succ_of_lt ((below k s hs).trans_le hspace)
  case h_7 =>
    obtain ⟨⟨n, rest'⟩, hnumber, heq⟩ := Option.map_eq_some_iff.1 h
    cases heq
    exact ⟨length_of_takeNumber? hnumber, trivial⟩

theorem takeItems?_succ (ih : Shortens fuel) {items : List Json}
    (h : takeItems? (fuel + 1) depth cs = some (items, rest)) : rest.length ≤ cs.length := by
  unfold takeItems? at h
  obtain ⟨⟨item, cs₁⟩, hitem, h⟩ := Option.bind_eq_some_iff.1 h
  have hvalue := (ih.value hitem).1
  dsimp only at h
  split at h
  · rename_i rest' hclose
    cases h
    exact (length_of_skipSpace hclose).le.trans hvalue
  · rename_i cs₂ hcomma
    obtain ⟨⟨items', rest'⟩, hitems, h⟩ := Option.bind_eq_some_iff.1 h
    dsimp only at h
    cases h
    calc rest.length ≤ (skipSpace cs₂).length := ih.items hitems
      _ ≤ cs₂.length := length_skipSpace_le cs₂
      _ ≤ cs₁.length := (length_of_skipSpace hcomma).le
      _ ≤ cs.length := hvalue
  · cases h

theorem takeFields?_succ (ih : Shortens fuel) {fields : List (String × Json)}
    (h : takeFields? (fuel + 1) depth cs = some (fields, rest)) :
    rest.length ≤ cs.length ∧ ∀ k s, (k, Json.text s) ∈ fields → s.length < cs.length := by
  unfold takeFields? at h
  obtain ⟨⟨key, cs₁⟩, hkey, h⟩ := Option.bind_eq_some_iff.1 h
  dsimp only at h
  split at h
  · rename_i cs₂ hcolon
    have front : (skipSpace cs₂).length ≤ cs.length :=
      calc (skipSpace cs₂).length ≤ cs₂.length := length_skipSpace_le cs₂
        _ ≤ cs₁.length := (length_of_skipSpace hcolon).le
        _ ≤ cs.length := length_of_takeKey? hkey
    obtain ⟨⟨value, cs₃⟩, hvalue, h⟩ := Option.bind_eq_some_iff.1 h
    obtain ⟨hrest, below⟩ := ih.value hvalue
    have first {s : String} (h : Json.text s = value) : s.length < cs.length := by
      subst h
      exact Nat.lt_of_lt_of_le below front
    dsimp only at h
    split at h
    · rename_i rest' hclose
      cases h
      refine ⟨(length_of_skipSpace hclose).le.trans (hrest.trans front), fun k s hs => first ?_⟩
      exact (Prod.mk.inj (List.mem_singleton.1 hs)).2
    · rename_i cs₄ hcomma
      have behind : (skipSpace cs₄).length ≤ cs.length :=
        calc (skipSpace cs₄).length ≤ cs₄.length := length_skipSpace_le cs₄
          _ ≤ cs₃.length := (length_of_skipSpace hcomma).le
          _ ≤ cs.length := hrest.trans front
      obtain ⟨⟨fields', rest'⟩, hfields, h⟩ := Option.bind_eq_some_iff.1 h
      dsimp only at h
      cases h
      obtain ⟨hmore, belowMore⟩ := ih.fields hfields
      refine ⟨hmore.trans behind, fun k s hs => ?_⟩
      rcases List.mem_cons.1 hs with heq | hs
      · exact first (Prod.mk.inj heq).2
      · exact (belowMore k s hs).trans_le behind
    · cases h
  · cases h

theorem shortens (fuel : Nat) : Shortens fuel := by
  induction fuel with
  | zero => exact ⟨nofun, nofun, nofun⟩
  | succ fuel ih => exact ⟨takeValue?_succ ih, takeItems?_succ ih, takeFields?_succ ih⟩

/-- No object that is read holds the text that it is read from. -/
theorem read?_ne_tagged (tag s : String) : read? s ≠ some (.tagged tag (.text s)) := by
  intro h
  obtain ⟨⟨j, rest⟩, hvalue, h⟩ := Option.bind_eq_some_iff.1 h
  dsimp only at h
  split at h
  · cases h
    have below := ((shortens _).value hvalue).2 tag s List.mem_cons_self
    have hspace := length_skipSpace_le s.toList
    rw [String.length_toList] at hspace
    omega
  · cases h

end TypedQuery.Json
