import TypedQuery.Proofs.Sql.Vocabulary
import TypedQuery.Sql.Positional

/-!
# Finding placeholders again

A statement is text for the database, and its placeholders are looked for in that text. What
is found are the placeholders that were written exactly when the characters between them are
clear: a stem among them neither has a digit behind it nor runs into a placeholder. A stem with
a character that statements do not use otherwise leaves everything clear.
-/

namespace TypedQuery

namespace Number

/-- The digits of a number do not begin those of its successor, nor the other way round. -/
theorem digits_append_ne_digits_succ (n : Nat) (cs ds : List Char) :
    digits n ++ cs ≠ digits (n + 1) ++ ds := by
  have hread (m : Nat) : Nat.ofDigitChars 10 (digits m) 0 = m := Nat.ofDigitChars_ten_toDigits
  intro h
  rcases List.append_eq_append_iff.1 h with ⟨mid, hlong, -⟩ | ⟨mid, hlong, -⟩
  · have hvalue := congrArg (Nat.ofDigitChars 10 · 0) hlong
    simp only [Nat.ofDigitChars_append, hread] at hvalue
    rw [Nat.ofDigitChars_eq_ofDigitChars_zero] at hvalue
    rcases mid with _ | ⟨c, mid⟩
    · simp at hvalue
    · rw [List.length_cons, Nat.pow_succ] at hvalue
      have hpow := Nat.one_le_pow mid.length 10 (by decide)
      obtain rfl : n = 0 := by
        by_contra hn
        have := Nat.mul_le_mul_right n (Nat.mul_le_mul_right 10 hpow)
        omega
      cases hlong
  · have hvalue := congrArg (Nat.ofDigitChars 10 · 0) hlong
    simp only [Nat.ofDigitChars_append, hread] at hvalue
    rw [Nat.ofDigitChars_eq_ofDigitChars_zero] at hvalue
    have hpow := Nat.one_le_pow mid.length 10 (by decide)
    have := Nat.mul_le_mul_right (n + 1) hpow
    omega

theorem numbered_eq_append_iff {s : String} {n : Nat} {ds : List Char} :
    numbered s n = s ++ String.ofList ds ↔ ds = digits n := by
  rw [← String.toList_inj, toList_numbered, String.toList_append, String.toList_ofList,
    List.append_cancel_left_eq, eq_comm]

end Number

namespace Params

/-- The names of all parameters. -/
def names (p : Params) : List String := p.entries.map Prod.fst

theorem names_eq (p : Params) : p.names = (List.range p.size).map (Number.numbered p.stem) := by
  have hindices : p.values.zipIdx.map Prod.snd = List.range p.size := by
    rw [List.zipIdx_map_snd, List.range_eq_range', size]
  rw [names, entries, ← hindices, List.map_map, List.map_map]
  rfl

variable {p : Params} {i : Nat}

theorem mem_names_iff {ds : List Char} :
    p.stem ++ String.ofList ds ∈ p.names ↔ ∃ i < p.size, ds = Number.digits i := by
  simp only [names_eq, List.mem_map, List.mem_range, Number.numbered_eq_append_iff]

/-- A placeholder is found at the position that it is numbered with. -/
theorem findIdx?_entries {ds : List Char} :
    p.entries.findIdx? (·.1 == p.stem ++ String.ofList ds) = some i ↔
      i < p.size ∧ ds = Number.digits i := by
  have hname (j : Nat) (hj : j < p.entries.length) :
      p.entries[j].1 = Number.numbered p.stem j := by
    simp [entries]
  rw [List.findIdx?_eq_some_iff_getElem]
  simp only [beq_iff_eq, hname, Number.numbered_eq_append_iff, length_entries]
  constructor
  · rintro ⟨hi, hds, -⟩
    exact ⟨hi, hds⟩
  · rintro ⟨hi, rfl⟩
    refine ⟨hi, rfl, fun j hj hsame => ?_⟩
    have := Number.digits_injective hsame
    omega

end Params

namespace Sql

/-- No digit stands in front. -/
def EndsNumber (cs : List Char) : Prop := ∀ d ∈ cs.head?, d.isDigit = false

theorem EndsNumber.takeWhile {cs : List Char} (h : EndsNumber cs) :
    cs.takeWhile Char.isDigit = [] := by
  cases cs with
  | nil => rfl
  | cons d cs => simp [h d rfl]

theorem EndsNumber.dropWhile {cs : List Char} (h : EndsNumber cs) :
    cs.dropWhile Char.isDigit = cs := by
  cases cs with
  | nil => rfl
  | cons d cs => simp [h d rfl]

theorem endsNumber_dropWhile (cs : List Char) : EndsNumber (cs.dropWhile Char.isDigit) := by
  intro d hd
  have := List.head?_dropWhile_not Char.isDigit cs
  rw [hd] at this
  exact this

namespace Piece

variable {first : Char} {others cs : List Char} {p : Params}

theorem ofText_of_not_prefix {c : Char} (h : ¬ (first :: others) <+: c :: cs) :
    ofText first others (c :: cs) = char c :: ofText first others cs := by
  rw [ofText, if_neg (by simpa [List.isPrefixOf_iff_prefix] using h)]

theorem ofText_stem (cs : List Char) :
    ofText first others (first :: others ++ cs) =
      (if cs.takeWhile Char.isDigit = [] then bareStem
        else placeholder (cs.takeWhile Char.isDigit)) ::
        ofText first others (cs.dropWhile Char.isDigit) := by
  have hdrop : cs.drop (cs.takeWhile Char.isDigit).length = cs.dropWhile Char.isDigit := by
    conv => lhs; arg 2; rw [← List.takeWhile_append_dropWhile (p := Char.isDigit) (l := cs)]
    exact List.drop_left
  rw [List.cons_append, ofText, if_pos (by simp [List.isPrefixOf_iff_prefix])]
  simp [hdrop]

theorem ofText_bareStem (h : EndsNumber cs) :
    ofText first others (first :: others ++ cs) = bareStem :: ofText first others cs := by
  rw [ofText_stem, h.takeWhile, if_pos rfl, h.dropWhile]

theorem ofText_numbered {ds : List Char} (hds : ∀ d ∈ ds, d.isDigit = true) (hne : ds ≠ [])
    (h : EndsNumber cs) :
    ofText first others (first :: others ++ (ds ++ cs)) =
      placeholder ds :: ofText first others cs := by
  rw [ofText_stem, List.takeWhile_append_of_pos hds, List.dropWhile_append_of_pos hds, h.takeWhile,
    h.dropWhile, List.append_nil, if_neg hne]

/-- The text of pieces with positions in place of placeholders. -/
def rewritten (p : Params) (ps : List Piece) : Except QueryError (List Char) :=
  List.flatten <$> ps.mapM (positional p)

theorem rewritten_nil : rewritten p [] = .ok [] := rfl

theorem rewritten_cons_ok {q : Piece} {ps : List Piece} {out : List Char} :
    rewritten p (q :: ps) = .ok out ↔
      ∃ cs rest, q.positional p = .ok cs ∧ rewritten p ps = .ok rest ∧ out = cs ++ rest := by
  unfold rewritten
  rw [List.mapM_cons]
  rcases q.positional p with e | cs
  · simp [bind, Except.bind, Functor.map, Except.map]
  · rcases ps.mapM (positional p) with e | rest
    · simp [bind, Except.bind, Functor.map, Except.map]
    · simp [bind, Except.bind, Functor.map, Except.map, pure, Except.pure, eq_comm]

theorem positional_placeholder_ok {ds out : List Char} :
    positional p (placeholder ds) = .ok out ↔
      ∃ i < p.size, ds = Number.digits i ∧ out = '$' :: Number.digits (i + 1) := by
  unfold positional
  rcases h : p.entries.findIdx? (·.1 == p.stem ++ String.ofList ds) with _ | i
  · simp only [h, reduceCtorEq, false_iff]
    rintro ⟨i, hi, hds, -⟩
    rw [Params.findIdx?_entries.2 ⟨hi, hds⟩] at h
    cases h
  · simp only [h, Except.ok.injEq]
    obtain ⟨hi, rfl⟩ := Params.findIdx?_entries.1 h
    constructor
    · rintro rfl
      exact ⟨i, hi, rfl, rfl⟩
    · rintro ⟨j, -, hij, rfl⟩
      rw [Number.digits_injective hij]

/-- A statement is rewritten piece by piece. -/
theorem positional_eq_rewritten (hstem : p.stem.toList = first :: others) (sql : String) :
    Sql.positional p sql = (rewritten p (ofText first others sql.toList)).map String.ofList := by
  unfold Sql.positional rewritten
  rw [hstem]
  dsimp only
  rcases (ofText first others sql.toList).mapM (positional p) with e | parts <;> rfl

theorem positional_ok_iff (hstem : p.stem.toList = first :: others) {sql out : String} :
    Sql.positional p sql = .ok out ↔
      rewritten p (ofText first others sql.toList) = .ok out.toList := by
  rw [positional_eq_rewritten hstem]
  cases rewritten p (ofText first others sql.toList) <;>
    simp [Except.map, ← String.toList_inj]

theorem positional_placeholder_of_notMem {ds : List Char}
    (h : p.stem ++ String.ofList ds ∉ p.names) :
    positional p (placeholder ds) = .error (.unsupported (.unbound (p.stem ++ String.ofList ds))) := by
  unfold positional
  rcases hfind : p.entries.findIdx? (·.1 == p.stem ++ String.ofList ds) with _ | i
  · simp only [hfind]
  · exact absurd (Params.mem_names_iff.2 ⟨i, Params.findIdx?_entries.1 hfind⟩) h

end Piece

/-- A character of a statement, or a placeholder with the position of its value. -/
inductive Glyph where
  | char (c : Char)
  | placeholder (index : Nat)

namespace Glyph

def text (stem : List Char) : Glyph → List Char
  | char c => [c]
  | placeholder i => stem ++ Number.digits i

/-- The text in which the database counts the position. -/
def positional : Glyph → List Char
  | char c => [c]
  | placeholder i => '$' :: Number.digits (i + 1)

end Glyph

def textOf (stem : List Char) (gs : List Glyph) : List Char := gs.flatMap (Glyph.text stem)

def positionalOf (gs : List Glyph) : List Char := gs.flatMap Glyph.positional

@[simp] theorem textOf_chars (stem cs : List Char) (gs : List Glyph) :
    textOf stem (cs.map .char ++ gs) = cs ++ textOf stem gs := by
  induction cs with
  | nil => rfl
  | cons c cs ih => simpa [textOf, Glyph.text] using ih

@[simp] theorem positionalOf_chars (cs : List Char) (gs : List Glyph) :
    positionalOf (cs.map .char ++ gs) = cs ++ positionalOf gs := by
  induction cs with
  | nil => rfl
  | cons c cs ih => simpa [positionalOf, Glyph.positional] using ih

/-- No digit stands behind the number of a placeholder. -/
def Parted (stem : List Char) : List Glyph → Prop
  | [] => True
  | .char _ :: gs => Parted stem gs
  | .placeholder _ :: gs => EndsNumber (textOf stem gs) ∧ Parted stem gs

theorem Parted.of_chars {stem cs : List Char} {gs : List Glyph}
    (h : Parted stem (cs.map .char ++ gs)) : Parted stem gs := by
  induction cs with
  | nil => exact h
  | cons c cs ih => exact ih h

/-- The characters between the placeholders do not disturb them. From left to right and without
overlap, a stem among the characters ends before the next placeholder and no digit follows it. -/
inductive Clear (stem : List Char) : List Glyph → Prop
  | nil : Clear stem []
  | placeholder {i gs} (rest : Clear stem gs) : Clear stem (.placeholder i :: gs)
  | char {c gs} (other : ¬ stem <+: c :: textOf stem gs) (rest : Clear stem gs) :
      Clear stem (.char c :: gs)
  | stem {gs} (bare : EndsNumber (textOf stem gs)) (rest : Clear stem gs) :
      Clear stem (stem.map .char ++ gs)

section

variable {p : Params} {first : Char} {others : List Char} {gs : List Glyph}

theorem positional_bareStem (hstem : p.stem.toList = first :: others) :
    Piece.positional p .bareStem = .ok (first :: others) := by
  rw [Piece.positional, hstem]

/-- Where nothing disturbs the placeholders, each is replaced and the rest is kept. -/
theorem Clear.rewritten (hstem : p.stem.toList = first :: others)
    (bound : ∀ i, .placeholder i ∈ gs → i < p.size) (parted : Parted (first :: others) gs)
    (h : Clear (first :: others) gs) :
    Piece.rewritten p (Piece.ofText first others (textOf (first :: others) gs)) =
      .ok (positionalOf gs) := by
  induction h with
  | nil => rw [textOf, List.flatMap_nil, Piece.ofText, Piece.rewritten_nil]; rfl
  | @placeholder i gs rest ih =>
      obtain ⟨ends, parted⟩ := parted
      have hread : Piece.ofText first others (textOf (first :: others) (.placeholder i :: gs)) =
          .placeholder (Number.digits i) ::
            Piece.ofText first others (textOf (first :: others) gs) := by
        rw [textOf, List.flatMap_cons, Glyph.text, List.append_assoc]
        exact Piece.ofText_numbered (fun _ => Number.isDigit_of_mem_digits)
          (Number.digits_ne_nil i) ends
      rw [hread]
      refine Piece.rewritten_cons_ok.2 ⟨_, _, Piece.positional_placeholder_ok.2
        ⟨i, bound i (by simp), rfl, rfl⟩, ih (fun j hj => bound j (by simp [hj])) parted, rfl⟩
  | @char c gs other rest ih =>
      have hread := Piece.ofText_of_not_prefix other
      refine (congrArg (Piece.rewritten p) hread).trans (Piece.rewritten_cons_ok.2 ⟨[c], _, rfl,
        ih (fun j hj => bound j (by simp [hj])) parted, rfl⟩)
  | @stem gs bare rest ih =>
      rw [textOf_chars, Piece.ofText_bareStem bare, positionalOf_chars]
      exact Piece.rewritten_cons_ok.2 ⟨_, _, positional_bareStem hstem,
        ih (fun j hj => bound j (by simp [hj])) parted.of_chars, rfl⟩

/-- Characters at the beginning of a text are characters between placeholders, or the last of
them begin the first placeholder. -/
theorem prefix_textOf {stem cs : List Char} {gs : List Glyph} (h : cs <+: textOf stem gs) :
    (∃ rest, gs = cs.map .char ++ rest) ∨
      ∃ before i rest inside, gs = before.map .char ++ .placeholder i :: rest ∧
        cs = before ++ inside ∧ inside ≠ [] ∧
        inside <+: stem ++ (Number.digits i ++ textOf stem rest) := by
  induction gs generalizing cs with
  | nil =>
      obtain rfl : cs = [] := List.prefix_nil.1 h
      exact .inl ⟨[], rfl⟩
  | cons g gs ih =>
      cases cs with
      | nil => exact .inl ⟨g :: gs, rfl⟩
      | cons c cs =>
          cases g with
          | placeholder i =>
              refine .inr ⟨[], i, gs, c :: cs, rfl, rfl, by simp, ?_⟩
              simpa [textOf, Glyph.text] using h
          | char d =>
              have h' : c :: cs <+: d :: textOf stem gs := h
              obtain ⟨rfl, hcs⟩ := List.cons_prefix_cons.1 h'
              rcases ih hcs with ⟨rest, rfl⟩ | ⟨before, i, rest, inside, rfl, rfl, hne, hinside⟩
              · exact .inl ⟨rest, rfl⟩
              · exact .inr ⟨c :: before, i, rest, inside, rfl, rfl, hne, hinside⟩

/-- A rewritten text begins with a digit only where the text does. -/
theorem endsNumber_of_rewritten {c : Char} {cs out : List Char}
    (hstem : p.stem.toList = first :: others) (hfirst : first.isDigit = false)
    (hc : c.isDigit = false)
    (h : Piece.rewritten p (Piece.ofText first others (c :: cs)) = .ok out) : EndsNumber out := by
  by_cases hstart : first :: others <+: c :: cs
  · obtain ⟨rest, hrest⟩ := hstart
    rw [← hrest, Piece.ofText_stem] at h
    obtain ⟨found, others', hfound, -, rfl⟩ := Piece.rewritten_cons_ok.1 h
    split at hfound
    · rw [positional_bareStem hstem] at hfound
      obtain rfl := Except.ok.inj hfound
      simpa [EndsNumber] using hfirst
    · obtain ⟨i, -, -, rfl⟩ := Piece.positional_placeholder_ok.1 hfound
      simp [EndsNumber]
  · rw [Piece.ofText_of_not_prefix hstart] at h
    obtain ⟨found, rest, hfound, -, rfl⟩ := Piece.rewritten_cons_ok.1 h
    obtain rfl := Except.ok.inj hfound
    simpa [EndsNumber] using hc

/-- Digits in front of glyphs are characters, because no placeholder begins with a digit. -/
theorem chars_of_digits {ds : List Char} (hfirst : first.isDigit = false)
    (hds : ∀ d ∈ ds, d.isDigit = true) (h : ds <+: textOf (first :: others) gs) :
    ∃ rest, gs = ds.map .char ++ rest := by
  rcases prefix_textOf h with hchars | ⟨before, i, rest, inside, rfl, rfl, hne, hinside⟩
  · exact hchars
  · obtain ⟨c, cs, rfl⟩ := List.exists_cons_of_ne_nil hne
    obtain ⟨rfl, -⟩ := List.cons_prefix_cons.1 hinside
    rw [hds c (by simp)] at hfirst
    cases hfirst

/-- A stem among the characters that is kept has no digit behind it. -/
theorem bare_of_rewritten (hstem : p.stem.toList = first :: others)
    (noDigit : ∀ c ∈ first :: others, c.isDigit = false)
    (h : Piece.rewritten p
        (Piece.ofText first others (first :: others ++ textOf (first :: others) gs)) =
      .ok (first :: others ++ positionalOf gs)) :
    EndsNumber (textOf (first :: others) gs) ∧
      Piece.rewritten p (Piece.ofText first others (textOf (first :: others) gs)) =
        .ok (positionalOf gs) := by
  rw [Piece.ofText_stem] at h
  obtain ⟨found, rest, hfound, hrest, heq⟩ := Piece.rewritten_cons_ok.1 h
  split at hfound
  · rename_i hnone
    have ends : EndsNumber (textOf (first :: others) gs) := by
      intro d hd
      obtain ⟨tail, htail⟩ := List.head?_eq_some_iff.1 hd
      by_contra hdigit
      rw [htail, List.takeWhile_cons_of_pos (by simpa using hdigit)] at hnone
      cases hnone
    rw [positional_bareStem hstem] at hfound
    obtain rfl := Except.ok.inj hfound
    rw [ends.dropWhile] at hrest
    exact ⟨ends, (List.append_cancel_left heq) ▸ hrest⟩
  · exfalso
    obtain ⟨i, -, hdigits, rfl⟩ := Piece.positional_placeholder_ok.1 hfound
    have hstart : Number.digits i <+: textOf (first :: others) gs := by
      rw [← hdigits]
      exact List.takeWhile_prefix _
    obtain ⟨gs', rfl⟩ := chars_of_digits (noDigit first (by simp))
      (fun _ => Number.isDigit_of_mem_digits) hstart
    rw [positionalOf_chars, List.cons_append, List.cons_append] at heq
    obtain ⟨-, htail⟩ := List.cons.inj heq
    cases others with
    | nil => exact Number.digits_append_ne_digits_succ i _ _ htail
    | cons o os =>
        obtain ⟨d, ds, hd⟩ := List.exists_cons_of_ne_nil (Number.digits_ne_nil (i + 1))
        rw [hd, List.cons_append, List.cons_append] at htail
        obtain ⟨rfl, -⟩ := List.cons.inj htail
        have hdigit :=
          Number.isDigit_of_mem_digits (hd ▸ List.mem_cons_self : o ∈ Number.digits (i + 1))
        rw [noDigit o (by simp)] at hdigit
        cases hdigit

/-- A stem that begins among the characters and ends in a placeholder is not kept: what is left
of the placeholder has no stem any more. -/
theorem not_rewritten_of_overlap {before inside : List Char} {i : Nat}
    (hstem : p.stem.toList = first :: others)
    (noDigit : ∀ c ∈ first :: others, c.isDigit = false) (hbefore : before ≠ [])
    (hsplit : first :: others = before ++ inside) (hinside : inside ≠ [])
    (hstart : inside <+: first :: others) :
    Piece.rewritten p (Piece.ofText first others
        (textOf (first :: others) (before.map .char ++ .placeholder i :: gs))) ≠
      .ok (positionalOf (before.map .char ++ .placeholder i :: gs)) := by
  obtain ⟨c, inside, rfl⟩ := List.exists_cons_of_ne_nil hinside
  obtain ⟨left, hleft⟩ := hstart
  obtain ⟨rfl, hothers : inside ++ left = others⟩ := List.cons.inj hleft
  have hne : left ≠ [] := by
    rintro rfl
    have hlength := congrArg List.length hsplit
    have := congrArg List.length hothers
    have := List.length_pos_iff.2 hbefore
    simp only [List.length_cons, List.length_append, List.length_nil] at *
    omega
  obtain ⟨x, left, rfl⟩ := List.exists_cons_of_ne_nil hne
  have hx : x.isDigit = false := noDigit x (by simp [← hothers])
  have hmove (tail : List Char) :
      before ++ (c :: others ++ tail) = c :: others ++ (x :: left ++ tail) :=
    calc before ++ (c :: others ++ tail)
      _ = before ++ (c :: inside ++ (x :: left ++ tail)) := by simp [← hothers]
      _ = c :: others ++ (x :: left ++ tail) := by rw [hsplit, List.append_assoc]
  have htext : textOf (c :: others) (before.map .char ++ .placeholder i :: gs) =
      c :: others ++ (x :: left ++ (Number.digits i ++ textOf (c :: others) gs)) := by
    rw [← hmove, textOf_chars, textOf, List.flatMap_cons, Glyph.text, List.append_assoc, ← textOf]
  intro h
  rw [htext, Piece.ofText_bareStem (by simpa [EndsNumber] using hx)] at h
  obtain ⟨found, rest, hfound, hrest, heq⟩ := Piece.rewritten_cons_ok.1 h
  rw [positional_bareStem hstem] at hfound
  obtain rfl := Except.ok.inj hfound
  have ends := endsNumber_of_rewritten hstem (noDigit c (by simp)) hx hrest
  rw [positionalOf_chars, hsplit, List.append_assoc] at heq
  have hrun := List.append_cancel_left heq
  obtain ⟨d, ds, hd⟩ := List.exists_cons_of_ne_nil (Number.digits_ne_nil (i + 1))
  have hdigit := Number.isDigit_of_mem_digits (hd ▸ List.mem_cons_self : d ∈ Number.digits (i + 1))
  rw [positionalOf, List.flatMap_cons, Glyph.positional, hd] at hrun
  obtain ⟨-, hrun⟩ := List.cons.inj hrun
  cases inside with
  | nil =>
      obtain rfl : d :: (ds ++ gs.flatMap Glyph.positional) = rest := hrun
      rw [ends d rfl] at hdigit
      cases hdigit
  | cons o os =>
      obtain ⟨rfl, -⟩ := List.cons.inj hrun
      rw [noDigit d (by simp [← hothers])] at hdigit
      cases hdigit

/-- Each placeholder is replaced and the rest is kept only where nothing disturbs them. -/
theorem clear_of_rewritten (hstem : p.stem.toList = first :: others)
    (noDigit : ∀ c ∈ first :: others, c.isDigit = false) (parted : Parted (first :: others) gs)
    (h : Piece.rewritten p (Piece.ofText first others (textOf (first :: others) gs)) =
      .ok (positionalOf gs)) : Clear (first :: others) gs := by
  induction hn : gs.length using Nat.strong_induction_on generalizing gs with
  | _ n ih =>
      subst hn
      rcases gs with _ | ⟨_ | i, gs⟩
      · exact .nil
      · rename_i c
        by_cases hstart : first :: others <+: textOf (first :: others) (.char c :: gs)
        · rcases prefix_textOf hstart with
            ⟨rest, hrest⟩ | ⟨before, i, rest, inside, hrest, hsplit, hne, hinside⟩
          · rw [hrest, textOf_chars, positionalOf_chars] at h
            obtain ⟨ends, hclear⟩ := bare_of_rewritten hstem noDigit h
            have hlength := congrArg List.length hrest
            simp only [List.length_cons, List.length_append, List.length_map] at hlength
            rw [hrest] at parted ⊢
            exact .stem ends (ih rest.length (by simp; omega) parted.of_chars hclear rfl)
          · have hbefore : before ≠ [] := by
              rintro rfl
              cases hrest
            have hshort : inside.length ≤ (first :: others).length := by
              rw [hsplit, List.length_append]
              omega
            rw [hrest] at h
            exact absurd h (not_rewritten_of_overlap hstem noDigit hbefore hsplit hne
              (List.prefix_of_prefix_length_le hinside (List.prefix_append _ _) hshort))
        · have hread := Piece.ofText_of_not_prefix hstart
          have h' : Piece.rewritten p (.char c ::
              Piece.ofText first others (textOf (first :: others) gs)) =
              .ok (c :: positionalOf gs) := hread ▸ h
          obtain ⟨found, rest, hfound, hrest, heq⟩ := Piece.rewritten_cons_ok.1 h'
          obtain rfl := Except.ok.inj hfound
          obtain ⟨-, rfl⟩ := List.cons.inj heq
          exact .char hstart (ih gs.length (by simp) parted hrest rfl)
      · obtain ⟨ends, parted⟩ := parted
        rw [textOf, List.flatMap_cons, Glyph.text, List.append_assoc, ← textOf,
          Piece.ofText_numbered (fun _ => Number.isDigit_of_mem_digits) (Number.digits_ne_nil i)
            ends] at h
        obtain ⟨found, rest, hfound, hrest, heq⟩ := Piece.rewritten_cons_ok.1 h
        obtain ⟨j, -, hij, rfl⟩ := Piece.positional_placeholder_ok.1 hfound
        obtain rfl := Number.digits_injective hij
        have hpositions : '$' :: Number.digits (i + 1) ++ positionalOf gs =
            '$' :: Number.digits (i + 1) ++ rest := heq
        obtain rfl := List.append_cancel_left hpositions
        exact .placeholder (ih gs.length (by simp) parted hrest rfl)

/-- With a character in the stem that does not occur between placeholders nothing disturbs them. -/
theorem clear_of_foreign {P : Char → Bool} {stem : List Char} (foreign : ∃ x ∈ stem, P x = false)
    (chars : ∀ c, .char c ∈ gs → P c = true) : Clear stem gs := by
  induction gs with
  | nil => exact .nil
  | cons g gs ih =>
      have hrest := ih fun c hc => chars c (by simp [hc])
      cases g with
      | placeholder i => exact .placeholder hrest
      | char c =>
          refine .char ?_ hrest
          intro (hstart : stem <+: textOf stem (.char c :: gs))
          obtain ⟨x, hx, hPx⟩ := foreign
          rcases prefix_textOf hstart with
            ⟨rest, hsplit⟩ | ⟨before, i, rest, inside, hsplit, rfl, -, hinside⟩
          · rw [chars x (by simp [hsplit, hx])] at hPx
            cases hPx
          -- the first foreign character of the stem would come sooner in the placeholder
          · have hbefore : ∀ c ∈ before, P c = true := fun c hc => chars c (by simp [hsplit, hc])
            have hmem : x ∈ inside := (List.mem_append.1 hx).resolve_left fun hx => by
              rw [hbefore x hx] at hPx
              cases hPx
            have hstart : inside <+: before ++ inside :=
              List.prefix_of_prefix_length_le hinside (List.prefix_append _ _) (by simp)
            obtain ⟨tail, htail⟩ := hstart
            have hshort : (inside.takeWhile P).length ≠ inside.length := fun hlength => by
              have hall := (List.takeWhile_prefix P).eq_of_length hlength
              rw [← hall] at hmem
              rw [List.all_eq_true.1 List.all_takeWhile x hmem] at hPx
              cases hPx
            have htake := congrArg (List.takeWhile P) htail
            rw [List.takeWhile_append, if_neg hshort, List.takeWhile_append_of_pos hbefore] at htake
            have hlength := congrArg List.length htake
            obtain rfl : before = [] := List.length_eq_zero_iff.1 (by
              rw [List.length_append] at hlength
              omega)
            cases hsplit

end

end Sql

end TypedQuery
