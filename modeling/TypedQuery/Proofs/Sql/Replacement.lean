import TypedQuery.Proofs.Outcome
import TypedQuery.Proofs.Sql.Scanning

/-!
# Placeholders in any text

In a text in which the stem does not overlap with itself a placeholder stands wherever the stem has
digits behind it, all of them. Each of them gets its position and everything else is kept, as long
as all their names are bound; otherwise the first that is not is reported.
-/

namespace TypedQuery.Sql

variable {stem text part ds es ns : List Char} {gs : List Glyph} {i k : Nat}

/-- At a place of the text stands the stem with these digits behind it and no more. -/
structure PlaceholderAt (stem text : List Char) (k : Nat) (ds : List Char) : Prop where
  nonempty : ds ≠ []
  digits : ∀ d ∈ ds, d.isDigit = true
  stands : ∃ rest, text.drop k = stem ++ (ds ++ rest) ∧ EndsNumber rest

/-- The stem does not overlap with itself in the text. -/
def NoOverlap (stem text : List Char) : Prop :=
  ∀ j k, j < k → stem <+: text.drop j → stem <+: text.drop k → j + stem.length ≤ k

/-- A text read as characters and placeholders. The placeholders are all that stand in the text. -/
structure Reading (stem text : List Char) (gs : List Glyph) : Prop where
  text_eq : textOf stem gs = text
  placeholders : ∀ k ds, PlaceholderAt stem text k ds ↔
    ∃ before i after, gs = before ++ .placeholder i :: after ∧ k = (textOf stem before).length ∧
      ds = Number.digits i

/-- The name of each placeholder in the text is the name of a value. -/
def AllBound (p : Params) (text : List Char) : Prop :=
  ∀ k ds, PlaceholderAt p.stem.toList text k ds → p.stem ++ String.ofList ds ∈ p.names

/-- The first placeholder without a value is the one that the error names. -/
def FirstUnbound (p : Params) (text : List Char) (err : QueryError) : Prop :=
  ∃ k ds, PlaceholderAt p.stem.toList text k ds ∧ p.stem ++ String.ofList ds ∉ p.names ∧
    (∀ j < k, ∀ es, PlaceholderAt p.stem.toList text j es → p.stem ++ String.ofList es ∈ p.names) ∧
    err = .unsupported (.unbound (p.stem ++ String.ofList ds))

namespace PlaceholderAt

theorem isPrefix (h : PlaceholderAt stem text k ds) : stem <+: text.drop k := by
  obtain ⟨rest, hrest, -⟩ := h.stands
  exact ⟨ds ++ rest, hrest.symm⟩

theorem digits_eq (h : PlaceholderAt stem text k ds) :
    ds = ((text.drop k).drop stem.length).takeWhile Char.isDigit := by
  obtain ⟨rest, hrest, ends⟩ := h.stands
  rw [hrest, List.drop_left, List.takeWhile_append_of_pos h.digits, ends.takeWhile, List.append_nil]

theorem unique (h : PlaceholderAt stem text k ds) (h' : PlaceholderAt stem text k es) : ds = es :=
  h.digits_eq.trans h'.digits_eq.symm

end PlaceholderAt

theorem placeholderAt_append (part : List Char) :
    PlaceholderAt stem (part ++ text) (part.length + k) ds ↔ PlaceholderAt stem text k ds := by
  have hdrop : (part ++ text).drop (part.length + k) = text.drop k := List.drop_length_add_append k
  exact ⟨fun h => ⟨h.nonempty, h.digits, hdrop ▸ h.stands⟩,
    fun h => ⟨h.nonempty, h.digits, hdrop ▸ h.stands⟩⟩

theorem NoOverlap.of_append (h : NoOverlap stem (part ++ text)) : NoOverlap stem text := by
  intro j k hjk hj hk
  have := h (part.length + j) (part.length + k) (by omega)
    (by rwa [List.drop_length_add_append]) (by rwa [List.drop_length_add_append])
  omega

/-- A stem whose first character stands in it once overlaps with itself in no text. -/
theorem NoOverlap.of_notMem {first : Char} {others : List Char} (h : first ∉ others)
    (text : List Char) : NoOverlap (first :: others) text := by
  intro j k hjk hj hk
  by_contra hlt
  obtain ⟨n, rfl⟩ := Nat.exists_eq_add_of_lt hjk
  obtain ⟨rest, hrest⟩ := hj
  have hn : n < others.length := by
    rw [List.length_cons] at hlt
    omega
  rw [Nat.add_assoc, ← List.drop_drop, ← hrest, List.cons_append, List.drop_succ_cons,
    List.drop_append_of_le_length hn.le, List.drop_eq_getElem_cons hn] at hk
  obtain ⟨rfl, -⟩ := List.cons_prefix_cons.1 hk
  exact h (List.getElem_mem hn)

/-- No placeholder begins in the first part of the text. -/
def Vacant (stem part text : List Char) : Prop :=
  ∀ k < part.length, ∀ ds, ¬ PlaceholderAt stem (part ++ text) k ds

theorem Vacant.placeholderAt_iff (vacant : Vacant stem part text) :
    PlaceholderAt stem (part ++ text) k ds ↔
      ∃ j, k = part.length + j ∧ PlaceholderAt stem text j ds := by
  constructor
  · intro h
    have hk : part.length ≤ k := Nat.le_of_not_lt fun hk => vacant k hk ds h
    obtain ⟨j, rfl⟩ := Nat.exists_eq_add_of_le hk
    exact ⟨j, rfl, (placeholderAt_append part).1 h⟩
  · rintro ⟨j, rfl, h⟩
    exact (placeholderAt_append part).2 h

theorem vacant_char {c : Char} (h : ¬ stem <+: c :: text) : Vacant stem [c] text := by
  intro k hk ds hplace
  obtain rfl : k = 0 := Nat.lt_one_iff.1 hk
  exact h hplace.isPrefix

theorem vacant_stem (ends : EndsNumber text) (noOverlap : NoOverlap stem (stem ++ text)) :
    Vacant stem stem text := by
  intro k hk ds hplace
  rcases Nat.eq_zero_or_pos k with rfl | hpos
  · have hds := hplace.digits_eq
    rw [List.drop_zero, List.drop_left, ends.takeWhile] at hds
    exact hplace.nonempty hds
  · have := noOverlap 0 k hpos (List.prefix_append _ _) hplace.isPrefix
    omega

/-- Behind a placeholder at the beginning the next one begins after its digits. -/
theorem placeholderAt_numbered {first : Char} {others : List Char} (hfirst : first.isDigit = false)
    (hne : ns ≠ []) (hns : ∀ d ∈ ns, d.isDigit = true) (ends : EndsNumber text)
    (noOverlap : NoOverlap (first :: others) (first :: others ++ (ns ++ text)))
    (k : Nat) (ds : List Char) :
    PlaceholderAt (first :: others) (first :: others ++ (ns ++ text)) k ds ↔
      (k = 0 ∧ ds = ns) ∨
      ∃ j, k = (first :: others ++ ns).length + j ∧ PlaceholderAt (first :: others) text j ds := by
  have here : PlaceholderAt (first :: others) (first :: others ++ (ns ++ text)) 0 ns :=
    ⟨hne, hns, text, rfl, ends⟩
  constructor
  · intro h
    rcases Nat.eq_zero_or_pos k with rfl | hpos
    · exact .inl ⟨rfl, h.unique here⟩
    · refine .inr ?_
      have hstem := noOverlap 0 k hpos (List.prefix_append _ _) h.isPrefix
      rw [Nat.zero_add] at hstem
      obtain ⟨n, rfl⟩ := Nat.exists_eq_add_of_le hstem
      have hn : ns.length ≤ n := by
        -- the stem does not begin with a digit
        by_contra hlt
        obtain ⟨d, rest, hd⟩ := List.exists_cons_of_ne_nil
          (mt List.drop_eq_nil_iff.1 hlt)
        have hstart := h.isPrefix
        rw [List.drop_length_add_append, List.drop_append_of_le_length (by omega), hd] at hstart
        obtain ⟨rfl, -⟩ := List.cons_prefix_cons.1 hstart
        have hdigit := hns first (List.mem_of_mem_drop (hd ▸ List.mem_cons_self))
        rw [hfirst] at hdigit
        cases hdigit
      obtain ⟨j, rfl⟩ := Nat.exists_eq_add_of_le hn
      refine ⟨j, by simp; omega, ?_⟩
      exact (placeholderAt_append ns).1 ((placeholderAt_append _).1 h)
  · rintro (⟨rfl, rfl⟩ | ⟨j, rfl, h⟩)
    · exact here
    · rw [← List.append_assoc]
      exact (placeholderAt_append _).2 h

/-- Characters in front of glyphs have no part in their placeholders. -/
theorem chars_append_eq_iff {cs : List Char} {before after : List Glyph} :
    cs.map .char ++ gs = before ++ .placeholder i :: after ↔
      ∃ others, before = cs.map .char ++ others ∧ gs = others ++ .placeholder i :: after := by
  induction cs generalizing before with
  | nil => exact ⟨fun h => ⟨before, rfl, h⟩, fun ⟨_, hbefore, h⟩ => hbefore ▸ h⟩
  | cons c cs ih =>
      cases before with
      | nil => simp
      | cons g before => simp [ih, and_assoc, eq_comm (a := g)]

namespace Reading

theorem nil (hne : stem ≠ []) : Reading stem [] [] where
  text_eq := rfl
  placeholders k ds := by
    refine iff_of_false (fun h => hne ?_) (by simp)
    simpa using h.isPrefix

/-- Characters where no placeholder begins are read as they are. -/
theorem chars {cs : List Char} (vacant : Vacant stem cs text) (reads : Reading stem text gs) :
    Reading stem (cs ++ text) (cs.map .char ++ gs) where
  text_eq := by rw [textOf_chars, reads.text_eq]
  placeholders k ds := by
    rw [vacant.placeholderAt_iff]
    simp only [chars_append_eq_iff, reads.placeholders]
    constructor
    · rintro ⟨_, rfl, before, i, after, hgs, rfl, hds⟩
      exact ⟨_, i, after, ⟨before, rfl, hgs⟩, by simp, hds⟩
    · rintro ⟨_, i, after, ⟨before, rfl, hgs⟩, rfl, hds⟩
      exact ⟨_, by simp, before, i, after, hgs, rfl, hds⟩

theorem numbered {first : Char} {others : List Char} (hfirst : first.isDigit = false)
    (ends : EndsNumber text)
    (noOverlap : NoOverlap (first :: others) (first :: others ++ (Number.digits i ++ text)))
    (reads : Reading (first :: others) text gs) :
    Reading (first :: others) (first :: others ++ (Number.digits i ++ text))
      (.placeholder i :: gs) where
  text_eq := by
    rw [← reads.text_eq]
    simp [textOf, Glyph.text]
  placeholders k ds := by
    rw [placeholderAt_numbered hfirst (Number.digits_ne_nil i)
      (fun _ => Number.isDigit_of_mem_digits) ends noOverlap]
    simp only [reads.placeholders]
    constructor
    · rintro (⟨rfl, rfl⟩ | ⟨_, rfl, before, j, after, rfl, rfl, hds⟩)
      · exact ⟨[], i, gs, rfl, rfl, rfl⟩
      · exact ⟨.placeholder i :: before, j, after, rfl, by simp [textOf, Glyph.text]; omega, hds⟩
    · rintro ⟨_ | ⟨g, before⟩, j, after, hgs, rfl, rfl⟩
      · obtain ⟨hglyph, -⟩ := List.cons.inj hgs
        obtain rfl := Glyph.placeholder.inj hglyph
        exact .inl ⟨rfl, rfl⟩
      · obtain ⟨rfl, rfl⟩ := List.cons.inj hgs
        exact .inr ⟨_, by simp [textOf, Glyph.text]; omega, before, j, after, rfl, rfl, rfl⟩

theorem allBound {p : Params} (reads : Reading p.stem.toList text gs)
    (hgs : ∀ i, .placeholder i ∈ gs → i < p.size) : AllBound p text := by
  intro k ds hplace
  obtain ⟨before, i, after, rfl, -, rfl⟩ := (reads.placeholders k ds).1 hplace
  exact Params.mem_names_iff.2 ⟨i, hgs i (by simp), rfl⟩

end Reading

namespace FirstUnbound

variable {p : Params} {err err' : QueryError}

/-- What stands in front of a text does not matter if its placeholders are bound. -/
theorem shift {whole : List Char} {n : Nat}
    (later : ∀ j ds, PlaceholderAt p.stem.toList text j ds →
      PlaceholderAt p.stem.toList whole (n + j) ds)
    (places : ∀ k ds, PlaceholderAt p.stem.toList whole k ds →
      p.stem ++ String.ofList ds ∈ p.names ∨
        ∃ j, k = n + j ∧ PlaceholderAt p.stem.toList text j ds)
    (h : FirstUnbound p text err) : FirstUnbound p whole err := by
  obtain ⟨k, ds, hplace, hunbound, hearlier, rfl⟩ := h
  refine ⟨n + k, ds, later k ds hplace, hunbound, ?_, rfl⟩
  intro j hj es hes
  cases places j es hes with
  | inl bound => exact bound
  | inr behind =>
      obtain ⟨m, rfl, hplace'⟩ := behind
      exact hearlier m (by omega) es hplace'

theorem of_vacant (vacant : Vacant p.stem.toList part text) (h : FirstUnbound p text err) :
    FirstUnbound p (part ++ text) err :=
  h.shift (fun j _ hj => vacant.placeholderAt_iff.2 ⟨j, rfl, hj⟩)
    fun _ _ hk => .inr (vacant.placeholderAt_iff.1 hk)

theorem of_numbered {first : Char} {others : List Char} (hstem : p.stem.toList = first :: others)
    (hfirst : first.isDigit = false) (hne : ns ≠ []) (hns : ∀ d ∈ ns, d.isDigit = true)
    (ends : EndsNumber text)
    (noOverlap : NoOverlap (first :: others) (first :: others ++ (ns ++ text)))
    (bound : p.stem ++ String.ofList ns ∈ p.names) (h : FirstUnbound p text err) :
    FirstUnbound p (first :: others ++ (ns ++ text)) err := by
  have places := placeholderAt_numbered hfirst hne hns ends noOverlap
  rw [← hstem] at places ⊢
  refine h.shift (fun j ds hj => (places _ ds).2 (.inr ⟨j, rfl, hj⟩)) fun k ds hk => ?_
  cases (places k ds).1 hk with
  | inl here => exact .inl (here.2 ▸ bound)
  | inr behind => exact .inr behind

theorem unique (h : FirstUnbound p text err) (h' : FirstUnbound p text err') : err = err' := by
  obtain ⟨k, ds, hplace, hunbound, hearlier, rfl⟩ := h
  obtain ⟨k', ds', hplace', hunbound', hearlier', rfl⟩ := h'
  rcases Nat.lt_trichotomy k k' with hlt | rfl | hlt
  · exact absurd (hearlier' k hlt ds hplace) hunbound
  · rw [hplace.unique hplace']
  · exact absurd (hearlier k' hlt ds' hplace') hunbound'

theorem not_allBound (h : FirstUnbound p text err) : ¬ AllBound p text := by
  obtain ⟨k, ds, hplace, hunbound, -⟩ := h
  exact fun bound => hunbound (bound k ds hplace)

end FirstUnbound

namespace Piece

variable {p : Params} {err : QueryError} {q : Piece} {ps : List Piece} {out : List Char}

theorem rewritten_cons_of_ok (hq : q.positional p = .ok out) {rest : List Char}
    (hps : rewritten p ps = .ok rest) : rewritten p (q :: ps) = .ok (out ++ rest) :=
  rewritten_cons_ok.2 ⟨out, rest, hq, hps, rfl⟩

theorem rewritten_cons_of_error (h : q.positional p = .error err) :
    rewritten p (q :: ps) = .error err := by
  rw [rewritten, List.mapM_cons, h]
  rfl

theorem rewritten_cons_of_rest (hq : q.positional p = .ok out) (hps : rewritten p ps = .error err) :
    rewritten p (q :: ps) = .error err := by
  unfold rewritten at hps ⊢
  rw [List.mapM_cons, hq]
  rcases h : ps.mapM (positional p) with err' | outs
  · rw [h] at hps
    obtain rfl := Except.error.inj hps
    rfl
  · rw [h] at hps
    cases hps

end Piece

/-- Either the text is read and each placeholder gets its position, or the first one that has no
value is reported. -/
def Settled (p : Params) (first : Char) (others text : List Char) : Prop :=
  (∃ gs, Reading (first :: others) text gs ∧ (∀ i, .placeholder i ∈ gs → i < p.size) ∧
    Piece.rewritten p (Piece.ofText first others text) = .ok (positionalOf gs)) ∨
  ∃ err, FirstUnbound p text err ∧
    Piece.rewritten p (Piece.ofText first others text) = .error err

namespace Settled

variable {p : Params} {first : Char} {others : List Char}

theorem nil : Settled p first others [] :=
  .inl ⟨[], .nil nofun, nofun, by rw [Piece.ofText, Piece.rewritten_nil]; rfl⟩

/-- A character that no stem begins with is kept. -/
theorem char {c : Char} (hstem : p.stem.toList = first :: others)
    (other : ¬ first :: others <+: c :: text) (h : Settled p first others text) :
    Settled p first others (c :: text) := by
  have vacant := vacant_char other
  rw [Settled, Piece.ofText_of_not_prefix other]
  rcases h with ⟨gs, reads, bound, hok⟩ | ⟨err, unbound, herr⟩
  · exact .inl ⟨.char c :: gs, reads.chars vacant, by simpa using bound,
      Piece.rewritten_cons_of_ok rfl hok⟩
  · exact .inr ⟨err, .of_vacant (hstem ▸ vacant) unbound, Piece.rewritten_cons_of_rest rfl herr⟩

/-- A stem without digits is kept. -/
theorem bareStem (hstem : p.stem.toList = first :: others) (ends : EndsNumber text)
    (noOverlap : NoOverlap (first :: others) (first :: others ++ text))
    (h : Settled p first others text) :
    Settled p first others (first :: others ++ text) := by
  have vacant := vacant_stem ends noOverlap
  have kept := positional_bareStem hstem
  rw [Settled, Piece.ofText_bareStem ends]
  rcases h with ⟨gs, reads, bound, hok⟩ | ⟨err, unbound, herr⟩
  · refine .inl ⟨(first :: others).map .char ++ gs, reads.chars vacant, by simpa using bound, ?_⟩
    rw [positionalOf_chars]
    exact Piece.rewritten_cons_of_ok kept hok
  · exact .inr ⟨err, .of_vacant (hstem ▸ vacant) unbound, Piece.rewritten_cons_of_rest kept herr⟩

/-- A stem with digits gets its position, or is reported. -/
theorem numbered (hstem : p.stem.toList = first :: others) (hfirst : first.isDigit = false)
    (hne : ns ≠ []) (hns : ∀ d ∈ ns, d.isDigit = true) (ends : EndsNumber text)
    (noOverlap : NoOverlap (first :: others) (first :: others ++ (ns ++ text)))
    (h : Settled p first others text) :
    Settled p first others (first :: others ++ (ns ++ text)) := by
  rw [Settled, Piece.ofText_numbered hns hne ends]
  by_cases hbound : p.stem ++ String.ofList ns ∈ p.names
  · obtain ⟨i, hi, rfl⟩ := Params.mem_names_iff.1 hbound
    have placed : Piece.positional p (.placeholder (Number.digits i)) =
        .ok ('$' :: Number.digits (i + 1)) :=
      Piece.positional_placeholder_ok.2 ⟨i, hi, rfl, rfl⟩
    rcases h with ⟨gs, reads, bound, hok⟩ | ⟨err, unbound, herr⟩
    · refine .inl ⟨.placeholder i :: gs, reads.numbered hfirst ends noOverlap, ?_,
        Piece.rewritten_cons_of_ok placed hok⟩
      intro j hj
      rcases List.mem_cons.1 hj with heq | hj
      · exact Glyph.placeholder.inj heq ▸ hi
      · exact bound j hj
    · exact .inr ⟨err, .of_numbered hstem hfirst hne hns ends noOverlap hbound unbound,
        Piece.rewritten_cons_of_rest placed herr⟩
  · refine .inr ⟨_, ⟨0, ns, ⟨hne, hns, text, by rw [hstem]; rfl, ends⟩, hbound, nofun, rfl⟩, ?_⟩
    exact Piece.rewritten_cons_of_error (Piece.positional_placeholder_of_notMem hbound)

theorem of_noOverlap (hstem : p.stem.toList = first :: others) (hfirst : first.isDigit = false)
    (noOverlap : NoOverlap (first :: others) text) : Settled p first others text := by
  induction hn : text.length using Nat.strong_induction_on generalizing text with
  | _ n ih =>
      subst hn
      rcases text with _ | ⟨c, text⟩
      · exact nil
      by_cases hstart : first :: others <+: c :: text
      · obtain ⟨after, hafter⟩ := hstart
        obtain ⟨ds, rest, rfl, hds, ends⟩ :
            ∃ ds rest, after = ds ++ rest ∧ (∀ d ∈ ds, d.isDigit = true) ∧ EndsNumber rest :=
          ⟨_, _, List.takeWhile_append_dropWhile.symm, List.all_eq_true.1 List.all_takeWhile,
            endsNumber_dropWhile after⟩
        have hlength := congrArg List.length hafter
        simp only [List.length_append, List.length_cons] at hlength
        rw [← hafter] at noOverlap ⊢
        have settled : Settled p first others rest :=
          ih _ (by simp; omega) noOverlap.of_append.of_append rfl
        by_cases hne : ds = []
        · subst hne
          exact bareStem hstem ends noOverlap settled
        · exact numbered hstem hfirst hne hds ends noOverlap settled
      · have noOverlap : NoOverlap (first :: others) ([c] ++ text) := noOverlap
        exact char hstem hstart (ih text.length (by simp) noOverlap.of_append rfl)

end Settled

/-- Where the stem does not overlap with itself and has no digits, a text is rewritten if all its
placeholders are bound: they get their positions, and every other character is kept. It fails
exactly when one of them is not bound, and names the first of these. -/
theorem positional_of_noOverlap {p : Params} {sql : String} (hne : p.stem ≠ "")
    (noDigit : ∀ c ∈ p.stem.toList, c.isDigit = false)
    (noOverlap : NoOverlap p.stem.toList sql.toList) :
    (AllBound p sql.toList →
      ∃ gs, Reading p.stem.toList sql.toList gs ∧ (∀ i, .placeholder i ∈ gs → i < p.size) ∧
        positional p sql = .ok (String.ofList (positionalOf gs))) ∧
    ((∃ err, positional p sql = .error err) ↔ ¬ AllBound p sql.toList) ∧
    ∀ err, positional p sql = .error err ↔ FirstUnbound p sql.toList err := by
  obtain ⟨first, others, hstem⟩ := List.exists_cons_of_ne_nil (mt String.toList_eq_nil_iff.1 hne)
  have settled := Settled.of_noOverlap hstem (noDigit first (by simp [hstem])) (hstem ▸ noOverlap)
  rw [Piece.positional_eq_rewritten hstem]
  rcases settled with ⟨gs, reads, hgs, hok⟩ | ⟨err, unbound, herr⟩
  · rw [← hstem] at reads
    have bound : AllBound p sql.toList := reads.allBound hgs
    rw [hok]
    exact ⟨fun _ => ⟨gs, reads, hgs, rfl⟩, iff_of_false nofun (not_not_intro bound),
      fun err => iff_of_false nofun fun unbound => unbound.not_allBound bound⟩
  · have notBound := unbound.not_allBound
    rw [herr]
    exact ⟨fun bound => absurd bound notBound, iff_of_true ⟨err, rfl⟩ notBound, fun err' =>
      ⟨fun h => Except.error.inj h ▸ unbound, fun h => congrArg Except.error (unbound.unique h)⟩⟩

/-- Eleven values. -/
def elevenValues : Params := ⟨"@p", List.replicate 11 (.int 7)⟩

theorem longNames_replaced :
    elevenValues.stem ≠ "" ∧ (∀ c ∈ elevenValues.stem.toList, c.isDigit = false) ∧
      NoOverlap elevenValues.stem.toList "@p1@p10 = @p @p10".toList ∧
      positional elevenValues "@p1@p10 = @p @p10" = .ok "$2$11 = @p $11" ∧
      ∃ gs, Reading elevenValues.stem.toList "@p1@p10 = @p @p10".toList gs ∧
        String.ofList (positionalOf gs) = "$2$11 = @p $11" := by
  have hne : elevenValues.stem ≠ "" := by decide
  have noDigit : ∀ c ∈ elevenValues.stem.toList, c.isDigit = false := by
    simp [elevenValues, Char.isDigit]
  have noOverlap : NoOverlap elevenValues.stem.toList "@p1@p10 = @p @p10".toList :=
    .of_notMem (by decide) _
  have replaced : positional elevenValues "@p1@p10 = @p @p10" = .ok "$2$11 = @p $11" := by
    apply Outcome.eq_ok_of_toOption
    decide +kernel
  obtain ⟨succeeds, fails_iff, -⟩ := positional_of_noOverlap hne noDigit noOverlap
  have bound : AllBound elevenValues "@p1@p10 = @p @p10".toList := by
    by_contra notBound
    obtain ⟨err, failed⟩ := fails_iff.2 notBound
    rw [replaced] at failed
    cases failed
  obtain ⟨gs, reads, -, hgs⟩ := succeeds bound
  exact ⟨hne, noDigit, noOverlap, replaced, gs, reads, Except.ok.inj (hgs.symm.trans replaced)⟩

end TypedQuery.Sql
