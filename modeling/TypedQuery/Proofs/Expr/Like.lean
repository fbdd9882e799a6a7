import Mathlib.Data.List.Forall2
import TypedQuery.Expr.Like

/-!
# What LIKE matches

A pattern matches a text that can be split into parts, one for each token. The comparison looks
for such a split with the latest run as the only place to return to. Nothing is lost by that: every
token behind the run stands for one character, so a split in which an earlier run takes more leaves
an end of the text that the latest run can leave as well.
-/

namespace TypedQuery

namespace LikeToken

/-- The characters that a token may stand for. -/
def StandsFor : LikeToken → List Char → Prop
  | anyRun, _ => True
  | anyOne, part => ∃ c, part = [c]
  | exact c, part => part = [c]

/-- The text can be split into parts, one for each token. -/
def Matches (tokens : List LikeToken) (text : List Char) : Prop :=
  ∃ parts, parts.flatten = text ∧ List.Forall₂ StandsFor tokens parts

/-- The ways to write tokens as a pattern. -/
inductive Written : List LikeToken → List Char → Prop
  | nil : Written [] []
  | anyRun {tokens cs} (rest : Written tokens cs) : Written (anyRun :: tokens) ('%' :: cs)
  | anyOne {tokens cs} (rest : Written tokens cs) : Written (anyOne :: tokens) ('_' :: cs)
  | quoted {c tokens cs} (rest : Written tokens cs) :
      Written (exact c :: tokens) ('\\' :: c :: cs)
  | plain {c tokens cs} (ordinary : c ∉ ['%', '_', '\\']) (rest : Written tokens cs) :
      Written (exact c :: tokens) (c :: cs)
  | backslash : Written [exact '\\'] ['\\']

variable {t : LikeToken} {tokens taken : List LikeToken} {text pattern : List Char} {c : Char}

/-- A pattern is written from its tokens and from no others. -/
theorem written_iff : Written tokens pattern ↔ tokens = ofPattern pattern := by
  constructor
  · intro h
    induction h with
    | nil => rfl
    | anyRun rest ih => rw [ofPattern, ih]
    | anyOne rest ih => rw [ofPattern, ih]
    | quoted rest ih => rw [ofPattern, ih]
    | plain ordinary rest ih =>
        simp only [List.mem_cons, List.not_mem_nil, or_false, not_or] at ordinary
        rw [ofPattern, ih] <;> simp [ordinary]
    | backslash => rfl
  · rintro rfl
    fun_induction ofPattern pattern with
    | case1 => exact .nil
    | case2 => exact .backslash
    | case3 c cs ih => exact .quoted ih
    | case4 cs ih => exact .anyRun ih
    | case5 cs ih => exact .anyOne ih
    | case6 c cs hlast hquoted hrun hone ih =>
        refine .plain ?_ ih
        have hquote : c ≠ '\\' := by
          rintro rfl
          cases cs with
          | nil => exact hlast rfl rfl
          | cons d ds => exact hquoted d ds rfl rfl
        simpa using ⟨hrun, hone, hquote⟩

theorem length_ofPattern_le : (ofPattern pattern).length ≤ pattern.length := by
  fun_induction ofPattern pattern <;> simp_all
  omega

@[simp] theorem matches_nil : Matches [] text ↔ text = [] := by
  simp [Matches, List.forall₂_nil_left_iff, eq_comm]

theorem matches_cons :
    Matches (t :: tokens) text ↔
      ∃ part rest, text = part ++ rest ∧ StandsFor t part ∧ Matches tokens rest := by
  constructor
  · rintro ⟨parts, rfl, h⟩
    obtain ⟨part, rest, hpart, hrest, rfl⟩ := List.forall₂_cons_left_iff.1 h
    exact ⟨part, rest.flatten, rfl, hpart, rest, rfl, hrest⟩
  · rintro ⟨part, -, rfl, hpart, rest, rfl, hrest⟩
    exact ⟨part :: rest, rfl, .cons hpart hrest⟩

/-- A run leaves some end of the text to the tokens behind it. -/
theorem matches_anyRun :
    Matches (anyRun :: tokens) text ↔ ∃ rest, rest <:+ text ∧ Matches tokens rest := by
  rw [matches_cons]
  constructor
  · rintro ⟨part, rest, rfl, -, h⟩
    exact ⟨rest, List.suffix_append part rest, h⟩
  · rintro ⟨rest, ⟨part, rfl⟩, h⟩
    exact ⟨part, rest, rfl, trivial, h⟩

theorem standsFor_iff_fits (ht : t ≠ anyRun) {part : List Char} :
    StandsFor t part ↔ ∃ c, part = [c] ∧ t.fits c = true := by
  cases t with
  | anyRun => exact absurd rfl ht
  | anyOne => simp [StandsFor, fits]
  | exact d =>
      simp only [StandsFor, fits, beq_iff_eq]
      exact ⟨fun h => ⟨d, h, rfl⟩, fun ⟨c, h, hc⟩ => hc ▸ h⟩

/-- Every other token takes the first character. -/
theorem matches_cons_of_ne (ht : t ≠ anyRun) :
    Matches (t :: tokens) text ↔
      ∃ c rest, text = c :: rest ∧ t.fits c = true ∧ Matches tokens rest := by
  rw [matches_cons]
  constructor
  · rintro ⟨part, rest, rfl, hpart, h⟩
    obtain ⟨c, rfl, hc⟩ := (standsFor_iff_fits ht).1 hpart
    exact ⟨c, rest, rfl, hc, h⟩
  · rintro ⟨c, rest, rfl, hc, h⟩
    exact ⟨[c], rest, rfl, (standsFor_iff_fits ht).2 ⟨c, rfl, hc⟩, h⟩

theorem ne_anyRun_of_fits (h : t.fits c = true) : t ≠ anyRun := by
  rintro rfl
  cases h

/-- Nothing is left for runs only. -/
theorem matches_empty : Matches tokens [] ↔ tokens.all (· == anyRun) = true := by
  induction tokens with
  | nil => simp
  | cons t tokens ih =>
      by_cases ht : t = anyRun
      · subst ht
        simp [matches_anyRun, ih]
      · simp [matches_cons_of_ne ht, ht]

/-- Tokens that are no runs take as many characters as they are. -/
theorem exists_of_matches_append (hrun : anyRun ∉ taken) (h : Matches (taken ++ tokens) text) :
    ∃ part rest, text = part ++ rest ∧ part.length = taken.length ∧ Matches tokens rest := by
  induction taken generalizing text with
  | nil => exact ⟨[], text, rfl, rfl, h⟩
  | cons t taken ih =>
      obtain ⟨ht, hrun⟩ := not_or.1 (List.mem_cons.not.1 hrun)
      obtain ⟨c, rest, rfl, -, hrest⟩ := (matches_cons_of_ne (Ne.symm ht)).1 h
      obtain ⟨part, rest, rfl, hpart, hrest⟩ := ih hrun hrest
      exact ⟨c :: part, rest, rfl, by simp [hpart], hrest⟩

end LikeToken

namespace LikeScan

open LikeToken

variable {s s' : LikeScan} {b : Bool}

/-- Since the latest run each token has taken one character. -/
def Aligned (s : LikeScan) : Prop :=
  ∀ r ∈ s.run?, ∃ taken part, r.tokens = taken ++ s.tokens ∧ r.text = part ++ s.text ∧
    taken.length = part.length ∧ anyRun ∉ taken

/-- What a comparison has left to find: the tokens match the text, or those behind the latest run
match when the run has taken more. -/
def Open (s : LikeScan) : Prop :=
  Matches s.tokens s.text ∨
    ∃ r ∈ s.run?, ∃ rest, rest <:+ r.text ∧ rest.length < r.text.length ∧ Matches r.tokens rest

/-- When the latest run takes more, the tokens that are left have a later end of the text. -/
theorem Aligned.exists_later (aligned : s.Aligned) {r : LikeRun} (hr : r ∈ s.run?)
    {rest : List Char} (hrest : rest <:+ r.text) (hlt : rest.length < r.text.length)
    (h : Matches r.tokens rest) :
    ∃ later, later <:+ s.text ∧ later.length < s.text.length ∧ Matches s.tokens later := by
  obtain ⟨taken, part, htokens, htext, hlength, hrun⟩ := aligned r hr
  rw [htokens] at h
  obtain ⟨first, later, rfl, hfirst, hlater⟩ := exists_of_matches_append hrun h
  have hshort : later.length < s.text.length := by
    rw [htext, List.length_append, List.length_append] at hlt
    omega
  have hend : later <:+ r.text := (List.suffix_append first later).trans hrest
  have hend' : s.text <:+ r.text := htext ▸ List.suffix_append part s.text
  exact ⟨later, List.suffix_of_suffix_length_le hend hend' (Nat.le_of_lt hshort), hshort, hlater⟩

theorem not_matches_of_not_fits {c : Char} {text : List Char} {t : LikeToken}
    {tokens : List LikeToken} (ht : t ≠ anyRun) (h : ¬ t.fits c = true) :
    ¬ Matches (t :: tokens) (c :: text) := by
  intro hmatch
  obtain ⟨d, rest, heq, hfits, -⟩ := (matches_cons_of_ne ht).1 hmatch
  obtain ⟨rfl, rfl⟩ := List.cons.inj heq
  exact h hfits

/-- The ways in which a comparison goes on. -/
theorem cases_of_step (h : s.step = .inl s') :
    (∃ tokens, s.tokens = anyRun :: tokens ∧ s' = ⟨s.text, tokens, some ⟨tokens, s.text⟩⟩) ∨
    (∃ c text t tokens, s.text = c :: text ∧ s.tokens = t :: tokens ∧ t.fits c = true ∧
      s' = ⟨text, tokens, s.run?⟩) ∨
    (¬ Matches s.tokens s.text ∧ ∃ tokens c text, s.run? = some ⟨tokens, c :: text⟩ ∧
      s' = ⟨text, tokens, some ⟨tokens, text⟩⟩) := by
  unfold step at h
  split at h
  · cases h
  · exact .inl ⟨_, rfl, (Sum.inl.inj h).symm⟩
  · rename_i c text t tokens run? ht
    split at h
    · rename_i hfits
      exact .inr (.inl ⟨c, text, t, tokens, rfl, rfl, hfits, (Sum.inl.inj h).symm⟩)
    · rename_i hfits
      exact .inr (.inr ⟨not_matches_of_not_fits (fun h => ht h) hfits, exists_of_widen h⟩)
  · exact .inr (.inr ⟨by simp, exists_of_widen h⟩)

theorem of_widen_end {run? : Option LikeRun} (h : widen run? = .inr b) :
    b = false ∧ ∀ r ∈ run?, r.text = [] := by
  unfold widen at h
  split at h
  · cases h
  · rename_i hrun
    refine ⟨(Sum.inr.inj h).symm, ?_⟩
    rintro ⟨tokens, _ | ⟨c, text⟩⟩ hr
    · rfl
    · exact absurd hr (hrun tokens c text)

/-- The ways in which a comparison ends. -/
theorem cases_of_step_end (h : s.step = .inr b) :
    (s.text = [] ∧ b = s.tokens.all (· == anyRun)) ∨
    (¬ Matches s.tokens s.text ∧ b = false ∧ ∀ r ∈ s.run?, r.text = []) := by
  unfold step at h
  split at h
  · exact .inl ⟨rfl, (Sum.inr.inj h).symm⟩
  · cases h
  · rename_i c text t tokens run? ht
    split at h
    · cases h
    · rename_i hfits
      exact .inr ⟨not_matches_of_not_fits (fun h => ht h) hfits, of_widen_end h⟩
  · exact .inr ⟨by simp, of_widen_end h⟩

theorem Aligned.step (aligned : s.Aligned) (h : s.step = .inl s') : s'.Aligned := by
  rcases cases_of_step h with ⟨tokens, -, rfl⟩ | ⟨c, text, t, tokens, htext, htokens, hfits, rfl⟩ |
    ⟨-, tokens, c, text, -, rfl⟩
  · rintro r ⟨⟩
    exact ⟨[], [], rfl, rfl, rfl, by simp⟩
  · intro r hr
    obtain ⟨taken, part, hr, hr', hlength, hrun⟩ := aligned r hr
    refine ⟨taken ++ [t], part ++ [c], ?_, ?_, by simp [hlength], ?_⟩
    · simp [hr, htokens]
    · simp [hr', htext]
    · simpa [hrun] using (ne_anyRun_of_fits hfits).symm
  · rintro r ⟨⟩
    exact ⟨[], [], rfl, rfl, rfl, by simp⟩

/-- Behind a run that has taken nothing more yet, any end of the text may be left. -/
theorem open_behind_run {tokens : List LikeToken} {text : List Char} :
    Open ⟨text, tokens, some ⟨tokens, text⟩⟩ ↔ ∃ rest, rest <:+ text ∧ Matches tokens rest := by
  constructor
  · rintro (hmatch | ⟨r, ⟨⟩, rest, hrest, -, hmatch⟩)
    · exact ⟨text, List.suffix_rfl, hmatch⟩
    · exact ⟨rest, hrest, hmatch⟩
  · rintro ⟨rest, hrest, hmatch⟩
    rcases Nat.lt_or_eq_of_le hrest.length_le with hlt | heq
    · exact .inr ⟨_, rfl, rest, hrest, hlt, hmatch⟩
    · exact .inl (hrest.eq_of_length heq ▸ hmatch)

/-- No turn loses a match, and none makes one up. -/
theorem open_iff_of_step (aligned : s.Aligned) (h : s.step = .inl s') : s.Open ↔ s'.Open := by
  rcases cases_of_step h with ⟨tokens, htokens, rfl⟩ |
    ⟨c, text, t, tokens, htext, htokens, hfits, rfl⟩ | ⟨hno, tokens, c, text, hrun, rfl⟩
  · rw [open_behind_run, ← matches_anyRun, ← htokens]
    refine ⟨?_, .inl⟩
    rintro (hmatch | ⟨r, hr, rest, hrest, hlt, hmatch⟩)
    · exact hmatch
    · -- an earlier run that takes more leaves an end of the text that this run can leave
      obtain ⟨later, hlater, -, hmatch⟩ := aligned.exists_later hr hrest hlt hmatch
      rw [htokens, matches_anyRun] at hmatch ⊢
      obtain ⟨rest, hrest, hmatch⟩ := hmatch
      exact ⟨rest, hrest.trans hlater, hmatch⟩
  · have hmatch : Matches s.tokens s.text ↔ Matches tokens text := by
      rw [htext, htokens, matches_cons_of_ne (ne_anyRun_of_fits hfits)]
      simp [hfits]
    exact or_congr_left hmatch
  · rw [open_behind_run]
    constructor
    · rintro (hmatch | ⟨r, hr, rest, hrest, hlt, hmatch⟩)
      · exact absurd hmatch hno
      · obtain rfl := Option.some.inj (hrun.symm.trans hr)
        exact ⟨rest, (List.suffix_cons_iff.1 hrest).resolve_left
          fun heq => Nat.ne_of_lt hlt (congrArg List.length heq), hmatch⟩
    · rintro ⟨rest, hrest, hmatch⟩
      exact .inr ⟨_, hrun, rest, hrest.trans (List.suffix_cons c text),
        Nat.lt_succ_of_le hrest.length_le, hmatch⟩

/-- The answer at the end says whether a match is left. -/
theorem open_iff_of_end (aligned : s.Aligned) (h : s.step = .inr b) : b = true ↔ s.Open := by
  rcases cases_of_step_end h with ⟨htext, rfl⟩ | ⟨hno, rfl, hnone⟩
  · rw [← matches_empty, ← htext]
    refine ⟨.inl, ?_⟩
    rintro (hmatch | ⟨r, hr, rest, hrest, hlt, hmatch⟩)
    · exact hmatch
    · obtain ⟨later, -, hlater, -⟩ := aligned.exists_later hr hrest hlt hmatch
      simp [htext] at hlater
  · refine ⟨nofun, ?_⟩
    rintro (hmatch | ⟨r, hr, rest, -, hlt, -⟩)
    · exact absurd hmatch hno
    · simp [hnone r hr] at hlt

theorem answer_iff (aligned : s.Aligned) : s.answer = true ↔ s.Open := by
  fun_induction answer s with
  | case1 s s' h ih => exact (ih (aligned.step h)).trans (open_iff_of_step aligned h).symm
  | case2 s b h => exact open_iff_of_end aligned h

/-- The comparison ends after so many turns with the answer. -/
inductive Ends : LikeScan → Nat → Bool → Prop
  | now {s : LikeScan} {b : Bool} (h : s.step = .inr b) : Ends s 1 b
  | later {s s' : LikeScan} {n : Nat} {b : Bool} (h : s.step = .inl s') (rest : Ends s' n b) :
      Ends s (n + 1) b

theorem exists_ends (s : LikeScan) : ∃ n ≤ s.rank + 1, s.Ends n s.answer := by
  fun_induction answer s with
  | case1 s s' h ih =>
      obtain ⟨n, hn, rest⟩ := ih
      have hrank := rank_lt_of_step h
      exact ⟨n + 1, by omega, .later h rest⟩
  | case2 s b h => exact ⟨1, by omega, .now h⟩

end LikeScan

/-- The comparison ends, within as many turns as the text and the pattern allow, and it finds out
whether the text can be split into parts for the tokens that the pattern is written from. -/
theorem likeMatch_iff_matches (text pattern : List Char) :
    (∃ turns ≤ (text.length + 1) * (pattern.length + 1),
      LikeScan.Ends ⟨text, LikeToken.ofPattern pattern, none⟩ turns (likeMatch text pattern)) ∧
    (likeMatch text pattern = true ↔
      ∃ tokens, LikeToken.Written tokens pattern ∧ LikeToken.Matches tokens text) := by
  constructor
  · obtain ⟨turns, hturns, ends⟩ :=
      LikeScan.exists_ends ⟨text, LikeToken.ofPattern pattern, none⟩
    refine ⟨turns, Nat.le_trans hturns ?_, ends⟩
    have hlength : (LikeToken.ofPattern pattern).length ≤ pattern.length :=
      LikeToken.length_ofPattern_le
    have hmul := Nat.mul_le_mul_left text.length (Nat.add_le_add_right hlength 1)
    simp only [LikeScan.rank, LikeScan.left, LikeScan.width, Option.elim_none, Nat.max_zero,
      Nat.add_one_mul]
    omega
  · rw [likeMatch, LikeScan.answer_iff (by rintro r ⟨⟩)]
    simp [LikeScan.Open, LikeToken.written_iff]

end TypedQuery
