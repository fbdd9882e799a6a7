import TypedQuery.Demo
import TypedQuery.Proofs.Sql.Scanning

/-!
# Placeholders of fragments

Translating an expression numbers its placeholders from left to right in the order in which
their values are bound. So the placeholders that are found in the text of a fragment are those
of the values that were added to the parameters, each once and in their order.
-/

namespace TypedQuery

/-- Values that are added leave the placeholders before them as they are. -/
theorem Params.take_entries_append (p : Params) (vs : List Value) :
    (entries { p with values := p.values ++ vs }).take p.size = p.entries := by
  rw [entries, List.zipIdx_append, List.map_append]
  exact List.take_left' (by simp [size])

namespace Sql

open TypedQuery.Sql.Fragment

namespace Token

def glyphs : Token → List Glyph
  | .placeholder _ i => [.placeholder i]
  | t => t.text.toList.map .char

/-- The text with the position that the database counts in place of a placeholder. -/
def positionalText : Token → String
  | .placeholder _ i => Number.numbered "$" (i + 1)
  | t => t.text

theorem eq_placeholder {t : Token} (h : t.isPlaceholder = true) :
    ∃ stem i, t = .placeholder stem i := by
  cases t with
  | placeholder stem i => exact ⟨stem, i, rfl⟩
  | _ => cases h

theorem glyphs_of_not_placeholder {t : Token} (h : t.isPlaceholder = false) :
    t.glyphs = t.text.toList.map .char := by
  cases t with
  | placeholder => cases h
  | _ => rfl

theorem positionalText_of_not_placeholder {t : Token} (h : t.isPlaceholder = false) :
    t.positionalText = t.text := by
  cases t with
  | placeholder => cases h
  | _ => rfl

end Token

namespace Fragment

variable {f g : Fragment} {t : Token}

def glyphs (f : Fragment) : List Glyph := f.flatMap Token.glyphs

/-- The text with positions in place of placeholders, all else kept. -/
def positionalText (f : Fragment) : String := String.join (f.map Token.positionalText)

theorem toList_join_map (h : Token → String) (f : Fragment) :
    (String.join (f.map h)).toList = f.flatMap fun t => (h t).toList := by
  induction f with
  | nil => rfl
  | cons t f ih => rw [List.map_cons, String.join_cons, String.toList_append, ih, List.flatMap_cons]

/-- All placeholders have the stem. -/
def HasStem (stem : String) (f : Fragment) : Prop := ∀ s i, .placeholder s i ∈ f → s = stem

theorem HasStem.cons {stem : String} (h : HasStem stem (t :: f)) : HasStem stem f :=
  fun s i hmem => h s i (by simp [hmem])

theorem toList_text {stem : String} (h : HasStem stem f) :
    f.text.toList = textOf stem.toList f.glyphs := by
  rw [text, toList_join_map]
  induction f with
  | nil => rfl
  | cons t f ih =>
      rw [List.flatMap_cons, glyphs, List.flatMap_cons, ih h.cons]
      cases ht : t.isPlaceholder with
      | true =>
          obtain ⟨s, i, rfl⟩ := Token.eq_placeholder ht
          rw [h s i (by simp), Token.text, Number.toList_numbered]
          rfl
      | false => rw [Token.glyphs_of_not_placeholder ht, textOf_chars, glyphs]

theorem toList_positionalText (f : Fragment) :
    f.positionalText.toList = positionalOf f.glyphs := by
  rw [positionalText, toList_join_map]
  induction f with
  | nil => rfl
  | cons t f ih =>
      rw [List.flatMap_cons, glyphs, List.flatMap_cons, ih]
      cases ht : t.isPlaceholder with
      | true =>
          obtain ⟨s, i, rfl⟩ := Token.eq_placeholder ht
          rw [Token.positionalText, Number.toList_numbered]
          rfl
      | false =>
          rw [Token.glyphs_of_not_placeholder ht, Token.positionalText_of_not_placeholder ht,
            positionalOf_chars, glyphs]

theorem endsNumber_of_separates {stem : List Char} (h : t.separates = true) :
    EndsNumber (textOf stem (glyphs (t :: f))) := by
  cases t with
  | space | newline | comma | rparen =>
      intro d hd
      obtain rfl := Option.some.inj hd
      rfl
  | _ => cases h

theorem Separated.parted (stem : List Char) (h : Separated f) : Parted stem f.glyphs := by
  induction f with
  | nil => trivial
  | cons t f ih =>
      obtain ⟨hhead, hrest⟩ := List.isChain_cons.1 h
      have hparted := ih hrest
      cases ht : t.isPlaceholder with
      | true =>
          obtain ⟨s, i, rfl⟩ := Token.eq_placeholder ht
          refine ⟨?_, hparted⟩
          cases f with
          | nil => simp [EndsNumber, textOf]
          | cons u f => exact endsNumber_of_separates (hhead u rfl ht)
      | false =>
          rw [glyphs, List.flatMap_cons, Token.glyphs_of_not_placeholder ht]
          induction t.text.toList with
          | nil => exact hparted
          | cons c cs ih => exact ih

theorem mem_glyphs_placeholder {i : Nat} (h : .placeholder i ∈ f.glyphs) :
    ∃ stem, .placeholder stem i ∈ f := by
  obtain ⟨t, ht, hglyph⟩ := List.mem_flatMap.1 h
  cases hplaceholder : t.isPlaceholder with
  | true =>
      obtain ⟨s, j, rfl⟩ := Token.eq_placeholder hplaceholder
      obtain ⟨rfl⟩ : i = j := by simpa [Token.glyphs] using hglyph
      exact ⟨s, ht⟩
  | false =>
      rw [Token.glyphs_of_not_placeholder hplaceholder] at hglyph
      simp at hglyph

theorem isOrdinary_of_mem_glyphs {c : Char} (hf : Ordinary f) (h : .char c ∈ f.glyphs) :
    Sql.isOrdinary c = true := by
  obtain ⟨t, ht, hglyph⟩ := List.mem_flatMap.1 h
  have ordinary := hf t ht
  cases hplaceholder : t.isPlaceholder with
  | true =>
      obtain ⟨s, j, rfl⟩ := Token.eq_placeholder hplaceholder
      simp [Token.glyphs] at hglyph
  | false =>
      rw [Token.glyphs_of_not_placeholder hplaceholder] at hglyph
      obtain ⟨d, hd, heq⟩ := List.mem_map.1 hglyph
      cases heq
      rw [Token.isOrdinary] at ordinary
      · exact List.all_eq_true.1 ordinary c hd
      · rintro stem i rfl
        cases hplaceholder

/-- A stem with a character that is not ordinary cannot be confused with an ordinary text. -/
theorem Ordinary.clear {stem : List Char} (hf : Ordinary f)
    (foreign : ∃ x ∈ stem, Sql.isOrdinary x = false) : Clear stem f.glyphs :=
  clear_of_foreign foreign fun _ => isOrdinary_of_mem_glyphs hf

/-- Positions replace exactly the placeholders of a fragment if and only if nothing in its text
disturbs them. -/
theorem positional_eq_ok_iff {p : Params} (hstem : Naming.isParameterStem p.stem = true)
    (bound : ∀ s i, .placeholder s i ∈ f → s = p.stem ∧ i < p.size) (hf : Separated f) :
    positional p f.text = .ok f.positionalText ↔ Clear p.stem.toList f.glyphs := by
  obtain ⟨hne, noDigit⟩ : p.stem ≠ "" ∧ ∀ c ∈ p.stem.toList, c.isDigit = false := by
    simp only [Naming.isParameterStem, Bool.and_eq_true, bne_iff_ne, List.all_eq_true,
      Bool.not_eq_true'] at hstem
    exact ⟨hstem.1, fun c hc => (hstem.2 c hc).1⟩
  have hasStem : HasStem p.stem f := fun s i hmem => (bound s i hmem).1
  have htext := toList_text hasStem
  have hparted := hf.parted p.stem.toList
  have hbound (i : Nat) (h : .placeholder i ∈ f.glyphs) : i < p.size := by
    obtain ⟨s, hmem⟩ := mem_glyphs_placeholder h
    exact (bound s i hmem).2
  have hlist := toList_positionalText f
  obtain ⟨first, others, hsplit⟩ : ∃ first others, p.stem.toList = first :: others :=
    List.exists_cons_of_ne_nil (by simpa using hne)
  rw [Piece.positional_ok_iff hsplit, htext, hlist]
  rw [hsplit] at noDigit hparted ⊢
  exact ⟨clear_of_rewritten hsplit noDigit hparted, Clear.rewritten hsplit hbound hparted⟩

theorem placeholders_cons (ht : t.isPlaceholder = false) :
    placeholders (t :: f) = placeholders f := by
  cases t with
  | placeholder => cases ht
  | _ => rfl

theorem placeholders_parens (f : Fragment) : placeholders (parens f) = placeholders f := by
  rw [parens, placeholders_append, placeholders_cons rfl, placeholders_cons rfl]
  simp [placeholders]

theorem placeholders_around (ht : t.isPlaceholder = false) :
    placeholders (around f t g) = placeholders f ++ placeholders g := by
  rw [around, placeholders_append, placeholders_cons rfl, placeholders_cons ht,
    placeholders_cons rfl]

theorem placeholders_joined (c : Clause.Separator) (fs : List Fragment) :
    placeholders (joined c fs) = fs.flatMap placeholders := by
  induction fs with
  | nil => rfl
  | cons f rest ih =>
      cases rest with
      | nil => simp [joined_singleton]
      | cons g rest =>
          rw [joined_cons_cons, placeholders_append, placeholders_append, ih, List.flatMap_cons]
          cases c <;> rfl

theorem placeholders_aggregateOf (a : Aggregate) (f : Fragment) :
    placeholders (aggregateOf a f) = placeholders f := by
  rw [aggregateOf, placeholders_cons rfl, placeholders_parens]
  split <;> rfl

end Fragment

/-- The fragment has one placeholder for each value that is added, numbered on from the values
before, and no value is NULL. -/
def Numbers (p p' : Params) (f : Fragment) : Prop :=
  ∃ vs, p' = { p with values := p.values ++ vs } ∧ (∀ v ∈ vs, v.isNull = false) ∧
    f.placeholders = (List.range' p.size vs.length).map fun i => (p.stem, i)

namespace Numbers

variable {p p' q : Params} {f g : Fragment}

theorem none (h : f.placeholders = []) : Numbers p p f := ⟨[], by simp, by simp, by simpa using h⟩

theorem stem (h : Numbers p p' f) : p'.stem = p.stem := by
  obtain ⟨vs, rfl, -, -⟩ := h
  rfl

theorem congr (h : Numbers p p' f) (hg : g.placeholders = f.placeholders) : Numbers p p' g := by
  obtain ⟨vs, hvalues, hnull, hf⟩ := h
  exact ⟨vs, hvalues, hnull, hg.trans hf⟩

/-- What comes second is numbered on from what comes first. -/
theorem append (hf : Numbers p q f) (hg : Numbers q p' g) : Numbers p p' (f ++ g) := by
  obtain ⟨vs, rfl, hvs, hf⟩ := hf
  obtain ⟨ws, rfl, hws, hg⟩ := hg
  refine ⟨vs ++ ws, by simp, ?_, ?_⟩
  · exact fun v hv => (List.mem_append.1 hv).elim (hvs v) (hws v)
  · rw [Fragment.placeholders_append, hf, hg, ← List.map_append, List.length_append]
    congr 1
    simp [Params.size]

theorem parens (h : Numbers p p' f) : Numbers p p' (parens f) :=
  h.congr (placeholders_parens f)

theorem around {t : Token} (hf : Numbers p q f) (ht : t.isPlaceholder = false)
    (hg : Numbers q p' g) : Numbers p p' (around f t g) :=
  (hf.append hg).congr (by rw [placeholders_around ht, Fragment.placeholders_append])

theorem written (b : Binder) (v : Value) : Numbers b.params (b.bound v).params (b.written v) := by
  unfold Binder.written Binder.bound
  split
  · exact .none rfl
  · rename_i hnull
    exact ⟨[v], rfl, List.forall_mem_singleton.2 (Bool.eq_false_iff.2 hnull), rfl⟩

theorem writtenAll (vs : List Value) (b : Binder) :
    Numbers b.params (b.boundAll vs).params (joined .comma (b.writtenAll vs)) := by
  induction vs generalizing b with
  | nil => exact .none rfl
  | cons v vs ih =>
      apply ((written b v).append (ih (b.bound v))).congr
      rw [placeholders_joined, Fragment.placeholders_append, placeholders_joined]
      rfl

end Numbers

section

variable {c : Context} {x : Expr} {b b' : Binder} {f : Fragment}

/-- A projection binds nothing. -/
theorem Projects.params {target : Entity} {label : String} {seen : List String}
    {bs : List (String × Expr)} {columns : List Fragment}
    (h : Projects target label seen bs b columns b') : b'.params = b.params := by
  induction h with
  | nil => rfl
  | cons field fresh sourceField registered others ih => exact ih

theorem Projects.placeholders {target : Entity} {label : String} {seen : List String}
    {bs : List (String × Expr)} {columns : List Fragment}
    (h : Projects target label seen bs b columns b') :
    Fragment.placeholders (joined .comma columns) = [] := by
  rw [placeholders_joined, List.flatMap_eq_nil_iff]
  exact h.forall_mem fun _ _ _ => rfl

/-- Translating numbers placeholders and binds values in step. -/
theorem Translates.numbers (h : Translates c x b f b') : Numbers b.params b'.params f := by
  induction h with
  | @literal v b scalar => exact Numbers.written b v
  | @constant x v log b form value scalar => exact Numbers.written { b with log := log } v
  | column | groupedColumn | emptySet | countRows => exact .none rfl
  | testLeft null word operand ih | testRight other null word operand ih =>
      apply ih.congr
      rw [Fragment.placeholders_append]
      exact List.append_nil _
  | comparison order noTest left right ihl ihr => exact ihl.around rfl ihr
  | arithmetic noOrder reads left right ihl ihr => exact (ihl.around rfl ihr).parens
  | logical left right ihl ihr => exact ihl.parens.around rfl ihr.parens
  | between predicates target low high iht ihl ihh =>
      exact ((iht.around rfl ihl).around rfl ihh).parens
  | like predicates target pattern iht ihp => exact (iht.around rfl ihp).parens
  | memberOf predicates membership value nonempty target ih =>
      rw [around_nil_append]
      exact (ih.around rfl (Numbers.writtenAll _ _).parens).parens
  | aggregate aggregates argument ih => exact ih.congr (placeholders_aggregateOf _ _)
  | projection select nonempty registered bindings =>
      have hparams := bindings.params
      dsimp only at hparams
      rw [hparams]
      exact .none bindings.placeholders

end

/-- The name of a placeholder. -/
def Piece.name? (stem : String) : Piece → Option String
  | .placeholder digits => some (stem ++ String.ofList digits)
  | _ => none

/-- The placeholders that are found in a text, from left to right. -/
def placeholdersIn (stem sql : String) : List String :=
  match stem.toList with
  | [] => []
  | first :: others => (Piece.ofText first others sql.toList).filterMap (Piece.name? stem)

def Glyph.name? (stem : String) : Glyph → Option String
  | .placeholder i => some (Number.numbered stem i)
  | _ => none

/-- Where nothing disturbs the placeholders, they are found and nothing else is. -/
theorem Clear.found {stem : String} {first : Char} {others : List Char} {gs : List Glyph}
    (parted : Parted (first :: others) gs) (h : Clear (first :: others) gs) :
    (Piece.ofText first others (textOf (first :: others) gs)).filterMap (Piece.name? stem) =
      gs.filterMap (Glyph.name? stem) := by
  induction h with
  | nil => rw [textOf, List.flatMap_nil, Piece.ofText]; rfl
  | @placeholder i gs rest ih =>
      obtain ⟨ends, parted⟩ := parted
      rw [textOf, List.flatMap_cons, Glyph.text, List.append_assoc, ← textOf,
        Piece.ofText_numbered (fun _ => Number.isDigit_of_mem_digits) (Number.digits_ne_nil i) ends]
      exact congrArg (Number.numbered stem i :: ·) (ih parted)
  | @char c gs other rest ih =>
      exact (congrArg (List.filterMap (Piece.name? stem)) (Piece.ofText_of_not_prefix other)).trans
        (ih parted)
  | @stem gs bare rest ih =>
      rw [textOf_chars, Piece.ofText_bareStem bare, List.filterMap_append]
      have hchars : ((first :: others).map Glyph.char).filterMap (Glyph.name? stem) = [] := by
        rw [List.filterMap_eq_nil_iff]
        intro g hg
        obtain ⟨c, -, rfl⟩ := List.mem_map.1 hg
        rfl
      rw [hchars, List.nil_append]
      exact ih parted.of_chars

namespace Fragment

variable {f : Fragment}

theorem filterMap_glyphs (stem : String) (f : Fragment) :
    f.glyphs.filterMap (Glyph.name? stem) =
      f.placeholders.map fun placeholder => Number.numbered stem placeholder.2 := by
  induction f with
  | nil => rfl
  | cons t f ih =>
      rw [glyphs, List.flatMap_cons, List.filterMap_append, ← glyphs, ih]
      cases ht : t.isPlaceholder with
      | true =>
          obtain ⟨s, i, rfl⟩ := Token.eq_placeholder ht
          rfl
      | false =>
          have hnone : t.text.toList.filterMap (Glyph.name? stem ∘ Glyph.char) = [] :=
            List.filterMap_eq_nil_iff.2 fun _ _ => rfl
          rw [Token.glyphs_of_not_placeholder ht, placeholders_cons ht, List.filterMap_map, hnone,
            List.nil_append]

/-- The placeholders of an ordinary fragment are those that are found in its text, if their stem
has a character that is not ordinary. -/
theorem placeholdersIn_text {stem : String} (ordinary : Ordinary f) (separated : Separated f)
    (hasStem : HasStem stem f) (foreign : ∃ x ∈ stem.toList, Sql.isOrdinary x = false) :
    placeholdersIn stem f.text =
      f.placeholders.map fun placeholder => Number.numbered stem placeholder.2 := by
  have clear := ordinary.clear foreign
  have parted := separated.parted stem.toList
  have htext := toList_text hasStem
  unfold placeholdersIn
  obtain ⟨first, others, hsplit⟩ : ∃ first others, stem.toList = first :: others := by
    obtain ⟨x, hx, -⟩ := foreign
    exact List.exists_cons_of_ne_nil (List.ne_nil_of_mem hx)
  rw [hsplit] at clear parted htext ⊢
  rw [← filterMap_glyphs, ← clear.found parted, htext]

end Fragment

/-- With plain names and the default stem, a translation adds values to the parameters and writes
their placeholders, from left to right and each once. None of the values is NULL. -/
theorem placeholders_in_step (c : Context) (x : Expr) (b b' : Binder) (f : Fragment)
    (run : (translate c x).run b = (.ok f, b')) (stem : b.params.stem = "@p")
    (cte : Naming.isPlain c.naming.cteAlias = true) (aliases : b.aliases.Plain)
    (entities : ∀ E ∈ x.entities, E.Plain) :
    b.params.size ≤ b'.params.size ∧
      b'.params.entries.take b.params.size = b.params.entries ∧
      placeholdersIn "@p" f.text =
        (List.range' b.params.size (b'.params.size - b.params.size)).map (Number.numbered "@p") ∧
      ∀ v ∈ b'.params.values.drop b.params.size, v.isNull = false := by
  have rule := translates_of_run c x run
  obtain ⟨vs, hvalues, hnull, hplaceholders⟩ := rule.numbers
  obtain ⟨ordinary, -⟩ := rule.ordinary (.of_isPlain cte) aliases entities
  have hsize : b'.params.size = b.params.size + vs.length := by simp [hvalues, Params.size]
  have hasStem : HasStem "@p" f := by
    intro s i hmem
    have hfound : (s, i) ∈ f.placeholders := List.mem_filterMap.2 ⟨_, hmem, rfl⟩
    rw [hplaceholders] at hfound
    obtain ⟨j, -, heq⟩ := List.mem_map.1 hfound
    rw [← (Prod.mk.inj heq).1, stem]
  refine ⟨by omega, ?_, ?_, ?_⟩
  · rw [hvalues, Params.take_entries_append]
  · rw [placeholdersIn_text ordinary rule.separated hasStem ⟨'@', by decide⟩, hplaceholders, hsize,
      List.map_map, Nat.add_sub_cancel_left]
    rfl
  · rw [hvalues]
    simpa [Params.size] using hnull

/-- Orders in a set with NULL, whose customers' addresses match or whose total is missing. -/
def mixedCondition : Expr :=
  .logical .and
    (.call (.helper .isIn) [.field Demo.order "id", .literal (.list [.int 7, .null, .int 9])])
    (.logical .or (.call (.helper .like) [.field Demo.customer "email", .literal (.text "x%")])
      (.comparison .eq (.field Demo.order "total") (.literal .null)))

/-- A query of orders to which one value is bound. -/
def boundOnce : Binder := ⟨Aliases.rooted "Extend" Demo.order, ⟨"@p", [.text "paid"]⟩, []⟩

theorem mixedCondition_in_step :
    ∃ f b', (translate ⟨{}, false, .where⟩ mixedCondition).run boundOnce = (.ok f, b') ∧
      boundOnce.params.stem = "@p" ∧ Naming.isPlain ({} : Naming).cteAlias = true ∧
      boundOnce.aliases.Plain ∧ (∀ E ∈ mixedCondition.entities, E.Plain) ∧
      f.text = "((Extend0.id IN (@p1, NULL, @p2))) AND " ++
        "(((Extend1.email LIKE @p3)) OR (Extend0.total IS NULL))" ∧
      placeholdersIn "@p" f.text = ["@p1", "@p2", "@p3"] := by
  have aliases : boundOnce.aliases.Plain := ⟨by decide, by decide⟩
  have entities : ∀ E ∈ mixedCondition.entities, E.Plain := by
    intro E hE
    have hE : E = Demo.order ∨ E = Demo.customer ∨ E = Demo.order := by
      simpa [mixedCondition] using hE
    rcases hE with rfl | rfl | rfl <;> exact ⟨by decide, by decide⟩
  have run : (translate ⟨{}, false, .where⟩ mixedCondition).run boundOnce = (.ok _, _) := rfl
  have step :=
    placeholders_in_step _ mixedCondition boundOnce _ _ run rfl (by decide) aliases entities
  exact ⟨_, _, run, rfl, by decide, aliases, entities, by decide +kernel, step.2.2.1⟩

end Sql

end TypedQuery
