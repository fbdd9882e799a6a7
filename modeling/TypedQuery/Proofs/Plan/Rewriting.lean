import TypedQuery.Proofs.Plan.Assembly
import TypedQuery.Proofs.Plan.Calls
import TypedQuery.Proofs.Sql.Placeholders

/-!
# Rewriting compiled statements

Positions replace exactly the placeholders of a compiled statement if and only if nothing else
in its text reads as one. That is so for every stem with a character that statements are not
otherwise written with, such as the default one. A stem that is a plain word can occur in an
alias or a name, and then the text of that name is taken for a placeholder.
-/

namespace TypedQuery

open TypedQuery.Sql TypedQuery.Sql.Fragment

theorem Identifier.isPlain_of_check {name : String} (h : check name = .ok ()) :
    Naming.isPlain name = true := by
  unfold check at h
  split at h
  · cases h
  rename_i c cs hname
  split_ifs at h with hlong hstart hparts
  refine Naming.isPlain_iff.2 ⟨c, cs, hname, by simpa using hstart, ?_⟩
  rw [Bool.not_eq_true, Bool.not_eq_false', List.all_cons, Bool.and_eq_true] at hparts
  exact hparts.2

/-- The table is named by a plain word, as fields and columns are. -/
structure Entity.Named (e : Entity) : Prop extends e.Plain where
  table : Naming.isPlain e.table = true

/-- Table and columns are identifiers, and the fields are named by plain words. -/
structure Entity.Identified (e : Entity) : Prop where
  table : Identifier.check e.table = .ok ()
  columns : ∀ f ∈ e.fields, Identifier.check f.column = .ok ()
  fields : ∀ f ∈ e.fields, Naming.isPlain f.name = true

namespace Entity.Identified

variable {e : Entity}

theorem named (h : e.Identified) : e.Named where
  names := h.fields
  columns f hf := Identifier.isPlain_of_check (h.columns f hf)
  table := Identifier.isPlain_of_check h.table

end Entity.Identified

namespace Naming

variable {n : Naming}

/-- All names of a checked naming are plain words, beside the stem of placeholders. -/
theorem plain_of_check (h : n.check = .ok ()) :
    isPlain n.aliasStem = true ∧ isPlain n.cteName = true ∧ isPlain n.cteAlias = true ∧
      isPlain n.groupAlias = true := by
  obtain ⟨_, hwords, -⟩ := Outcome.bind_ok.1 h
  have plain : ∀ s ∈ wordSettings, isPlain (s.get n) = true := by
    intro s hs
    have hword := Outcome.forM_ok hwords s hs
    unfold InvalidConfig.require at hword
    split at hword
    · assumption
    · cases hword
  have settings : wordSettings.map NamingSetting.get =
      [aliasStem, cteName, cteAlias, groupAlias, defaultKeyField] := rfl
  have named (get : Naming → String) (hget : get ∈ wordSettings.map NamingSetting.get) :
      isPlain (get n) = true := by
    obtain ⟨s, hs, rfl⟩ := List.mem_map.1 hget
    exact plain s hs
  rw [settings] at named
  exact ⟨named _ (by simp), named _ (by simp), named _ (by simp), named _ (by simp)⟩

theorem isParameterStem_of_check (h : n.check = .ok ()) :
    isParameterStem n.parameterStem = true := by
  obtain ⟨_, -, h⟩ := Outcome.bind_ok.1 h
  obtain ⟨_, hstem, -⟩ := Outcome.bind_ok.1 h
  unfold InvalidConfig.require at hstem
  split at hstem
  · assumption
  · cases hstem

end Naming

theorem Aliases.Plain.rooted {stem : String} (h : Naming.isPlain stem = true) (root : Entity) :
    (Aliases.rooted stem root).Plain := by
  refine ⟨h, fun entry hentry => ?_⟩
  obtain rfl := List.mem_singleton.1 hentry
  exact Aliases.isPlain_numbered h 0

namespace Sql

/-- A placeholder is bound; and if the names of entities are plain, the token is ordinary. -/
structure Token.Sound (plain : Prop) (p : Params) (t : Token) : Prop where
  bound : ∀ s i, t = .placeholder s i → s = p.stem ∧ i < p.size
  ordinary : plain → t.isOrdinary = true

variable {plain : Prop} {p p' : Params} {t : Token}

theorem Token.Sound.of_ordinary (other : t.isPlaceholder = false)
    (ordinary : plain → t.isOrdinary = true) : t.Sound plain p := by
  refine ⟨?_, ordinary⟩
  rintro s i rfl
  cases other

theorem covers_sound (plain : Prop) (p : Params) : Covers (Token.Sound plain p) :=
  fun _ other ordinary => .of_ordinary other fun _ => ordinary

namespace Numbers

variable {f g : Fragment}

/-- What was bound before stays bound. -/
theorem sound (h : Numbers p p' f) (ht : t.Sound plain p) : t.Sound plain p' := by
  obtain ⟨vs, rfl, -, -⟩ := h
  refine ⟨fun s i hplaceholder => ?_, ht.ordinary⟩
  obtain ⟨hstem, hindex⟩ := ht.bound s i hplaceholder
  refine ⟨hstem, ?_⟩
  simp only [Params.size, List.length_append] at hindex ⊢
  omega

/-- The placeholders of the fragment are bound. -/
theorem bound (h : Numbers p p' f) {s : String} {i : Nat} (hmem : .placeholder s i ∈ f) :
    s = p'.stem ∧ i < p'.size := by
  obtain ⟨vs, rfl, -, hplaceholders⟩ := h
  have hfound : (s, i) ∈ f.placeholders := List.mem_filterMap.2 ⟨_, hmem, rfl⟩
  rw [hplaceholders] at hfound
  obtain ⟨j, hj, heq⟩ := List.mem_map.1 hfound
  obtain ⟨rfl, rfl⟩ := Prod.mk.inj heq
  refine ⟨rfl, ?_⟩
  simp only [List.mem_range'_1, Params.size, List.length_append] at hj ⊢
  exact hj.2

end Numbers

end Sql

namespace Plan

variable {plain : Prop} {p q : Plan} {c : Clause} {x : Expr} {f : Fragment}

/-- All fragments are sound, and the names that the plan adds are plain if those of the entities
are. -/
structure Sound (plain : Prop) (p : Plan) : Prop where
  naming : p.naming.check = .ok ()
  stem : p.params.stem = p.naming.parameterStem
  fragments : ∀ c f, (c, f) ∈ p.fragments → Fine (Sql.Token.Sound plain p.params) f
  aliases : plain → p.aliases.Plain
  bindings : plain → ∀ b ∈ p.bindings, Naming.isPlain b.label = true ∧ b.entity.Plain ∧
    b.fields = b.entity.fields
  keys : ∀ k ∈ p.groupingKeys, Naming.isPlain k.name = true

namespace Sound

theorem new {root : Entity} {naming : Naming} {log : CallLog} (check : naming.check = .ok ())
    (known : plain → root.Named) : (Plan.new root naming log).Sound plain := by
  obtain ⟨hstem, -⟩ := Naming.plain_of_check check
  have hlabel := Aliases.isPlain_numbered hstem 0
  refine ⟨check, rfl, ?_, ?_, ?_, by simp [Plan.new, push]⟩
  · intro c f hf
    obtain ⟨rfl, rfl⟩ := Prod.mk.inj (List.mem_singleton.1 hf)
    have covers := covers_sound plain (Params.empty naming.parameterStem)
    refine .cons (.of_ordinary rfl fun h => ?_) rfl (.space covers (.singleton ?_))
    · exact Sql.Token.isOrdinary_name (.of_isPlain (known h).table)
    · exact .of_ordinary rfl fun _ => Sql.Token.isOrdinary_name (.of_isPlain hlabel)
  · exact fun _ => .rooted hstem root
  · intro h b hb
    obtain rfl := List.mem_singleton.1 hb
    exact ⟨hlabel, (known h).toPlain, rfl⟩

/-- Translating keeps what holds of the plan, and its fragment is sound. -/
theorem translated (hp : p.Sound plain) (known : plain → ∀ E ∈ x.entities, E.Plain)
    (h : p.Translated c x f q) : q.Sound plain ∧ Fine (Sql.Token.Sound plain q.params) f := by
  obtain ⟨b, rule, rfl⟩ := h
  have numbers := rule.numbers
  have ordinary (h : plain) : Ordinary f ∧ b.aliases.Plain :=
    rule.ordinary (.of_isPlain (Naming.plain_of_check hp.naming).2.2.1) (hp.aliases h) (known h)
  refine ⟨⟨hp.naming, numbers.stem.trans hp.stem, ?_, fun h => (ordinary h).2, hp.bindings,
      hp.keys⟩,
    ?_, rule.separated⟩
  · intro d g hg
    have old := hp.fragments d g hg
    exact ⟨fun t ht => numbers.sound (old.tokens t ht), old.separated⟩
  · intro t ht
    refine ⟨?_, fun h => (ordinary h).1 t ht⟩
    rintro s i rfl
    exact numbers.bound ht

theorem push (hp : p.Sound plain) (hf : Fine (Sql.Token.Sound plain p.params) f) :
    (p.push c f).Sound plain := by
  refine ⟨hp.naming, hp.stem, ?_, hp.aliases, hp.bindings, hp.keys⟩
  intro d g hg
  rcases List.mem_append.1 hg with hold | hnew
  · exact hp.fragments d g hold
  · obtain ⟨rfl, rfl⟩ := Prod.mk.inj (List.mem_singleton.1 hnew)
    exact hf

theorem addJoin {j : Join} (hp : p.Sound plain) (known : plain → j.related.entity.Named)
    (label : plain → Naming.isPlain j.related.label = true)
    (full : j.related.fields = j.related.entity.fields)
    (hf : Fine (Sql.Token.Sound plain p.params) j.condition) : (p.addJoin j).Sound plain := by
  have covers := covers_sound plain p.params
  have word {s : String} (h : plain → Naming.isPlain s = true) :
      (Sql.Token.name s).Sound plain p.params :=
    .of_ordinary rfl fun hplain => Sql.Token.isOrdinary_name (.of_isPlain (h hplain))
  have symbol : (Sql.Token.keyword j.type.symbol).isOrdinary = true := by
    cases j.type <;> decide
  have hfragment : Fine (Sql.Token.Sound plain p.params) j.fragment := by
    refine .cons (covers _ rfl symbol) rfl (.space covers (.cons (word fun h => ?_) rfl
      (.space covers (.cons (word label) rfl (.space covers (.cons (covers _ rfl (by decide)) rfl
        (.space covers hf)))))))
    exact (known h).table
  have pushed := hp.push (c := .join) hfragment
  refine ⟨pushed.naming, pushed.stem, pushed.fragments, pushed.aliases, ?_, pushed.keys⟩
  intro h b hb
  have hbindings : (p.addJoin j).bindings = p.bindings ++ [j.related] := by
    simp [Plan.bindings, Plan.addJoin, Plan.push, rootBinding, rootAlias]
  rw [hbindings, List.mem_append, List.mem_singleton] at hb
  rcases hb with hold | rfl
  · exact hp.bindings h b hold
  · exact ⟨label h, (known h).toPlain, full⟩

theorem addGroupingKey {k : OutputKey} (hp : p.Sound plain) (hk : Naming.isPlain k.name = true)
    (hf : Fine (Sql.Token.Sound plain p.params) f) : (p.addGroupingKey k f).Sound plain := by
  have pushed := hp.push (c := .groupBy) hf
  refine ⟨pushed.naming, pushed.stem, pushed.fragments, pushed.aliases, pushed.bindings, ?_⟩
  exact List.forall_mem_append.2 ⟨hp.keys, List.forall_mem_singleton.2 hk⟩

theorem addAggregationKey {k : OutputKey} (hp : p.Sound plain) (hk : Naming.isPlain k.name = true)
    (hf : Fine (Sql.Token.Sound plain p.params) f) : (p.addAggregationKey k f).Sound plain := by
  have hname : (Sql.Token.name k.name).Sound plain p.params :=
    .of_ordinary rfl fun _ => Sql.Token.isOrdinary_name (.of_isPlain hk)
  have pushed := hp.push (c := .selectAggregate) (hf.named (covers_sound plain p.params) hname)
  exact ⟨pushed.naming, pushed.stem, pushed.fragments, pushed.aliases, pushed.bindings, pushed.keys⟩

theorem fragment_number (n : Nat) : Fine (Sql.Token.Sound plain p.params) [.number n] := by
  refine .singleton (.of_ordinary rfl fun _ => ?_)
  simp only [Sql.Token.isOrdinary, Sql.Token.text, Number.textOfNat, List.all_eq_true]
  intro c hc
  have hdigit : c.isDigit = true := Number.isDigit_of_mem_digits (by simpa using hc)
  exact isOrdinary_of_isPart (Identifier.isPart_of_isDigit hdigit)

end Sound

theorem isPlain_of_checkOutputName {name : String} (h : p.checkOutputName name = .ok ()) :
    Naming.isPlain name = true := by
  unfold checkOutputName at h
  dsimp only at h
  split at h
  · cases h
  · rename_i hcheck
    exact Identifier.isPlain_of_check hcheck

/-- Every step of a plan keeps it sound. -/
theorem Step.sound (h : Step (fun E => plain → E.Named) p q) (hp : p.Sound plain) :
    q.Sound plain := by
  have expressions {x : Expr} (known : ∀ E ∈ x.entities, plain → E.Named) (h : plain) :
      ∀ E ∈ x.entities, E.Plain := fun E hE => (known E hE h).toPlain
  cases h with
  | condition clause known reads translated =>
      obtain ⟨hq, hf⟩ := hp.translated (expressions known) translated
      exact hq.push hf
  | @order x o f q known reads translated =>
      obtain ⟨hq, hf⟩ := hp.translated (expressions known) translated
      have covers := covers_sound plain q.params
      have symbol : (Sql.Token.keyword o.symbol).isOrdinary = true := by
        cases o <;> decide
      exact hq.push (hf.spaced covers (.singleton (covers _ rfl symbol)))
  | join known fresh leftKey old rightKey new translated registered apart =>
      obtain ⟨hrelated, hkeys⟩ := List.forall_mem_cons.1 known
      obtain ⟨hq, hf⟩ := hp.translated
        (expressions (by simpa only [Expr.entities_comparison] using hkeys)) translated
      exact hq.addJoin hrelated (fun h => (hq.aliases h).lookup? registered) rfl hf
  | projection known reads translated registered =>
      obtain ⟨hq, hf⟩ := hp.translated (expressions known) translated
      have pushed := hq.push (c := .select) hf
      exact ⟨pushed.naming, pushed.stem, pushed.fragments, pushed.aliases, pushed.bindings,
        pushed.keys⟩
  | aggregationKey grouped known named reads translated =>
      obtain ⟨hq, hf⟩ := hp.translated (expressions known) translated
      exact hq.addAggregationKey (isPlain_of_checkOutputName named) hf
  | limit n | offset n => exact hp.push (Sound.fragment_number n)

theorem KeyStep.sound {key : String × Expr} (h : KeyStep (fun E => plain → E.Named) p key q)
    (hp : p.Sound plain) : q.Sound plain := by
  obtain ⟨grouped, known, named, reads, translated⟩ := h
  obtain ⟨hq, hf⟩ := hp.translated (fun h E hE => (known E hE h).toPlain) translated
  exact hq.addGroupingKey (isPlain_of_checkOutputName named) hf

theorem Built.sound {start : Plan} {keys : List (String × Expr)}
    (h : Built (fun E => plain → E.Named) start keys p) (hstart : start.Sound plain) :
    p.Sound plain := by
  refine h.induction hstart (fun _ _ old step => step.sound old) ?_
    (fun _ _ _ old step => step.sound old)
  exact fun _ old => ⟨old.naming, old.stem, old.fragments, old.aliases, old.bindings, old.keys⟩

/-- The names that a sound plan adds to its statement are sound. -/
theorem Sound.fits (hp : p.Sound plain) : p.Fits (Sql.Token.Sound plain p.params) := by
  refine ⟨hp.fragments, ?_⟩
  obtain ⟨-, hname, hcte, hgroup⟩ := Naming.plain_of_check hp.naming
  have name {s : String} (h : Naming.isPlain s = true) : (Sql.Token.name s).isOrdinary = true :=
    Sql.Token.isOrdinary_name (.of_isPlain h)
  have column {s n : String} (hs : Naming.isPlain s = true) (hn : Naming.isPlain n = true) :
      (Sql.Token.column s n).isOrdinary = true :=
    Sql.Token.isOrdinary_column (.of_isPlain hs) (.of_isPlain hn)
  have every {s : String} (hs : Naming.isPlain s = true) :
      (Sql.Token.column s "*").isOrdinary = true := by
    have hword := Sql.Token.isOrdinary_column (.of_isPlain hs) .underscore
    simp only [Sql.Token.isOrdinary, Sql.Token.text, String.toList_append, List.all_append,
      Bool.and_eq_true] at hword ⊢
    exact ⟨hword.1, by decide⟩
  refine List.forall_mem_append.2 ⟨List.forall_mem_append.2 ⟨?_, ?_⟩, ?_⟩
  · intro t ht
    obtain ⟨b, hb, ht⟩ := List.mem_flatMap.1 ht
    obtain ⟨f, hf, ht⟩ := List.mem_flatMap.1 ht
    have other : t.isPlaceholder = false := by
      simp only [List.mem_cons, List.not_mem_nil, or_false] at ht
      rcases ht with rfl | rfl <;> rfl
    refine .of_ordinary other fun h => ?_
    obtain ⟨hlabel, hentity, hfields⟩ := hp.bindings h b hb
    rw [hfields] at hf
    simp only [List.mem_cons, List.not_mem_nil, or_false] at ht
    rcases ht with rfl | rfl
    · exact column hlabel (hentity.columns f hf)
    · exact Sql.Token.isOrdinary_name (((IsWord.of_isPlain hlabel).append .underscore).append
        (.of_isPlain (hentity.names f hf)))
  · intro t ht
    obtain ⟨k, hk, ht⟩ := List.mem_flatMap.1 ht
    simp only [List.mem_cons, List.not_mem_nil, or_false] at ht
    rcases ht with rfl | rfl
    · exact .of_ordinary rfl fun _ => name (hp.keys k hk)
    · exact .of_ordinary rfl fun _ => column hgroup (hp.keys k hk)
  · intro t ht
    simp only [List.mem_cons, List.not_mem_nil, or_false] at ht
    rcases ht with rfl | rfl | rfl | rfl | rfl
    · exact .of_ordinary rfl fun _ => name hname
    · exact .of_ordinary rfl fun _ => name hcte
    · exact .of_ordinary rfl fun _ => name hgroup
    · exact .of_ordinary rfl fun _ => every hgroup
    · exact .of_ordinary rfl fun _ => every hcte

end Plan

namespace Build

variable {d : Build} {naming : Naming} {log : CallLog} {p : Plan} {s : Statement}

/-- A plan that is built is sound, whatever the calls are. -/
theorem sound_of_plan {plain : Prop} (check : naming.check = .ok ())
    (known : plain → ∀ E ∈ d.entities, E.Named) (h : d.plan naming log = .ok p) :
    p.Sound plain := by
  have built : Plan.Built (fun E => plain → E.Named) (.new d.root naming log) d.keys p :=
    built_of_plan (fun E hE hplain => known hplain E hE) h
  exact built.sound (.new check fun hplain => known hplain d.root (by simp [entities]))

/-- What a compiled statement is made of. -/
theorem fine_of_compile (check : naming.check = .ok ()) (h : d.compile naming log = .ok s) :
    s.params.stem = naming.parameterStem ∧
      Fine (Sql.Token.Sound (∀ E ∈ d.entities, E.Identified) s.params) s.sql := by
  rw [compile_eq] at h
  obtain ⟨p, hplan, hstatement⟩ := Outcome.bind_ok.1 h
  have sound : p.Sound (∀ E ∈ d.entities, E.Identified) :=
    sound_of_plan check (fun plain E hE => (plain E hE).named) hplan
  have built : Plan.Built (fun _ => True) (.new d.root naming log) d.keys p :=
    built_of_plan (fun _ _ => trivial) hplan
  obtain ⟨hsql, hparams⟩ := sound.fits.statement (covers_sound _ _) hstatement
  rw [hparams]
  exact ⟨sound.stem.trans (congrArg Naming.parameterStem built.naming), hsql⟩

/-- Whatever calls make a query, positions replace exactly the placeholders of its statement if
and only if nothing else in the text disturbs them. A stem with a character that is not ordinary
is never disturbed. -/
theorem positional_of_compile (check : naming.check = .ok ()) (h : d.compile naming log = .ok s) :
    (positional s.params s.text = .ok s.sql.positionalText ↔
      Clear naming.parameterStem.toList s.sql.glyphs) ∧
    ((∀ E ∈ d.entities, E.Identified) →
      (∃ c ∈ naming.parameterStem.toList, isOrdinary c = false) →
      positional s.params s.text = .ok s.sql.positionalText) := by
  obtain ⟨hstem, hsql⟩ := fine_of_compile check h
  have hparameter : Naming.isParameterStem s.params.stem = true := by
    rw [hstem]
    exact Naming.isParameterStem_of_check check
  have exact_iff : positional s.params s.text = .ok s.sql.positionalText ↔
      Clear naming.parameterStem.toList s.sql.glyphs := by
    rw [← hstem]
    exact positional_eq_ok_iff hparameter (fun t i ht => (hsql.tokens _ ht).bound t i rfl)
      hsql.separated
  refine ⟨exact_iff, fun plain foreign => exact_iff.2 ?_⟩
  have ordinary : Ordinary s.sql := fun t ht => (hsql.tokens t ht).ordinary plain
  exact ordinary.clear foreign

/-- A parcel is known by its number. -/
def parcel : Entity :=
  { ref := "Parcel"
    typeName := "Parcel"
    table := "parcels"
    fields := [Demo.key "id" (.integer .i64)]
    relations := [] }

/-- The parcel with number seven. -/
def oneParcel : Build :=
  ⟨parcel, [.filter (.comparison .eq (.field parcel "id") (.literal (.int 7)))], none⟩

/-- Here the last letter of every alias and its number read as a placeholder. -/
def wordStem : Naming := { parameterStem := "d" }

theorem oneParcel_identified : ∀ E ∈ oneParcel.entities, E.Identified := by
  intro E hE
  obtain rfl | rfl : E = parcel ∨ E = parcel := by
    simpa [entities, oneParcel, Query.Call.entities] using hE
  all_goals exact ⟨rfl, by decide, by decide⟩

theorem oneParcel_positional :
    ∃ s, oneParcel.compile {} [] = .ok s ∧ ({} : Naming).check = .ok () ∧
      (∀ E ∈ oneParcel.entities, E.Identified) ∧
      (∃ c ∈ ({} : Naming).parameterStem.toList, isOrdinary c = false) ∧
      positional s.params s.text = .ok s.sql.positionalText ∧
      Clear ({} : Naming).parameterStem.toList s.sql.glyphs := by
  have compiled : oneParcel.compile {} [] = .ok _ := rfl
  have foreign : ∃ c ∈ ({} : Naming).parameterStem.toList, isOrdinary c = false := ⟨'@', by decide⟩
  obtain ⟨exact_iff, always⟩ := positional_of_compile rfl compiled
  have replaced := always oneParcel_identified foreign
  exact ⟨_, compiled, rfl, oneParcel_identified, foreign, replaced, exact_iff.1 replaced⟩

/-- The aliases are rewritten beside the placeholder. -/
theorem oneParcel_disturbed :
    ∃ s, oneParcel.compile wordStem [] = .ok s ∧ wordStem.check = .ok () ∧
      (∀ E ∈ oneParcel.entities, E.Identified) ∧
      s.sql.positionalText = "SELECT Extend0.id AS Extend0_id\nFROM parcels Extend0\n" ++
        "WHERE Extend0.id = $1" ∧
      positional s.params s.text = .ok ("SELECT Exten$1.id AS Exten$1_id\n" ++
        "FROM parcels Exten$1\nWHERE Exten$1.id = $1") ∧
      positional s.params s.text ≠ .ok s.sql.positionalText := by
  have compiled : oneParcel.compile wordStem [] = .ok _ := rfl
  refine ⟨_, compiled, rfl, oneParcel_identified, by decide +kernel, ?_, ?_⟩
  · apply Outcome.eq_ok_of_toOption
    decide +kernel
  · intro h
    have htext := congrArg Except.toOption h
    revert htext
    decide +kernel

end Build

end TypedQuery
