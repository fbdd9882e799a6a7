import TypedQuery.Proofs.Plan.GroupCondition
import TypedQuery.Proofs.Plan.Outputs
import TypedQuery.Row

/-!
# The window of a statement

A statement asks for the rows behind an offset, cut to a limit. It writes both as numbers behind
their keywords and has no number anywhere else, because values stand behind placeholders. So the
window can be read off the statement, and it is that of the last limit and the last offset of the
calls.
-/

namespace TypedQuery

open TypedQuery.Sql TypedQuery.Sql.Fragment

namespace Sql

def Token.isNumber : Token → Bool
  | .number _ => true
  | _ => false

namespace Fragment

variable {f g : Fragment} {fs : List Fragment} {t : Token} {c : Clause.Separator} {word s : String}

/-- The number behind the keyword that the fragment starts with. -/
def leadingNumber? (word : String) : Fragment → Option Nat
  | .keyword w :: .space :: .number n :: _ => if w = word then some n else none
  | _ => none

/-- The first number that stands behind the keyword. -/
def numberBehind? (word : String) : Fragment → Option Nat
  | [] => none
  | t :: f => (leadingNumber? word (t :: f)).or (numberBehind? word f)

def Numberless (f : Fragment) : Prop := ∀ t ∈ f, t.isNumber = false

@[simp] theorem numberless_nil : Numberless [] := by simp [Numberless]

@[simp] theorem numberless_cons : Numberless (t :: f) ↔ t.isNumber = false ∧ Numberless f := by
  simp [Numberless]

@[simp] theorem numberless_append : Numberless (f ++ g) ↔ Numberless f ∧ Numberless g := by
  simp [Numberless, or_imp, forall_and]

theorem Numberless.parens (h : Numberless f) : Numberless (parens f) := by
  simpa [Fragment.parens, Token.isNumber] using h

theorem Numberless.around (hf : Numberless f) (ht : t.isNumber = false) (hg : Numberless g) :
    Numberless (around f t g) := by
  simpa [Fragment.around, Token.isNumber] using ⟨hf, ht, hg⟩

theorem Numberless.after (h : Numberless f) : Numberless (after word f) := by
  simpa [Fragment.after, Token.isNumber] using h

theorem Numberless.named (h : Numberless f) : Numberless (f.named s) := by
  simpa [Fragment.named, Token.isNumber] using h

theorem Numberless.joined (h : ∀ f ∈ fs, Numberless f) : Numberless (joined c fs) :=
  forall_mem_joined (by cases c <;> decide) h

theorem Numberless.lines (h : ∀ f ∈ fs, Numberless f) : Numberless (lines fs) :=
  .joined fun f hf => h f (List.mem_filter.1 hf).1

theorem Numberless.aggregateOf (a : Aggregate) (h : Numberless f) :
    Numberless (aggregateOf a f) := by
  refine numberless_cons.2 ⟨rfl, .parens ?_⟩
  split
  · exact h.after
  · exact h

theorem Numberless.conditionClause (h : ∀ f ∈ fs, Numberless f) :
    Numberless (Plan.conditionClause word fs) := by
  unfold Plan.conditionClause
  match fs with
  | [] => exact numberless_nil
  | [f] => exact (h f (by simp)).after
  | f :: g :: fs =>
      refine Numberless.after (.joined fun k hk => ?_)
      obtain ⟨m, hm, rfl⟩ := List.mem_map.1 hk
      exact (h m hm).parens

theorem numberless_written (b : Binder) (v : Value) : Numberless (b.written v) := by
  unfold Binder.written
  split <;> simp [Token.isNumber]

theorem Numberless.writtenAll (vs : List Value) (b : Binder) :
    ∀ f ∈ b.writtenAll vs, Numberless f :=
  Binder.forall_mem_writtenAll numberless_written vs b

/-- A number is no part of what comes before the keyword that it stands behind. -/
theorem leadingNumber?_append (hf : Numberless (t :: f)) (hg : ∀ t ∈ g.head?, ∃ w, t = .keyword w) :
    leadingNumber? word (t :: (f ++ g)) = none := by
  unfold leadingNumber?
  split
  · rename_i w n rest heq
    obtain ⟨-, heq⟩ := List.cons.inj heq
    match f, hf with
    | [], _ =>
        have hspace : g = .space :: .number n :: rest := heq
        obtain ⟨w, hw⟩ := hg .space (by rw [hspace]; rfl)
        cases hw
    | [u], _ =>
        have hnumber : g = .number n :: rest := (List.cons.inj heq).2
        obtain ⟨w, hw⟩ := hg (.number n) (by rw [hnumber]; rfl)
        cases hw
    | u :: v :: f, hf =>
        obtain ⟨rfl, -⟩ := List.cons.inj (List.cons.inj heq).2
        simp [Token.isNumber] at hf
  · rfl

/-- Nothing is found across the end of a fragment without numbers, if a keyword comes next. -/
theorem numberBehind?_append (hf : Numberless f) (hg : ∀ t ∈ g.head?, ∃ w, t = .keyword w) :
    numberBehind? word (f ++ g) = numberBehind? word g := by
  induction f with
  | nil => rfl
  | cons t f ih =>
      rw [List.cons_append, numberBehind?, leadingNumber?_append hf hg, Option.none_or,
        ih (numberless_cons.1 hf).2]

theorem numberBehind?_of_numberless (hf : Numberless f) : numberBehind? word f = none := by
  have h : numberBehind? word (f ++ []) = numberBehind? word [] :=
    numberBehind?_append hf (by simp)
  rwa [List.append_nil] at h

/-- The last of several fragments comes behind all others and their separators. -/
theorem joined_concat (fs : List Fragment) (g : Fragment) :
    joined c (fs ++ [g]) = fs.flatMap (· ++ separation c) ++ g := by
  induction fs with
  | nil => simp [joined_singleton]
  | cons f fs ih =>
      obtain ⟨next, rest, hcons⟩ :=
        List.exists_cons_of_ne_nil (show fs ++ [g] ≠ [] by simp)
      rw [List.cons_append, hcons, joined_cons_cons, ← hcons, ih, List.flatMap_cons]
      simp

/-- In lines without numbers but for the last one, what is found is found in the last one. -/
theorem numberBehind?_lines (hfs : ∀ f ∈ fs, Numberless f)
    (hg : g = [] ∨ g.isBlank = false ∧ ∀ t ∈ g.head?, ∃ w, t = .keyword w) :
    numberBehind? word (lines (fs ++ [g])) = numberBehind? word g := by
  rcases hg with rfl | ⟨text, head⟩
  · exact numberBehind?_of_numberless (.lines (by simpa [or_imp, forall_and] using hfs))
  · have hlines : lines (fs ++ [g]) = joined .newline (fs.filter (!·.isBlank) ++ [g]) := by
      simp [lines, text]
    rw [hlines, joined_concat]
    refine numberBehind?_append (fun t ht => ?_) head
    obtain ⟨f, hf, ht⟩ := List.mem_flatMap.1 ht
    rcases List.mem_append.1 ht with ht | ht
    · exact hfs f (List.mem_filter.1 hf).1 t ht
    · obtain rfl := List.mem_singleton.1 ht
      rfl

end Fragment

variable {c : Context} {x : Expr} {b b' : Binder} {f : Fragment}

/-- A translation writes no numbers. -/
theorem Translates.numberless (h : Translates c x b f b') : Numberless f := by
  induction h with
  | literal | constant => exact numberless_written _ _
  | column | groupedColumn | emptySet => exact numberless_cons.2 ⟨rfl, numberless_nil⟩
  | testLeft null word operand ih | testRight other null word operand ih =>
      exact numberless_append.2 ⟨ih, by simp [Token.isNumber]⟩
  | comparison order noTest left right ihl ihr => exact ihl.around rfl ihr
  | arithmetic noOrder reads left right ihl ihr => exact (ihl.around rfl ihr).parens
  | logical left right ihl ihr => exact ihl.parens.around rfl ihr.parens
  | between predicates target low high iht ihl ihh =>
      exact ((iht.around rfl ihl).around rfl ihh).parens
  | like predicates target pattern iht ihp => exact (iht.around rfl ihp).parens
  | memberOf predicates membership value nonempty target ih =>
      rw [around_nil_append]
      exact (ih.around rfl (Numberless.joined (.writtenAll _ _)).parens).parens
  | countRows => exact numberless_cons.2 ⟨rfl, .parens (numberless_cons.2 ⟨rfl, numberless_nil⟩)⟩
  | aggregate aggregates argument ih => exact ih.aggregateOf _
  | projection select nonempty registered bindings =>
      exact .joined (bindings.forall_mem fun q n s => .named (by simp [Token.isNumber]))

end Sql

namespace Plan

variable {p q : Plan} {c : Clause} {f : Fragment} {a : Action} {as : List Action}

/-- Numbers stand only in limits and offsets. -/
def Unnumbered (p : Plan) : Prop :=
  ∀ c f, (c, f) ∈ p.fragments → c = .limit ∨ c = .offset ∨ Numberless f

theorem Unnumbered.add (hp : p.Unnumbered) (hq : q.fragments = p.fragments ++ [(c, f)])
    (hf : c = .limit ∨ c = .offset ∨ Numberless f) : q.Unnumbered := by
  intro d g hg
  rw [hq] at hg
  rcases List.mem_append.1 hg with hg | hg
  · exact hp d g hg
  · obtain ⟨rfl, rfl⟩ := Prod.mk.inj (List.mem_singleton.1 hg)
    exact hf

theorem unnumbered_new (root : Entity) (naming : Naming) (log : CallLog) :
    (Plan.new root naming log).Unnumbered := by
  intro c f hf
  obtain ⟨rfl, rfl⟩ := Prod.mk.inj (List.mem_singleton.1 hf)
  exact .inr (.inr (by simp [Token.isNumber]))

theorem Takes.unnumbered (h : Takes p a q) (hp : p.Unnumbered) : q.Unnumbered := by
  cases h with
  | condition clause reads translated =>
      obtain ⟨b, htranslates, rfl⟩ := translated
      exact hp.add rfl (.inr (.inr htranslates.numberless))
  | order reads translated =>
      obtain ⟨b, htranslates, rfl⟩ := translated
      exact hp.add rfl (.inr (.inr (numberless_append.2
        ⟨htranslates.numberless, by simp [Token.isNumber]⟩)))
  | join fresh leftKey old rightKey new translated registered apart =>
      obtain ⟨b, htranslates, rfl⟩ := translated
      exact hp.add rfl (.inr (.inr (numberless_append.2
        ⟨by simp [Token.isNumber], htranslates.numberless⟩)))
  | projection constructs projected reads translated registered =>
      obtain ⟨b, htranslates, rfl⟩ := translated
      exact hp.add rfl (.inr (.inr htranslates.numberless))
  | aggregate grouped named reads translated =>
      obtain ⟨b, htranslates, rfl⟩ := translated
      exact hp.add rfl (.inr (.inr htranslates.numberless.named))
  | limit n => exact hp.add rfl (.inl rfl)
  | offset n => exact hp.add rfl (.inr (.inl rfl))

namespace Unnumbered

theorem fragmentsOf (hp : p.Unnumbered) (hc : c ≠ .limit ∧ c ≠ .offset) :
    ∀ f ∈ p.fragmentsOf c, Numberless f := by
  intro f hf
  rcases hp c f (p.mem_fragmentsOf.1 hf) with h | h | h
  · exact absurd h hc.1
  · exact absurd h hc.2
  · exact h

theorem selectClause (hp : p.Unnumbered) : Numberless p.selectClause := by
  unfold Plan.selectClause
  split
  · refine .joined fun f hf => ?_
    obtain ⟨b, -, hf⟩ := List.mem_flatMap.1 hf
    obtain ⟨field, -, rfl⟩ := List.mem_map.1 hf
    exact .named (by simp [Token.isNumber])
  · exact .joined (hp.fragmentsOf (by decide))

theorem orderClause (hp : p.Unnumbered) : Numberless p.orderClause := by
  unfold Plan.orderClause
  split
  · exact numberless_nil
  · exact .after (.joined (hp.fragmentsOf (by decide)))

theorem rowLines (hp : p.Unnumbered) : ∀ f ∈ p.rowLines, Numberless f := by
  have hselect : Numberless (after "SELECT" p.selectClause) := hp.selectClause.after
  have hfrom : Numberless p.fromClause := .after (.joined (hp.fragmentsOf (by decide)))
  have hjoin : Numberless p.joinClause := .joined (hp.fragmentsOf (by decide))
  have hwhere : Numberless p.whereClause := .conditionClause (hp.fragmentsOf (by decide))
  simpa [Plan.rowLines] using ⟨hselect, hfrom, hjoin, hwhere⟩

end Unnumbered

end Plan

/-- Which of the rows of a statement are asked for. -/
structure Window where
  limit : Option Nat
  offset : Option Nat

namespace Window

/-- The rows left after the offset, cut to the limit. -/
def rows (w : Window) (all : List Row) : List Row :=
  let behind := all.drop (w.offset.getD 0)
  match w.limit with
  | none => behind
  | some n => behind.take n

/-- The first of the rows is the first one behind the offset, unless none is asked for. -/
theorem take_one_rows (w : Window) (all : List Row)
    (some : w.limit = some 0 → all.length ≤ w.offset.getD 0) :
    (w.rows all).take 1 = (all.drop (w.offset.getD 0)).take 1 := by
  unfold rows
  match hlimit : w.limit with
  | none => rfl
  | .some 0 => simp [List.drop_eq_nil_of_le (some hlimit)]
  | .some (n + 1) => simp [List.take_take]

/-- The end of a statement that asks for the window. -/
def clause (w : Window) : Fragment :=
  joined .newline ((w.limit.map fun n => after "LIMIT" [.number n]).toList ++
    (w.offset.map fun n => after "OFFSET" [.number n]).toList)

variable (w : Window)

theorem numberBehind?_clause : w.clause.numberBehind? "LIMIT" = w.limit ∧
    w.clause.numberBehind? "OFFSET" = w.offset := by
  obtain ⟨_ | m, _ | n⟩ := w <;> exact ⟨rfl, rfl⟩

theorem clause_cases : w.clause = [] ∨
    w.clause.isBlank = false ∧ ∀ t ∈ w.clause.head?, ∃ word, t = .keyword word := by
  have leading (word : String) (f : Fragment) (hword : word ≠ "")
      (hw : w.clause = after word f) :
      w.clause.isBlank = false ∧ ∀ t ∈ w.clause.head?, ∃ word, t = .keyword word := by
    rw [hw]
    refine ⟨isBlank_after hword f, fun t ht => ⟨word, ?_⟩⟩
    exact (Option.some.inj ht).symm
  obtain ⟨_ | m, _ | n⟩ := w
  · exact .inl rfl
  · exact .inr (leading "OFFSET" _ (by decide) rfl)
  · exact .inr (leading "LIMIT" _ (by decide) rfl)
  · exact .inr (leading "LIMIT" _ (by decide) rfl)

end Window

/-- The window that a statement asks for, as it is written. -/
def Statement.window (s : Statement) : Window :=
  ⟨s.sql.numberBehind? "LIMIT", s.sql.numberBehind? "OFFSET"⟩

namespace Query

variable {q q' : Query} {k : Call} {calls : List Call} {c : Clause} {s : Statement}

/-- The number that a call gives to a clause. -/
def Call.number? (c : Clause) : Call → Option Nat
  | .limit n => if c = .limit then some n else none
  | .offset n => if c = .offset then some n else none
  | _ => none

/-- The window that calls ask for: the last limit and the last offset count. -/
def windowOf (calls : List Call) : Window :=
  ⟨(calls.filterMap (Call.number? .limit)).getLast?,
    (calls.filterMap (Call.number? .offset)).getLast?⟩

theorem fragmentsOf_of_call (h : q.call k = .ok q') (hc : c = .limit ∨ c = .offset) :
    q'.plan.fragmentsOf c =
      q.plan.fragmentsOf c ++ (k.number? c).toList.map fun n => [.number n] := by
  have other (hclause : k.action.clause ≠ c) (hnumber : k.number? c = none) :
      q'.plan.fragmentsOf c =
        q.plan.fragmentsOf c ++ (k.number? c).toList.map fun n => [.number n] := by
    rw [(takes_of_call h).1.fragmentsOf_of_ne hclause, hnumber]
    simp
  cases k with
  | limit n =>
      obtain rfl := Except.ok.inj h
      rcases hc with rfl | rfl
      · exact Plan.fragmentsOf_push_self _ _ _
      · exact other (by simp [Call.action, Plan.Action.clause]) rfl
  | offset n =>
      obtain rfl := Except.ok.inj h
      rcases hc with rfl | rfl
      · exact other (by simp [Call.action, Plan.Action.clause]) rfl
      · exact Plan.fragmentsOf_push_self _ _ _
  | filter x | join type related l r | orderBy x o | select target x =>
      exact other (by rcases hc with rfl | rfl <;> simp [Call.action, Plan.Action.clause]) rfl

theorem fragmentsOf_of_calls (h : calls.foldlM call q = .ok q') (hc : c = .limit ∨ c = .offset) :
    q'.plan.fragmentsOf c =
      q.plan.fragmentsOf c ++ (calls.filterMap (Call.number? c)).map fun n => [.number n] := by
  induction calls generalizing q with
  | nil =>
      obtain rfl := Except.ok.inj h
      simp
  | cons first rest ih =>
      rw [List.foldlM_cons] at h
      obtain ⟨middle, hcall, hrest⟩ := Outcome.bind_ok.1 h
      rw [ih hrest, fragmentsOf_of_call hcall hc, List.append_assoc, ← List.map_append,
        List.filterMap_cons]
      cases Call.number? c first <;> rfl

variable {root : Entity} {naming : Naming} {log : CallLog}

theorem limitClause_of_calls (h : calls.foldlM call (.new root naming log) = .ok q) :
    q.plan.limitClause = (windowOf calls).clause := by
  have numbers {c : Clause} (hc : c = .limit ∨ c = .offset) : q.plan.fragmentsOf c =
      (calls.filterMap (Call.number? c)).map fun n => [.number n] := by
    rw [fragmentsOf_of_calls h hc]
    rcases hc with rfl | rfl <;> rfl
  rw [Plan.limitClause, numbers (.inl rfl), numbers (.inr rfl), List.getLast?_map,
    List.getLast?_map, Option.map_map, Option.map_map]
  rfl

theorem grouped_of_calls (h : calls.foldlM call (.new root naming log) = .ok q) :
    q.plan.grouped = false :=
  ((runs_of_calls h).steps fun _ _ _ _ => trivial).grouped

/-- The statement of a query asks for the window that its calls ask for. -/
theorem window_of_calls (h : calls.foldlM call (.new root naming log) = .ok q)
    (compiles : q.compile = .ok s) : s.window = windowOf calls := by
  have unnumbered : q.plan.Unnumbered :=
    (runs_of_calls h).induction (Plan.unnumbered_new root naming log)
      fun _ _ _ _ hp taken => taken.unnumbered hp
  have before : ∀ f ∈ q.plan.rowLines ++ [q.plan.orderClause], Numberless f :=
    List.forall_mem_append.2 ⟨unnumbered.rowLines, by simpa using unnumbered.orderClause⟩
  have hsql : s.sql =
      lines (q.plan.rowLines ++ [q.plan.orderClause] ++ [(windowOf calls).clause]) := by
    rw [Plan.statement_ok compiles, Plan.sql_finish, Plan.sql,
      if_neg (by simp [grouped_of_calls h]), Plan.ungroupedSql, limitClause_of_calls h,
      List.append_assoc]
    rfl
  have behind (word : String) : s.sql.numberBehind? word =
      (windowOf calls).clause.numberBehind? word := by
    rw [hsql, numberBehind?_lines before (windowOf calls).clause_cases]
  obtain ⟨hlimit, hoffset⟩ := (windowOf calls).numberBehind?_clause
  rw [Statement.window, behind, behind, hlimit, hoffset]

end Query

end TypedQuery
