import TypedQuery.Proofs.Materialize.Result
import TypedQuery.Proofs.Text.Alike

/-!
# The columns that are read

Reading rows back asks for the columns of keys and fields, under names that are put together anew
from aliases and descriptors, and reads each as a value of a kind. Rows that give the same there
are read alike, and rows that agree on the columns do. A row whose columns the database spells in
another case answers each of them, as long as their names are apart.
-/

namespace TypedQuery

namespace Row

/-- The rows give the same values under the names. -/
def AgreeOn (names : List String) (r r' : Row) : Prop := ∀ c ∈ names, r.get? c = r'.get? c

/-- The rows give the same, values or failures, when the columns are read as values of the kinds. -/
def ReadAlike (reads : List (String × Option Kind)) (r r' : Row) : Prop :=
  ∀ c ∈ reads, r.read c.1 c.2 = r'.read c.1 c.2

variable {r r' : Row} {names : List String} {c : String} {v : Value}

theorem AgreeOn.mono (h : r.AgreeOn names r') {others : List String} (subset : others ⊆ names) :
    r.AgreeOn others r' :=
  fun c hc => h c (subset hc)

theorem AgreeOn.readAlike {reads : List (String × Option Kind)}
    (h : r.AgreeOn (reads.map Prod.fst) r') : r.ReadAlike reads r' := by
  intro c hc
  rw [Row.read, Row.read, h c.1 (List.mem_map_of_mem hc)]

theorem ReadAlike.mono {reads others : List (String × Option Kind)} (h : r.ReadAlike reads r')
    (subset : others ⊆ reads) : r.ReadAlike others r' :=
  fun c hc => h c (subset hc)

theorem put_of_notMem {columns : List (String × Value)} (h : c ∉ columns.map Prod.fst) :
    put c v columns = columns ++ [(c, v)] := by
  induction columns with
  | nil => rfl
  | cons entry rest ih =>
      obtain ⟨n, w⟩ := entry
      have hne : n ≠ c := fun heq => h (by simp [heq])
      have hrest : c ∉ rest.map Prod.fst := fun hmem => h (List.mem_cons_of_mem _ hmem)
      rw [put, if_neg hne, ih hrest, List.cons_append]

theorem columns_foldl_insert {columns : List (String × Value)} (r : Row)
    (h : ((r.columns ++ columns).map Prod.fst).Nodup) :
    (columns.foldl (fun (r : Row) (name, v) => r.insert name v) r).columns =
      r.columns ++ columns := by
  induction columns generalizing r with
  | nil => rw [List.foldl_nil, List.append_nil]
  | cons entry rest ih =>
      obtain ⟨n, v⟩ := entry
      have fresh : n ∉ r.columns.map Prod.fst := by
        intro hmem
        rw [List.map_append, List.nodup_append] at h
        exact h.2.2 n hmem n List.mem_cons_self rfl
      have inserted : (r.insert n v).columns = r.columns ++ [(n, v)] := put_of_notMem fresh
      rw [List.foldl_cons, ih _ (by simpa [inserted] using h), inserted, List.append_assoc]
      rfl

/-- Columns with different names stay as they are given. -/
theorem columns_ofList {columns : List (String × Value)} (h : (columns.map Prod.fst).Nodup) :
    (ofList columns).columns = columns :=
  columns_foldl_insert empty h

/-- The value of the only column whose name is alike. -/
theorem get?_of_alike (given : ∃ entry ∈ r.columns, Text.alike entry.1 c = true)
    (only : ∀ entry ∈ r.columns, Text.alike entry.1 c = true → entry.2 = v) :
    r.get? c = some v := by
  rw [get?]
  cases hexact : r.columns.find? (·.1 == c) with
  | some entry =>
      have hname : entry.1 = c := by simpa using List.find?_some hexact
      have hvalue := only entry (List.mem_of_find?_eq_some hexact) (by simp [hname, Text.alike])
      simp [hvalue]
  | none =>
      obtain ⟨entry, hentry⟩ : ∃ entry, r.columns.find? (Text.alike ·.1 c) = some entry := by
        rw [← Option.isSome_iff_exists, List.find?_isSome]
        exact given
      have halike : Text.alike entry.1 c = true := by simpa using List.find?_some hentry
      simp [hentry, only entry (List.mem_of_find?_eq_some hentry) halike]

/-- A row with a value for each name, which the database has spelled its own way. -/
def spelled (spell : String → String) (names : List String) (value : String → Value) : Row :=
  .ofList (names.map fun c => (spell c, value c))

/-- However names that are apart are spelled, each has its own value. -/
theorem get?_spelled {spell : String → String} {value : String → Value}
    (alike : ∀ c, Text.alike (spell c) c = true) (apart : Apart names) (hc : c ∈ names) :
    (spelled spell names value).get? c = some (value c) := by
  have same {s t : String} (h : Text.alike (spell s) t = true) : Text.alike s t = true := by
    rw [Text.alike_iff] at h ⊢
    rw [← h, ← Text.alike_iff, Text.alike_comm]
    exact alike s
  have hnodup : ((names.map fun c => (spell c, value c)).map Prod.fst).Nodup := by
    rw [List.map_map]
    refine List.pairwise_map.2 (apart.imp fun {s t} differ heq => ?_)
    have heq : spell s = spell t := heq
    have halike : Text.alike s t = true := same (heq ▸ alike t)
    simp [differ] at halike
  have hcolumns : (spelled spell names value).columns = names.map fun c => (spell c, value c) :=
    columns_ofList hnodup
  refine get?_of_alike ⟨(spell c, value c), ?_, alike c⟩ fun entry hentry halike => ?_
  · rw [hcolumns]
    exact List.mem_map_of_mem hc
  · rw [hcolumns] at hentry
    obtain ⟨s, hs, rfl⟩ := List.mem_map.1 hentry
    rw [apart.eq_of_alike hs hc (same halike)]

/-- Rows of the same values agree, however their names are spelled. -/
theorem agreeOn_spelled {spell : String → String} {value : String → Value}
    (alike : ∀ c, Text.alike (spell c) c = true) (apart : Apart names) :
    (spelled spell names value).AgreeOn names (spelled id names value) := by
  intro c hc
  rw [get?_spelled alike apart hc, get?_spelled (fun c => by simp [Text.alike]) apart hc]

end Row

namespace Binding

variable {b : Binding} {defaultKey : String} {r r' : Row}

/-- The columns of the key and of the selected fields. -/
def asked (b : Binding) (defaultKey : String) : List String :=
  ((b.entity.keyField? defaultKey).map fun f => b.column f.name).toList ++ b.columns

/-- The columns of the selected fields with their kinds. -/
def reads (b : Binding) : List (String × Option Kind) :=
  b.fields.map fun f => (b.column f.name, some f.kind)

/-- The columns of the key and of the selected fields with their kinds. -/
def readsWithKey (b : Binding) (defaultKey : String) : List (String × Option Kind) :=
  ((b.entity.keyField? defaultKey).map fun f => (b.column f.name, some f.kind)).toList ++ b.reads

theorem map_fst_reads (b : Binding) : b.reads.map Prod.fst = b.columns := by
  rw [reads, List.map_map]
  rfl

theorem map_fst_readsWithKey (b : Binding) (defaultKey : String) :
    (b.readsWithKey defaultKey).map Prod.fst = b.asked defaultKey := by
  rw [readsWithKey, List.map_append, map_fst_reads, asked]
  cases b.entity.keyField? defaultKey <;> rfl

theorem readNode_congr (h : r.ReadAlike b.reads r') : b.readNode r = b.readNode r' := by
  refine Outcome.foldlM_congr (fun f hf n => ?_) _
  rw [h (b.column f.name, some f.kind) (List.mem_map_of_mem hf)]

theorem readKey_congr (h : r.ReadAlike (b.readsWithKey defaultKey) r') :
    b.readKey defaultKey r = b.readKey defaultKey r' := by
  unfold readKey keyColumn
  cases hkey : b.entity.keyField? defaultKey with
  | none => rfl
  | some f => exact h (b.column f.name, some f.kind) (by simp [readsWithKey, hkey])

end Binding

namespace Shape

/-- The columns of the root and the joined entities that are asked for. -/
def askedOfEntities (s : Shape) : List String := s.bindings.flatMap (·.asked s.defaultKeyField)

/-- The columns that are asked for when rows are not grouped. -/
def asked (s : Shape) : List String :=
  match s.projection with
  | some b => b.columns
  | none => s.askedOfEntities

/-- The columns that are asked for when rows are grouped. -/
def askedOfGroups (s : Shape) : List String := s.outputKeys.map OutputKey.name ++ s.askedOfEntities

/-- What is read of the root and the joined entities. -/
def readsOfEntities (s : Shape) : List (String × Option Kind) :=
  s.bindings.flatMap (·.readsWithKey s.defaultKeyField)

/-- What is read when rows are not grouped. -/
def reads (s : Shape) : List (String × Option Kind) :=
  match s.projection with
  | some b => b.reads
  | none => s.readsOfEntities

/-- What is read when rows are grouped. -/
def readsOfGroups (s : Shape) : List (String × Option Kind) :=
  s.outputKeys.map (fun k => (k.name, k.kind)) ++ s.readsOfEntities

theorem map_fst_readsOfEntities (s : Shape) :
    s.readsOfEntities.map Prod.fst = s.askedOfEntities := by
  rw [readsOfEntities, List.map_flatMap, askedOfEntities]
  exact List.flatMap_congr fun b _ => b.map_fst_readsWithKey _

theorem map_fst_reads (s : Shape) : s.reads.map Prod.fst = s.asked := by
  rw [reads, asked]
  cases s.projection with
  | none => exact s.map_fst_readsOfEntities
  | some b => exact b.map_fst_reads

theorem map_fst_readsOfGroups (s : Shape) : s.readsOfGroups.map Prod.fst = s.askedOfGroups := by
  rw [readsOfGroups, List.map_append, List.map_map, map_fst_readsOfEntities]
  rfl

end Shape

namespace Materializer

open Outcome

variable {m : Materializer} {r r' : Row} {g : Graph} {rows rows' : List Row}

/-- Joins are placed if each starts at an entity before it. -/
theorem exists_placeJoins {earlier : List Binding} {js : List Join}
    (h : ∀ before j behind, js = before ++ j :: behind →
      ∃ b ∈ earlier ++ before.map Join.related, b.entity.same j.left = true) :
    ∃ ps, placeJoins earlier js = .ok ps := by
  induction js generalizing earlier with
  | nil => exact ⟨[], rfl⟩
  | cons j js ih =>
      obtain ⟨b, hb, hsame⟩ := h [] j js rfl
      obtain ⟨parent, hparent⟩ : ∃ parent, place? earlier j.left = some parent := by
        rw [← Option.isSome_iff_exists, place?, List.findIdx?_isSome, List.any_eq_true]
        exact ⟨b, by simpa using hb, hsame⟩
      have later : ∀ before k behind, js = before ++ k :: behind →
          ∃ b ∈ earlier ++ [j.related] ++ before.map Join.related, b.entity.same k.left = true := by
        intro before k behind hjs
        simpa using h (j :: before) k behind (by rw [hjs, List.cons_append])
      obtain ⟨rest, hrest⟩ := ih later
      refine ⟨⟨j, parent, j.left.relationTo? j.related.entity⟩ :: rest, ?_⟩
      rw [placeJoins, hparent]
      exact bind_ok.2 ⟨rest, hrest, rfl⟩

variable (m) in
/-- The placed joins are joins of the shape. -/
def Own : Prop := ∀ p ∈ m.joins, p.join.related ∈ m.shape.bindings

theorem own_of_ofShape {s : Shape} (h : ofShape s = .ok m) : m.Own := by
  obtain ⟨rfl, hjoins, -⟩ := ofShape_ok h
  intro p hp
  rw [Shape.bindings, ← hjoins]
  exact List.mem_cons_of_mem _ (List.mem_map_of_mem (List.mem_map_of_mem hp))

section

variable (own : m.Own) (alike : r.ReadAlike m.shape.readsOfEntities r')

include alike

theorem readAlike_binding {b : Binding} (hb : b ∈ m.shape.bindings) :
    r.ReadAlike (b.readsWithKey m.shape.defaultKeyField) r' :=
  alike.mono fun _ hc => List.mem_flatMap.2 ⟨b, hb, hc⟩

theorem readKey_of_alike {b : Binding} (hb : b ∈ m.shape.bindings) :
    b.readKey m.shape.defaultKeyField r = b.readKey m.shape.defaultKeyField r' :=
  Binding.readKey_congr (readAlike_binding alike hb)

theorem readNode_of_alike {b : Binding} (hb : b ∈ m.shape.bindings) :
    b.readNode r = b.readNode r' :=
  Binding.readNode_congr ((readAlike_binding alike hb).mono (List.subset_append_right _ _))

theorem absorbRoot_congr : m.absorbRoot g r = m.absorbRoot g r' := by
  have root : m.shape.root ∈ m.shape.bindings := List.mem_cons_self
  unfold absorbRoot
  dsimp only
  rw [readKey_of_alike alike root, readNode_of_alike alike root]

theorem absorbJoin_congr {index : Nat} {p : PlacedJoin} {resolved : List (Option Nat)}
    (hp : p.join.related ∈ m.shape.bindings) :
    m.absorbJoin g r index p resolved = m.absorbJoin g r' index p resolved := by
  unfold absorbJoin
  rw [readKey_of_alike alike hp, readNode_of_alike alike hp]

theorem absorbJoins_congr {ps : List PlacedJoin} {index : Nat} {resolved : List (Option Nat)}
    (hps : ∀ p ∈ ps, p.join.related ∈ m.shape.bindings) :
    m.absorbJoins r g index resolved ps = m.absorbJoins r' g index resolved ps := by
  induction ps generalizing g index resolved with
  | nil => rfl
  | cons p ps ih =>
      obtain ⟨hp, hrest⟩ := List.forall_mem_cons.1 hps
      rw [absorbJoins, absorbJoins, absorbJoin_congr alike hp]
      exact congrArg _ (funext fun taken => ih hrest)

include own

theorem absorb_congr : m.absorb g r = m.absorb g r' := by
  unfold absorb
  rw [absorbRoot_congr alike]
  exact congrArg _ (funext fun taken => absorbJoins_congr alike own)

end

theorem foldlM_of_forall₂ {β : Type} {R : Row → Row → Prop} {f : β → Row → Except QueryError β}
    (same : ∀ b r r', R r r' → f b r = f b r') (alike : List.Forall₂ R rows rows') (b : β) :
    rows.foldlM f b = rows'.foldlM f b := by
  induction alike generalizing b with
  | nil => rfl
  | cons first rest ih =>
      rw [List.foldlM_cons, List.foldlM_cons, same b _ _ first]
      exact congrArg _ (funext fun b => ih b)

theorem mapM_of_forall₂ {β : Type} {R : Row → Row → Prop} {f : Row → Except QueryError β}
    (same : ∀ r r', R r r' → f r = f r') (alike : List.Forall₂ R rows rows') :
    rows.mapM f = rows'.mapM f := by
  induction alike with
  | nil => rfl
  | cons first rest ih => rw [List.mapM_cons, List.mapM_cons, same _ _ first, ih]

/-- Rows that give the same where they are read have the same result. -/
theorem materialize_of_readAlike {s : Shape} (shape : ofShape s = .ok m)
    (alike : List.Forall₂ (Row.ReadAlike s.reads) rows rows') :
    m.materialize rows = m.materialize rows' := by
  have own := own_of_ofShape shape
  obtain ⟨rfl, -, -⟩ := ofShape_ok shape
  unfold materialize buildsGraphs
  cases hprojection : m.shape.projection with
  | some b =>
      rw [Shape.reads, hprojection] at alike
      exact mapM_of_forall₂ (fun r r' => Binding.readNode_congr) alike
  | none =>
      have hreads : m.shape.reads = m.shape.readsOfEntities := by
        rw [Shape.reads, hprojection]
      rw [hreads] at alike
      have root : m.shape.root ∈ m.shape.bindings := List.mem_cons_self
      have taken (g : Graph) (r r' : Row) (h : r.ReadAlike m.shape.readsOfEntities r') :
          m.absorb g r = m.absorb g r' := absorb_congr own h
      have all (g : Graph) : m.absorbAll g rows = m.absorbAll g rows' :=
        foldlM_of_forall₂ taken alike g
      have node (r r' : Row) (h : r.ReadAlike m.shape.readsOfEntities r') :
          m.shape.root.readNode r = m.shape.root.readNode r' := readNode_of_alike h root
      have each := mapM_of_forall₂ node alike
      simp only [all, Option.getD_none, each]

/-- So have rows of groups. -/
theorem materializeGroups_of_readAlike {s : Shape} (shape : ofShape s = .ok m)
    (alike : List.Forall₂ (Row.ReadAlike s.readsOfGroups) rows rows') :
    m.materializeGroups rows = m.materializeGroups rows' := by
  have own := own_of_ofShape shape
  obtain ⟨rfl, -, -⟩ := ofShape_ok shape
  have key (r r' : Row) (h : r.ReadAlike m.shape.readsOfGroups r') :
      m.groupKey r = m.groupKey r' := by
    have values : m.shape.outputKeys.mapM (fun k => r.read k.name k.kind) =
        m.shape.outputKeys.mapM fun k => r'.read k.name k.kind :=
      mapM_congr fun k hk => h (k.name, k.kind) (List.mem_append_left _ (List.mem_map_of_mem hk))
    rw [groupKey, groupKey, values]
  have grouped (groups : List (GroupKey × Graph)) (r r' : Row)
      (h : r.ReadAlike m.shape.readsOfGroups r') :
      m.absorbGrouped groups r = m.absorbGrouped groups r' := by
    unfold absorbGrouped
    rw [key r r' h]
    refine congrArg _ (funext fun key => ?_)
    rw [absorb_congr own (h.mono (List.subset_append_right _ _))]
  unfold materializeGroups
  rw [foldlM_of_forall₂ grouped alike]

/-- Rows that agree on what is asked for are read alike. -/
theorem materialize_congr {s : Shape} (shape : ofShape s = .ok m)
    (agree : List.Forall₂ (Row.AgreeOn s.asked) rows rows') :
    m.materialize rows = m.materialize rows' := by
  rw [← s.map_fst_reads] at agree
  exact materialize_of_readAlike shape (agree.imp fun _ _ h => h.readAlike)

/-- So are rows of groups. -/
theorem materializeGroups_congr {s : Shape} (shape : ofShape s = .ok m)
    (agree : List.Forall₂ (Row.AgreeOn s.askedOfGroups) rows rows') :
    m.materializeGroups rows = m.materializeGroups rows' := by
  rw [← s.map_fst_readsOfGroups] at agree
  exact materializeGroups_of_readAlike shape (agree.imp fun _ _ h => h.readAlike)

end Materializer

end TypedQuery
