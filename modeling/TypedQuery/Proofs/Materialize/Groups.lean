import Mathlib.Data.List.Forall2
import Mathlib.Data.List.Induction
import Mathlib.Data.List.Pairwise
import TypedQuery.Demo
import TypedQuery.Proofs.Materialize.Step

/-!
# Grouped results are a partition

The rows of a grouped query are divided by their group keys, groups in first-seen order and the
rows of a group in the order in which they came. Rebuilding the groups together is rebuilding
every group from its own rows: the graphs of different groups do not touch.

Groups are looked up by digests and told apart by equality of keys. Where equal keys have one digest
this is the partition by equality. Equal keys with two digests are two groups of one key.
-/

namespace TypedQuery

namespace GroupKey

variable {β : Type}

/-- Puts an entry into a map, in place of one with the same key. -/
def put (key : GroupKey) (x : β) : List (GroupKey × β) → List (GroupKey × β)
  | [] => [(key, x)]
  | (k, y) :: rest => if k.same key then (key, x) :: rest else (k, y) :: put key x rest

/-- The map of some entries, which are put in one after the other. -/
def collect (entries : List (GroupKey × β)) : List (GroupKey × β) :=
  entries.foldl (fun map entry => put entry.1 entry.2 map) []

theorem put_of_new {key : GroupKey} {map : List (GroupKey × β)} (x : β)
    (h : ∀ entry ∈ map, entry.1.same key = false) : put key x map = map ++ [(key, x)] := by
  induction map with
  | nil => rfl
  | cons entry map ih =>
      obtain ⟨hentry, hmap⟩ := List.forall_mem_cons.1 h
      rw [put, if_neg (by simp [hentry]), ih hmap, List.cons_append]

/-- A map of entries whose keys all differ has all of them. -/
theorem collect_of_pairwise {entries : List (GroupKey × β)}
    (h : entries.Pairwise fun a b => a.1.same b.1 = false) : collect entries = entries := by
  induction entries using List.reverseRecOn with
  | nil => rfl
  | append_singleton entries entry ih =>
      obtain ⟨hentries, -, hlast⟩ := List.pairwise_append.1 h
      have hmap := ih hentries
      rw [collect] at hmap
      rw [collect, List.foldl_append, hmap]
      exact put_of_new entry.2 fun other hother => hlast other hother entry (by simp)

end GroupKey

namespace Materializer

open Outcome

variable {m : Materializer} {r : Row} {rows : List Row}

variable (m) in
/-- The row holds a value for each of the columns that make up the key of its group. -/
def HasGroup (r : Row) : Prop :=
  ∀ k ∈ m.shape.outputKeys, (r.valueAs? k.name k.kind).isSome = true

variable (m) in
/-- The values of a row that make up the key of its group. -/
def groupKeyAt (r : Row) : GroupKey :=
  ⟨m.shape.outputKeys.map fun k => (r.valueAs? k.name k.kind).getD .null⟩

section

variable (m) (same : GroupKey → GroupKey → Bool)

/-- Do the rows belong to one group? -/
def sameGroupRow (a b : Row) : Bool := same (m.groupKeyAt a) (m.groupKeyAt b)

/-- The rows group by group: the first row of each and the others. -/
def partition (rows : List Row) : List (Row × List Row) := classes (m.sameGroupRow same) rows

end

variable (m) in
/-- The rows that have a group key. -/
def rowsOf (key : GroupKey) (rows : List Row) : List Row :=
  rows.filter fun r => key.same (m.groupKeyAt r)

variable (m) in
/-- The graph that the rows of a group have become, under their key. -/
def Absorbed (c : Row × List Row) (entry : GroupKey × Graph) : Prop :=
  m.groupKey c.1 = .ok entry.1 ∧ m.absorbAll .empty (c.1 :: c.2) = .ok entry.2

/-- A group key is read when the row holds one. -/
theorem groupKey_ok_iff {key : GroupKey} :
    m.groupKey r = .ok key ↔ m.HasGroup r ∧ key = m.groupKeyAt r := by
  rw [groupKey, bind_ok]
  simp only [mapM_ok_iff, Row.read_ok_iff, forall₂_some_iff Value.null]
  constructor
  · rintro ⟨vs, ⟨hkeys, rfl⟩, h⟩
    exact ⟨hkeys, (Except.ok.inj h).symm⟩
  · rintro ⟨hkeys, rfl⟩
    exact ⟨_, ⟨hkeys, rfl⟩, rfl⟩

theorem exists_groupKey_iff : (∃ key, m.groupKey r = .ok key) ↔ m.HasGroup r := by
  simp [groupKey_ok_iff]

theorem groupKeyAt_of_ok {key : GroupKey} (h : m.groupKey r = .ok key) : m.groupKeyAt r = key :=
  (groupKey_ok_iff.1 h).2.symm

theorem absorbAll_concat (g : Graph) (rows : List Row) (r : Row) :
    m.absorbAll g (rows ++ [r]) = (m.absorbAll g rows >>= fun h => m.absorb h r) := by
  rw [absorbAll, List.foldlM_append]
  congr 1
  funext h
  rw [List.foldlM_cons]
  exact bind_pure _

theorem absorbAll_singleton (g : Graph) (r : Row) : m.absorbAll g [r] = m.absorb g r :=
  bind_pure _

/-- A group has become one entry only. -/
theorem absorbed_unique : Relator.RightUnique m.Absorbed := by
  rintro c ⟨k, g⟩ ⟨k', g'⟩ ⟨hk, hg⟩ ⟨hk', hg'⟩
  obtain rfl : k = k' := Except.ok.inj (hk.symm.trans hk')
  obtain rfl : g = g' := Except.ok.inj (hg.symm.trans hg')
  rfl

theorem absorbed_concat_iff {c : Row × List Row} {key : GroupKey} {g : Graph}
    (h : m.Absorbed c (key, g)) (entry : GroupKey × Graph) :
    m.Absorbed (c.1, c.2 ++ [r]) entry ↔ entry.1 = key ∧ m.absorb g r = .ok entry.2 := by
  have hrows : m.absorbAll .empty (c.1 :: (c.2 ++ [r])) = m.absorb g r := by
    rw [← List.cons_append, absorbAll_concat, h.2]
    rfl
  rw [Absorbed, hrows, h.1, Except.ok.injEq, eq_comm (a := key)]

/-- A row goes into the graph of its group and leaves the others as they are. -/
theorem absorbed_addTo_iff {cs : List (Row × List Row)} {groups groups' : List (GroupKey × Graph)}
    {key : GroupKey} (hkey : m.groupKey r = .ok key) (absorbed : List.Forall₂ m.Absorbed cs groups) :
    List.Forall₂ m.Absorbed (addTo (m.sameGroupRow GroupKey.sameGroup) r cs) groups' ↔
      ∃ g, m.absorb (graphOf groups key) r = .ok g ∧ groups' = putGraph key g groups := by
  induction absorbed generalizing groups' with
  | nil =>
      have hfirst (entry : GroupKey × Graph) :
          m.Absorbed (r, []) entry ↔ entry.1 = key ∧ m.absorb .empty r = .ok entry.2 := by
        rw [Absorbed, hkey, absorbAll_singleton, Except.ok.injEq, eq_comm (a := key)]
      rw [addTo, List.forall₂_cons_left_iff]
      constructor
      · rintro ⟨⟨k, g⟩, others, hentry, hothers, rfl⟩
        obtain ⟨rfl, hg⟩ := (hfirst _).1 hentry
        obtain rfl := List.forall₂_nil_left_iff.1 hothers
        exact ⟨g, hg, rfl⟩
      · rintro ⟨g, hg, rfl⟩
        exact ⟨(key, g), [], (hfirst _).2 ⟨rfl, hg⟩, .nil, rfl⟩
  | @cons c entry cs groups first absorbed ih =>
      obtain ⟨k, h⟩ := entry
      have hsame : m.sameGroupRow GroupKey.sameGroup c.1 r = k.sameGroup key := by
        rw [sameGroupRow, groupKeyAt_of_ok first.1, groupKeyAt_of_ok hkey]
      rw [addTo, hsame]
      cases hmatch : k.sameGroup key with
      | true =>
          have hgraph : graphOf ((k, h) :: groups) key = h := by simp [graphOf, hmatch]
          rw [if_pos rfl, List.forall₂_cons_left_iff, hgraph]
          constructor
          · rintro ⟨⟨k', g⟩, others, hentry, hothers, rfl⟩
            obtain ⟨rfl, hg⟩ := (absorbed_concat_iff first _).1 hentry
            obtain rfl := List.right_unique_forall₂' absorbed_unique hothers absorbed
            exact ⟨g, hg, by rw [putGraph, if_pos hmatch]⟩
          · rintro ⟨g, hg, rfl⟩
            rw [putGraph, if_pos hmatch]
            exact ⟨(k, g), groups, (absorbed_concat_iff first _).2 ⟨rfl, hg⟩, absorbed, rfl⟩
      | false =>
          have hgraph : graphOf ((k, h) :: groups) key = graphOf groups key := by
            simp [graphOf, hmatch]
          rw [if_neg (by simp), List.forall₂_cons_left_iff, hgraph]
          constructor
          · rintro ⟨entry, others, hentry, hothers, rfl⟩
            obtain rfl := absorbed_unique first hentry
            obtain ⟨g, hg, rfl⟩ := ih.1 hothers
            exact ⟨g, hg, by rw [putGraph, if_neg (by simp [hmatch])]⟩
          · rintro ⟨g, hg, rfl⟩
            rw [putGraph, if_neg (by simp [hmatch])]
            exact ⟨(k, h), _, first, ih.2 ⟨g, hg, rfl⟩, rfl⟩

/-- A class is complete only if it was before its last row. -/
theorem absorbed_of_addTo {cs : List (Row × List Row)} {groups' : List (GroupKey × Graph)}
    (h : List.Forall₂ m.Absorbed (addTo (m.sameGroupRow GroupKey.sameGroup) r cs) groups') :
    ∃ groups, List.Forall₂ m.Absorbed cs groups := by
  induction cs generalizing groups' with
  | nil => exact ⟨[], .nil⟩
  | cons c cs ih =>
      rw [addTo] at h
      split at h
      · obtain ⟨⟨k, g⟩, others, ⟨hk, hg⟩, hothers, -⟩ := List.forall₂_cons_left_iff.1 h
        rw [← List.cons_append, absorbAll_concat, bind_ok] at hg
        obtain ⟨before, hbefore, -⟩ := hg
        exact ⟨(k, before) :: others, .cons ⟨hk, hbefore⟩ hothers⟩
      · obtain ⟨entry, others, hentry, hothers, -⟩ := List.forall₂_cons_left_iff.1 h
        obtain ⟨groups, hgroups⟩ := ih hothers
        exact ⟨entry :: groups, .cons hentry hgroups⟩

/-- Taking in all rows is taking in the rows of each group. -/
theorem foldlM_absorbGrouped_iff {groups : List (GroupKey × Graph)} :
    rows.foldlM m.absorbGrouped [] = .ok groups ↔
      (∀ r ∈ rows, ∃ key, m.groupKey r = .ok key) ∧
        List.Forall₂ m.Absorbed (m.partition GroupKey.sameGroup rows) groups := by
  induction rows using List.reverseRecOn generalizing groups with
  | nil => simp [partition, classes, pure, Except.pure, eq_comm]
  | append_singleton rows r ih =>
      have hstep (before : List (GroupKey × Graph)) :
          [r].foldlM m.absorbGrouped before = m.absorbGrouped before r := bind_pure _
      rw [List.foldlM_append, bind_ok, partition, classes_concat, ← partition,
        List.forall_mem_append, List.forall_mem_singleton]
      simp only [hstep, ih]
      constructor
      · rintro ⟨before, ⟨hkeys, habsorbed⟩, hrow⟩
        obtain ⟨key, hkey, hrow⟩ := bind_ok.1 hrow
        obtain ⟨g, hg, hput⟩ := bind_ok.1 hrow
        obtain rfl := Except.ok.inj hput
        exact ⟨⟨hkeys, key, hkey⟩, (absorbed_addTo_iff hkey habsorbed).2 ⟨g, hg, rfl⟩⟩
      · rintro ⟨⟨hkeys, key, hkey⟩, habsorbed⟩
        obtain ⟨before, hbefore⟩ := absorbed_of_addTo habsorbed
        obtain ⟨g, hg, rfl⟩ := (absorbed_addTo_iff hkey hbefore).1 habsorbed
        exact ⟨before, ⟨hkeys, hbefore⟩, bind_ok.2 ⟨key, hkey, bind_ok.2 ⟨g, hg, rfl⟩⟩⟩

theorem checkRelations_of_related (related : ∀ p ∈ m.joins, p.relation.isSome = true) :
    m.checkRelations = .ok () := by
  refine forM_of_ok fun p hp => ?_
  obtain ⟨relation, hrelation⟩ := Option.isSome_iff_exists.1 (related p hp)
  rw [hrelation]

variable (m) in
/-- The entities of the rows of a group, under their key. -/
def Materialized (c : Row × List Row) (entry : GroupKey × List Node) : Prop :=
  m.groupKey c.1 = .ok entry.1 ∧ m.materialize (c.1 :: c.2) = .ok entry.2

theorem forall₂_materialized_iff (builds : m.buildsGraphs = true)
    (check : m.checkRelations = .ok ()) {cs : List (Row × List Row)}
    {results : List (GroupKey × List Node)} :
    List.Forall₂ m.Materialized cs results ↔ ∃ groups, List.Forall₂ m.Absorbed cs groups ∧
      groups.map (fun group => (group.1, group.2.nodes)) = results := by
  have hnodes (rows : List Row) (nodes : List Node) : m.materialize rows = .ok nodes ↔
      ∃ g, m.absorbAll .empty rows = .ok g ∧ g.nodes = nodes :=
    (materialize_ok_iff builds).trans (and_iff_right check)
  constructor
  · intro h
    induction h with
    | nil => exact ⟨[], .nil, rfl⟩
    | @cons c entry cs results first others ih =>
        obtain ⟨hkey, hrun⟩ := first
        obtain ⟨g, hg, hentry⟩ := (hnodes _ _).1 hrun
        obtain ⟨groups, habsorbed, rfl⟩ := ih
        exact ⟨(entry.1, g) :: groups, .cons ⟨hkey, hg⟩ habsorbed, by simp [hentry]⟩
  · rintro ⟨groups, habsorbed, rfl⟩
    rw [List.forall₂_map_right_iff]
    exact habsorbed.imp fun c group h => ⟨h.1, (hnodes _ _).2 ⟨group.2, h.2, rfl⟩⟩

/-- Rebuilding the groups together is rebuilding each of them. -/
theorem materializeGroups_ok_iff (grouped : m.shape.isGrouped = true)
    (noProjection : m.shape.projection = none)
    (related : ∀ p ∈ m.joins, p.relation.isSome = true) {results : List (GroupKey × List Node)} :
    m.materializeGroups rows = .ok results ↔ (∀ r ∈ rows, ∃ key, m.groupKey r = .ok key) ∧
      List.Forall₂ m.Materialized (m.partition GroupKey.sameGroup rows) results := by
  have check := checkRelations_of_related related
  have builds : m.buildsGraphs = true := by simp [buildsGraphs, noProjection, grouped]
  rw [forall₂_materialized_iff builds check, materializeGroups, if_neg (by simp [grouped]), check,
    bind_ok]
  constructor
  · rintro ⟨_, -, hrun⟩
    obtain ⟨groups, hgroups, hresults⟩ := bind_ok.1 hrun
    obtain ⟨hkeys, habsorbed⟩ := foldlM_absorbGrouped_iff.1 hgroups
    exact ⟨hkeys, groups, habsorbed, Except.ok.inj hresults⟩
  · rintro ⟨hkeys, groups, habsorbed, rfl⟩
    exact ⟨(), rfl, bind_ok.2 ⟨groups, foldlM_absorbGrouped_iff.2 ⟨hkeys, habsorbed⟩, rfl⟩⟩

/-- Every entry is that of a group. -/
theorem exists_of_mem_materialized {cs : List (Row × List Row)}
    {results : List (GroupKey × List Node)} (h : List.Forall₂ m.Materialized cs results)
    {entry : GroupKey × List Node} (hentry : entry ∈ results) :
    ∃ c ∈ cs, m.Materialized c entry := by
  induction h with
  | nil => cases hentry
  | @cons c first cs results hfirst others ih =>
      rcases List.mem_cons.1 hentry with rfl | hentry
      · exact ⟨c, List.mem_cons_self, hfirst⟩
      · obtain ⟨d, hd, hentry⟩ := ih hentry
        exact ⟨d, List.mem_cons_of_mem c hd, hentry⟩

/-- All groups can be rebuilt as soon as each of them can. -/
theorem exists_materialized_iff {cs : List (Row × List Row)}
    (keys : ∀ c ∈ cs, ∃ key, m.groupKey c.1 = .ok key) :
    (∃ results, List.Forall₂ m.Materialized cs results) ↔
      ∀ c ∈ cs, ∃ nodes, m.materialize (c.1 :: c.2) = .ok nodes := by
  induction cs with
  | nil => simp
  | cons c cs ih =>
      obtain ⟨⟨key, hkey⟩, hkeys⟩ := List.forall_mem_cons.1 keys
      rw [List.forall_mem_cons, ← ih hkeys]
      constructor
      · rintro ⟨results, h⟩
        obtain ⟨entry, others, hentry, hothers, rfl⟩ := List.forall₂_cons_left_iff.1 h
        exact ⟨⟨entry.2, hentry.2⟩, others, hothers⟩
      · rintro ⟨⟨nodes, hnodes⟩, others, hothers⟩
        exact ⟨(key, nodes) :: others, .cons ⟨hkey, hnodes⟩ hothers⟩

/-- The keys of the entries are those of the groups. -/
theorem keys_of_materialized {cs : List (Row × List Row)} {results : List (GroupKey × List Node)}
    (h : List.Forall₂ m.Materialized cs results) :
    results.map Prod.fst = cs.map fun c => m.groupKeyAt c.1 := by
  induction h with
  | nil => rfl
  | cons first others ih => rw [List.map_cons, List.map_cons, ih, groupKeyAt_of_ok first.1]

variable (m rows) in
/-- Group keys that are equal have one digest. -/
def LawfulGroups : Prop :=
  ∀ a ∈ rows, ∀ b ∈ rows, (m.groupKeyAt a).same (m.groupKeyAt b) = true →
    Value.digestItems (m.groupKeyAt a).values = Value.digestItems (m.groupKeyAt b).values

/-- Only documents can be equal and have two digests. -/
theorem lawfulGroups_of_kind
    (noJson : ∀ k ∈ m.shape.outputKeys, ∃ kind, k.kind = some kind ∧ kind ≠ .json) :
    m.LawfulGroups rows := by
  intro a _ b _
  refine Value.digestItems_eq_of_sameItems fun v hv => ?_
  obtain ⟨k, hk, rfl⟩ := List.mem_map.1 hv
  obtain ⟨kind, hkind, other⟩ := noJson k hk
  rw [hkind]
  exact Row.noDocument_valueAs? other a _

theorem LawfulGroups.sameGroup_eq_same (lawful : m.LawfulGroups rows) :
    ∀ a ∈ rows, ∀ b ∈ rows,
      m.sameGroupRow GroupKey.sameGroup a b = m.sameGroupRow GroupKey.same a b := by
  intro a ha b hb
  unfold sameGroupRow GroupKey.sameGroup
  cases hsame : (m.groupKeyAt a).same (m.groupKeyAt b) with
  | false => exact Bool.and_false _
  | true => rw [Bool.and_true, beq_iff_eq.2 (lawful a ha b hb hsame)]

theorem LawfulGroups.partition_eq (lawful : m.LawfulGroups rows) :
    m.partition GroupKey.sameGroup rows = m.partition GroupKey.same rows :=
  classes_congr rows lawful.sameGroup_eq_same

/-- A row whose key is equal to itself is in the group of a row with an equal key and digest. -/
theorem exists_group_of_mem {a : Row} (ha : a ∈ rows)
    (self : (m.groupKeyAt a).same (m.groupKeyAt a) = true) :
    ∃ c ∈ m.partition GroupKey.sameGroup rows, (m.groupKeyAt c.1).same (m.groupKeyAt a) = true ∧
      Value.digestItems (m.groupKeyAt c.1).values = Value.digestItems (m.groupKeyAt a).values := by
  obtain ⟨c, hc, hac⟩ : ∃ c ∈ m.partition GroupKey.sameGroup rows, a ∈ c.1 :: c.2 :=
    exists_class_of_mem ha
  have hself : m.sameGroupRow GroupKey.sameGroup a a = true := by
    rw [sameGroupRow, GroupKey.sameGroup, self, beq_self_eq_true, Bool.and_true]
  have hsame := same_of_mem_class rows hc hac hself
  rw [sameGroupRow, GroupKey.sameGroup, Bool.and_eq_true, beq_iff_eq] at hsame
  exact ⟨c, hc, hsame.2, hsame.1⟩

/-- Groups have different keys exactly when equal keys have one digest. -/
theorem pairwise_partition_iff :
    ((m.partition GroupKey.sameGroup rows).Pairwise fun c d =>
      (m.groupKeyAt c.1).same (m.groupKeyAt d.1) = false) ↔ m.LawfulGroups rows := by
  constructor
  · intro differ a ha b hb hab
    have hba : (m.groupKeyAt b).same (m.groupKeyAt a) = true := by rwa [GroupKey.same_comm]
    obtain ⟨c, hc, hca, hdigest⟩ := exists_group_of_mem ha (GroupKey.same_trans hab hba)
    obtain ⟨d, hd, hdb, hdigest'⟩ := exists_group_of_mem hb (GroupKey.same_trans hba hab)
    rw [← hdigest, ← hdigest']
    by_contra hne
    have symm : Std.Symm fun c d : Row × List Row =>
        (m.groupKeyAt c.1).same (m.groupKeyAt d.1) = false :=
      ⟨fun c d h => by rwa [GroupKey.same_comm]⟩
    have hcd := differ.forall hc hd fun heq => hne (by rw [heq])
    rw [GroupKey.same_of_same (GroupKey.same_trans hca hab) hdb] at hcd
    cases hcd
  · intro lawful
    rw [lawful.partition_eq]
    have differ : (classes (m.sameGroupRow GroupKey.same) rows).Pairwise fun c d =>
        m.sameGroupRow GroupKey.same c.1 d.1 = false := pairwise_classes rows
    exact differ

/-- The rows of a group are all rows with its key. -/
theorem rowsOf_of_mem_partition {c : Row × List Row} {key : GroupKey}
    (hc : c ∈ m.partition GroupKey.same rows) (hkey : m.groupKeyAt c.1 = key)
    (self : key.same key = true) : m.rowsOf key rows = c.1 :: c.2 := by
  have hself : m.sameGroupRow GroupKey.same c.1 c.1 = true := by rwa [sameGroupRow, hkey]
  have symm (a b : Row) : m.sameGroupRow GroupKey.same a b = m.sameGroupRow GroupKey.same b a :=
    GroupKey.same_comm _ _
  have euclid : Euclidean (m.sameGroupRow GroupKey.same) := fun _ _ _ => GroupKey.same_of_same
  rw [← filter_of_mem_classes symm euclid rows hc hself, rowsOf, ← hkey]
  rfl

/-- The entries are the groups in the order in which they are first seen, each with its key and with
the entities of exactly the rows that have this key. A map from keys to groups keeps all of them. -/
structure IsPartition (m : Materializer) (rows : List Row) (results : List (GroupKey × List Node)) :
    Prop where
  entries : List.Forall₂ (fun c entry => entry.1 = m.groupKeyAt c.1 ∧
    m.materialize (c.1 :: c.2) = .ok entry.2) (m.partition GroupKey.same rows) results
  ofKey : ∀ entry ∈ results, entry.1.same entry.1 = true →
    m.materialize (m.rowsOf entry.1 rows) = .ok entry.2
  distinct : results.Pairwise fun a b => a.1.same b.1 = false
  collected : GroupKey.collect results = results

/-- The result of a grouped query is a partition of its rows by equality of group keys, as long as
equal keys have one digest, and otherwise it has two groups of equal keys. The partition is there
when every row has a group key and the rows of each group can be rebuilt by themselves. -/
theorem materializeGroups_eq_partition (m : Materializer) (rows : List Row)
    (grouped : m.shape.isGrouped = true) (noProjection : m.shape.projection = none)
    (related : ∀ p ∈ m.joins, p.relation.isSome = true) :
    (∀ results, m.materializeGroups rows = .ok results →
      ((results.Pairwise fun a b => a.1.same b.1 = false) ↔ m.LawfulGroups rows)) ∧
    (m.LawfulGroups rows →
      ((m.partition GroupKey.same rows).flatMap fun c => c.1 :: c.2).Perm rows ∧
      ((∃ results, m.materializeGroups rows = .ok results) ↔
        (∀ r ∈ rows, m.HasGroup r) ∧
          ∀ c ∈ m.partition GroupKey.same rows, ∃ nodes, m.materialize (c.1 :: c.2) = .ok nodes) ∧
      ∀ results, m.materializeGroups rows = .ok results → m.IsPartition rows results) := by
  have hruns {results : List (GroupKey × List Node)} : m.materializeGroups rows = .ok results ↔ _ :=
    materializeGroups_ok_iff grouped noProjection related
  have hdiffer (results : List (GroupKey × List Node)) (h : m.materializeGroups rows = .ok results) :
      (results.Pairwise fun a b => a.1.same b.1 = false) ↔ m.LawfulGroups rows := by
    have hkeys : (results.map Prod.fst).Pairwise (fun k l => GroupKey.same k l = false) ↔
        results.Pairwise fun a b => a.1.same b.1 = false := List.pairwise_map
    rw [← hkeys, keys_of_materialized (hruns.1 h).2, List.pairwise_map, pairwise_partition_iff]
  refine ⟨hdiffer, fun lawful => ?_⟩
  rw [lawful.partition_eq] at hruns
  refine ⟨perm_classes rows, ?_, fun results hresults => ?_⟩
  · simp only [hruns, exists_and_left, exists_groupKey_iff]
    refine and_congr_right fun keys => exists_materialized_iff fun c hc => ?_
    exact exists_groupKey_iff.2 (keys c.1 (mem_of_mem_classes rows hc))
  · obtain ⟨-, materialized⟩ := hruns.1 hresults
    have differ := (hdiffer results hresults).2 lawful
    refine ⟨materialized.imp fun _ _ h => ⟨(groupKey_ok_iff.1 h.1).2, h.2⟩,
      fun entry hentry self => ?_, differ, GroupKey.collect_of_pairwise differ⟩
    obtain ⟨c, hc, hkey, hnodes⟩ := exists_of_mem_materialized materialized hentry
    rw [rowsOf_of_mem_partition hc (groupKeyAt_of_ok hkey) self, hnodes]

/-- Customers with their orders, grouped by the state of the orders; only keys are read. -/
def customersByStatus : Materializer :=
  let key := Demo.key "id" (.integer .i64)
  let orders : Join := ⟨.inner, Demo.customer, ⟨Demo.order, "Extend1", [key]⟩, []⟩
  { shape :=
      { root := ⟨Demo.customer, "Extend0", [key]⟩
        projection := none
        joins := [orders]
        groupingKeys := [⟨"status", some .text⟩]
        aggregationKeys := []
        defaultKeyField := "id" }
    joins := [⟨orders, 0, Demo.customer.relations.head?⟩] }

def statusRow (status : String) (customer order : Int64) : Row :=
  ⟨[("status", .text status), ("Extend0_id", .int customer), ("Extend1_id", .int order)]⟩

/-- The first customer has orders in both groups, and the rows of the groups alternate. -/
def statusRows : List Row :=
  [statusRow "paid" 1 10, statusRow "open" 1 11, statusRow "paid" 2 20, statusRow "paid" 1 12,
    statusRow "open" 1 11]

theorem customersByStatus_partition :
    customersByStatus.shape.isGrouped = true ∧ customersByStatus.shape.projection = none ∧
      (∀ p ∈ customersByStatus.joins, p.relation.isSome = true) ∧
      customersByStatus.LawfulGroups statusRows ∧
      ∃ results, customersByStatus.materializeGroups statusRows = .ok results ∧
        results.map (fun entry => entry.2.map fun n => (n.related "orders").length) =
          [[2, 1], [1]] ∧
        customersByStatus.IsPartition statusRows results := by
  have related : ∀ p ∈ customersByStatus.joins, p.relation.isSome = true := by
    simp [customersByStatus, Demo.customer]
  have lawful : customersByStatus.LawfulGroups statusRows :=
    lawfulGroups_of_kind fun k hk => by
      obtain rfl : k = ⟨"status", some .text⟩ := List.mem_singleton.1 hk
      exact ⟨.text, rfl, by decide⟩
  have counts : (customersByStatus.materializeGroups statusRows).toOption.map
      (fun results => results.map fun entry => entry.2.map fun n => (n.related "orders").length) =
        some [[2, 1], [1]] := by
    decide +kernel
  obtain ⟨results, hresults, hcounts⟩ := Option.map_eq_some_iff.1 counts
  have run := eq_ok_of_toOption hresults
  obtain ⟨-, spec⟩ :=
    materializeGroups_eq_partition customersByStatus statusRows rfl rfl related
  obtain ⟨-, -, partitioned⟩ := spec lawful
  exact ⟨rfl, rfl, related, lawful, results, run, hcounts, partitioned results run⟩

/-- Customers grouped by a document. -/
def customersByDocument : Materializer :=
  { shape :=
      { root := ⟨Demo.customer, "Extend0", [Demo.key "id" (.integer .i64)]⟩
        projection := none
        joins := []
        groupingKeys := [⟨"document", some .json⟩]
        aggregationKeys := []
        defaultKeyField := "id" }
    joins := [] }

/-- A row whose document is a zero. -/
def zeroRow (negative : Bool) (customer : Int64) : Row :=
  ⟨[("document", .json (.number (.real (.zero negative)))), ("Extend0_id", .int customer)]⟩

def zeroRows : List Row := [zeroRow false 1, zeroRow true 2]

/-- The rows have one group key, and yet there are two groups of one row each. -/
theorem customersByDocument_not_partition :
    customersByDocument.shape.isGrouped = true ∧ customersByDocument.shape.projection = none ∧
      (∀ p ∈ customersByDocument.joins, p.relation.isSome = true) ∧
      (∀ r ∈ zeroRows, (customersByDocument.rowsOf (customersByDocument.groupKeyAt r)
        zeroRows).length = 2) ∧
      ∃ results, customersByDocument.materializeGroups zeroRows = .ok results ∧
        results.map (fun entry => entry.2.length) = [1, 1] ∧
        ∀ a ∈ results, ∀ b ∈ results, a.1.same b.1 = true := by
  have groups : (customersByDocument.materializeGroups zeroRows).toOption.map (fun results =>
      (results.map fun entry => entry.2.length, results.all fun a => results.all fun b =>
        a.1.same b.1)) = some ([1, 1], true) := by
    decide +kernel
  obtain ⟨results, hresults, hgroups⟩ := Option.map_eq_some_iff.1 groups
  obtain ⟨counts, equal⟩ := Prod.mk.inj hgroups
  refine ⟨rfl, rfl, by simp [customersByDocument], by decide +kernel, results,
    eq_ok_of_toOption hresults, counts, ?_⟩
  simpa only [List.all_eq_true] using equal

end Materializer

end TypedQuery
