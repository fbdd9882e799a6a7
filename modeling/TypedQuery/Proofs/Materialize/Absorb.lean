import TypedQuery.Proofs.Materialize.Step
import TypedQuery.Proofs.Materialize.Trace

/-!
# Taking in a row

A row is taken in place by place: its root, then the entity of each join whose parent the row
has. In between, the slots that the row has come to lack the visits of the joins that are still
to come, and all other slots are complete. At the end of the row every slot is complete, so each
has seen exactly the visits of its rows.
-/

namespace TypedQuery

namespace Materializer

open Outcome

variable {m : Materializer} {g g' : Graph} {t : Nat → SlotTrace} {rows : List Row} {r : Row}

/-- Every join follows a relation to many. -/
def AllMany (m : Materializer) : Prop :=
  ∀ p ∈ m.joins, ∃ relation, p.relation = some relation ∧ relation.cardinality = .many

/-- What one join does with a row. -/
inductive JoinStep (m : Materializer) (g : Graph) (r : Row) (index : Nat) (p : PlacedJoin)
    (resolved : List (Option Nat)) : Option Nat → Graph → Prop
  | unresolved (parent : resolved.getD p.parent none = none) :
      JoinStep m g r index p resolved none g
  | unmatched (null : m.nullAt (index + 1) r = true) :
      JoinStep m g r index p resolved none g
  | again {parent c} (resolvedParent : resolved.getD p.parent none = some parent)
      (matched : m.nullAt (index + 1) r = false)
      (found : g.child? ⟨parent, index, m.keyAt (index + 1) r⟩ = some c) :
      JoinStep m g r index p resolved (some c) g
  | fresh {parent} (resolvedParent : resolved.getD p.parent none = some parent)
      (matched : m.nullAt (index + 1) r = false)
      (new : g.child? ⟨parent, index, m.keyAt (index + 1) r⟩ = none)
      (hasEntity : m.HasEntity (index + 1) r) :
      JoinStep m g r index p resolved (some g.next)
        (g.addChild ⟨parent, index, m.keyAt (index + 1) r⟩ (m.relationAt (index + 1))
          (m.nodeAt (index + 1) r))

/-- What the root does with a row. -/
inductive RootStep (m : Materializer) (g : Graph) (r : Row) : Nat → Graph → Prop
  | again {s} (found : g.root? (m.keyAt 0 r) = some s) : RootStep m g r s g
  | fresh (new : g.root? (m.keyAt 0 r) = none) (hasEntity : m.HasEntity 0 r) :
      RootStep m g r g.next (g.addRoot (m.keyAt 0 r) (m.nodeAt 0 r))

theorem rootStep_of_absorbRoot {s : Nat} (h : m.absorbRoot g r = .ok (s, g')) :
    m.RootStep g r s g' := by
  cases takesRoot_of_absorbRoot h with
  | again hasKey found =>
      rw [← hasKey.keyAt] at found
      exact .again found
  | fresh hasKey new read =>
      have hasEntity := hasKey.hasEntity read
      rw [← hasKey.keyAt, ← nodeAt_of_ok read]
      rw [← hasKey.keyAt] at new
      exact .fresh new hasEntity

theorem joinStep_of_absorbJoin {index : Nat} {p : PlacedJoin} {resolved : List (Option Nat)}
    {slot : Option Nat} (many : m.AllMany) (hp : m.joins[index]? = some p)
    (h : m.absorbJoin g r index p resolved = .ok (slot, g')) :
    m.JoinStep g r index p resolved slot g' := by
  obtain ⟨relation, hrelation, hmany⟩ := many p (List.mem_of_getElem? hp)
  have hfoundBy (key : Value) : foundBy relation key = key := by rw [foundBy, hmany]
  cases takesJoin_of_absorbJoin hp h with
  | unresolved parent => exact .unresolved parent
  | unrelated none =>
      rw [hrelation] at none
      cases none
  | unmatched read null =>
      refine .unmatched ?_
      rw [nullAt, readKey_ok_iff.1 read]
      exact null
  | again resolvedParent follows hasKey found =>
      obtain rfl := Option.some.inj (hrelation.symm.trans follows)
      rw [hfoundBy, ← hasKey.keyAt] at found
      exact .again resolvedParent hasKey.nullAt found
  | fresh resolvedParent follows hasKey new read =>
      obtain rfl := Option.some.inj (hrelation.symm.trans follows)
      have hasEntity := hasKey.hasEntity read
      rw [hfoundBy, ← hasKey.keyAt] at new
      rw [hfoundBy, ← hasKey.keyAt, ← nodeAt_of_ok read, ← relationAt_succ hp hrelation]
      exact .fresh resolvedParent hasKey.nullAt new hasEntity

/-- Every slot has seen the visits of all its rows. -/
def Complete (m : Materializer) (g : Graph) (t : Nat → SlotTrace) : Prop :=
  ∀ s < g.next, (t s).seen = m.visits (t s).place (t s).rows

/-- A row was taken in up to a join; `resolved` are the slots that it has come to, by place. -/
structure Midway (m : Materializer) (g : Graph) (t : Nat → SlotTrace) (r : Row) (index : Nat)
    (resolved : List (Option Nat)) : Prop where
  length : resolved.length = index + 1
  present : ∀ place s, resolved[place]? = some (some s) → s < g.next ∧ (t s).place = place
  here : ∀ s, some s ∈ resolved → ∃ before, (t s).rows = before ++ [r] ∧
    (t s).seen = m.visits (t s).place before ++ m.visitsUpTo (t s).place r index
  elsewhere : ∀ s < g.next, some s ∉ resolved → (t s).seen = m.visits (t s).place (t s).rows

namespace Midway

variable {index : Nat} {resolved : List (Option Nat)} {p : PlacedJoin}

/-- Each place of a row has a slot of its own. -/
theorem place_lt (h : Midway m g t r index resolved) {s : Nat} (hs : some s ∈ resolved) :
    (t s).place < index + 1 ∧ resolved[(t s).place]? = some (some s) ∧ s < g.next := by
  obtain ⟨place, hplace⟩ := List.getElem?_of_mem hs
  obtain ⟨hnext, rfl⟩ := h.present place s hplace
  refine ⟨?_, hplace, hnext⟩
  rw [← h.length]
  exact (List.getElem?_eq_some_iff.1 hplace).1

/-- A row without the entity of a join leaves the graph as it is. -/
theorem skip (h : Midway m g t r index resolved)
    (hnone : ∀ s, some s ∈ resolved → m.leadsTo (t s).place r (index + 1) = false) :
    Midway m g t r (index + 1) (resolved ++ [none]) := by
  have hmem (s : Nat) : some s ∈ resolved ++ [none] ↔ some s ∈ resolved := by simp
  refine ⟨by simp [h.length], ?_, ?_, ?_⟩
  · intro place s hs
    apply h.present place s
    rcases Nat.lt_or_ge place resolved.length with hlt | hge
    · rwa [List.getElem?_append_left hlt] at hs
    · rw [List.getElem?_append_right hge, List.getElem?_singleton] at hs
      split at hs <;> cases hs
  · intro s hs
    rw [hmem] at hs
    obtain ⟨before, hrows, hseen⟩ := h.here s hs
    refine ⟨before, hrows, ?_⟩
    rw [visitsUpTo_succ, hnone s hs, hseen]
    simp
  · intro s hnext hs
    rw [hmem] at hs
    exact h.elsewhere s hnext hs

/-- The slot of the parent of a join is among those that the row has come to. -/
theorem mem_of_parent (h : Midway m g t r index resolved) {place parent : Nat}
    (hparent : resolved.getD place none = some parent) :
    some parent ∈ resolved ∧ (t parent).place = place := by
  have hget := getElem?_of_resolved hparent
  exact ⟨List.mem_of_getElem? hget, (h.present _ _ hget).2⟩

/-- The entity of a join is attached to the slot of its parent: the parent sees one visit more,
and the slot of the entity has the row. -/
theorem attach {x : SlotTrace} {parent c : Nat} (before : List Row) (placed : m.Placed)
    (h : Midway m g t r index resolved) (hp : m.joins[index]? = some p)
    (hparent : resolved.getD p.parent none = some parent)
    (matched : m.nullAt (index + 1) r = false) (hc : c < g'.next)
    (old : ∀ s < g'.next, s ≠ c → s < g.next) (grown : g.next ≤ g'.next)
    (hplace : x.place = index + 1) (hrows : x.rows = before ++ [r])
    (hseen : x.seen = m.visits (index + 1) before) (fresh : some c ∉ resolved) :
    Midway m g' (visitChild t parent c x ⟨index + 1, r⟩) r (index + 1) (resolved ++ [some c]) := by
  obtain ⟨hmem, hparentPlace⟩ := h.mem_of_parent hparent
  have leads : m.leadsTo (t parent).place r (index + 1) = true :=
    leadsTo_iff.2 ⟨⟨p, hp, hparentPlace.symm⟩, matched⟩
  have unequal {s : Nat} (hs : some s ∈ resolved) : s ≠ c := fun heq => fresh (heq ▸ hs)
  have hcp : c ≠ parent := (unequal hmem).symm
  refine ⟨by simp [h.length], ?_, ?_, ?_⟩
  · intro place s hs
    rcases Nat.lt_or_ge place resolved.length with hlt | hge
    · rw [List.getElem?_append_left hlt] at hs
      obtain ⟨hnext, hs'⟩ := h.present place s hs
      refine ⟨Nat.lt_of_lt_of_le hnext grown, ?_⟩
      rw [(visitChild_keeps (unequal (List.mem_of_getElem? hs))).1, hs']
    · rw [List.getElem?_append_right hge, List.getElem?_singleton] at hs
      split at hs
      · rename_i hzero
        obtain rfl : c = s := Option.some.inj (Option.some.inj hs)
        rw [visitChild_child hcp, hplace, ← h.length]
        exact ⟨hc, by omega⟩
      · cases hs
  · intro s hs
    rcases List.mem_append.1 hs with hs | hs
    · obtain ⟨-, hget, -⟩ := h.place_lt hs
      obtain ⟨earlier, hrows', hseen'⟩ := h.here s hs
      rcases eq_or_ne s parent with rfl | hsp
      · have hsame : ((t s).addVisit ⟨index + 1, r⟩).place = (t s).place := rfl
        rw [visitChild_parent]
        refine ⟨earlier, hrows', ?_⟩
        rw [hsame, visitsUpTo_succ, leads, if_pos rfl, SlotTrace.addVisit, hseen',
          List.append_assoc]
      · have hleads : m.leadsTo (t s).place r (index + 1) = false := by
          refine Bool.eq_false_iff.2 fun htrue => hsp ?_
          obtain ⟨⟨q, hq, hqp⟩, -⟩ := leadsTo_iff.1 htrue
          obtain rfl : q = p := Option.some.inj (hq.symm.trans hp)
          have hget' := (h.place_lt hmem).2.1
          rw [hparentPlace, hqp, hget] at hget'
          exact Option.some.inj (Option.some.inj hget')
        rw [visitChild_of_ne hsp (unequal hs)]
        refine ⟨earlier, hrows', ?_⟩
        rw [visitsUpTo_succ, hleads, hseen']
        simp
    · obtain rfl : s = c := by simpa using hs
      rw [visitChild_child hcp]
      refine ⟨before, hrows, ?_⟩
      rw [hplace, visitsUpTo_eq_nil placed (Nat.le_refl _), List.append_nil, hseen]
  · intro s hnext hs
    have hsc : s ≠ c := by
      rintro rfl
      exact hs (by simp)
    have hsr : some s ∉ resolved := fun hmem => hs (List.mem_append_left _ hmem)
    have hsp : s ≠ parent := by
      rintro rfl
      exact hsr hmem
    rw [visitChild_of_ne hsp hsc]
    exact h.elsewhere s (old s hnext hsc) hsr

/-- The entity of a join is in its slot already. -/
theorem again {parent c : Nat} (placed : m.Placed) (traces : Traces m g t rows)
    (h : Midway m g t r index resolved) (hp : m.joins[index]? = some p)
    (hparent : resolved.getD p.parent none = some parent)
    (matched : m.nullAt (index + 1) r = false)
    (found : g.child? ⟨parent, index, m.keyAt (index + 1) r⟩ = some c) :
    ∃ t', Traces m g t' rows ∧ Midway m g t' r (index + 1) (resolved ++ [some c]) := by
  obtain ⟨a, hentry, hsame⟩ := Graph.mem_of_child? found
  obtain ⟨⟨hap, haj⟩, hkey⟩ : (a.parent = parent ∧ a.join = index) ∧
      a.key.sameKey (m.keyAt (index + 1) r) = true := by
    simpa [AttachKey.same] using hsame
  obtain ⟨⟨slot, relation, hslot, hmem⟩, hplace, hakey⟩ := (traces.attached a c).1 hentry
  rw [haj] at hplace
  rw [hap] at hslot
  rw [hakey, hplace] at hkey
  have hpresent := (traces.child parent slot hslot _ hmem).present
  -- The slots of the row so far are at places that come before the one of the join.
  have fresh : some c ∉ resolved := fun hmem => by
    have := (h.place_lt hmem).1
    omega
  have hseen := h.elsewhere c hpresent fresh
  rw [hplace] at hseen
  have traces' := traces.revisitChild hslot hmem (r := r) (by rwa [hplace])
  rw [hplace] at traces'
  exact ⟨_, traces', h.attach (t c).rows placed hp hparent matched hpresent (fun s hs _ => hs)
    (Nat.le_refl _) hplace rfl hseen fresh⟩

/-- The entity of a join gets a slot of its own. -/
theorem fresh {parent : Nat} (placed : m.Placed) (traces : Traces m g t rows)
    (h : Midway m g t r index resolved) (hp : m.joins[index]? = some p)
    (hparent : resolved.getD p.parent none = some parent)
    (matched : m.nullAt (index + 1) r = false)
    (new : g.child? ⟨parent, index, m.keyAt (index + 1) r⟩ = none)
    (hasEntity : m.HasEntity (index + 1) r) :
    ∃ t', Traces m (withChild m g parent index r) t' rows ∧
      Midway m (withChild m g parent index r) t' r (index + 1) (resolved ++ [some g.next]) := by
  have hpresent := (h.place_lt (h.mem_of_parent hparent).1).2.2
  have fresh : some g.next ∉ resolved := fun hmem => by
    have := (h.place_lt hmem).2.2
    omega
  have hnext : (withChild m g parent index r).next = g.next + 1 := next_withChild
  refine ⟨_, traces.addChild hpresent hasEntity ?_, ?_⟩
  · intro slot hslot c hc hplace
    have hentry := (traces.attached ⟨parent, index, m.keyAt (t c.2).place (t c.2).first⟩ c.2).2
      ⟨⟨slot, c.1, hslot, hc⟩, hplace, rfl⟩
    have hdiffers := Graph.not_same_of_child? new hentry
    rw [← hplace]
    simpa [AttachKey.same, hplace] using hdiffers
  · exact h.attach [] placed hp hparent matched (by omega) (fun s hs hne => by omega) (by omega)
      rfl rfl rfl fresh

/-- One join of a row. -/
theorem join (placed : m.Placed) (traces : Traces m g t rows) (h : Midway m g t r index resolved)
    (hp : m.joins[index]? = some p) {slot : Option Nat}
    (step : m.JoinStep g r index p resolved slot g') :
    ∃ t', Traces m g' t' rows ∧ Midway m g' t' r (index + 1) (resolved ++ [slot]) := by
  cases step with
  | unresolved hnone =>
      refine ⟨t, traces, h.skip fun s hs => Bool.eq_false_iff.2 fun hleads => ?_⟩
      obtain ⟨⟨q, hq, hqp⟩, -⟩ := leadsTo_iff.1 hleads
      obtain rfl : q = p := Option.some.inj (hq.symm.trans hp)
      have hget := (h.place_lt hs).2.1
      rw [hqp, List.getD_eq_getElem?_getD, hget] at hnone
      cases hnone
  | unmatched hnull =>
      refine ⟨t, traces, h.skip fun s hs => Bool.eq_false_iff.2 fun hleads => ?_⟩
      rw [(leadsTo_iff.1 hleads).2] at hnull
      cases hnull
  | again hparent matched found => exact h.again placed traces hp hparent matched found
  | fresh hparent matched new hasEntity =>
      exact h.fresh placed traces hp hparent matched new hasEntity

/-- A row that was taken in leaves every slot complete. -/
theorem complete (h : Midway m g t r m.joins.length resolved) : m.Complete g t := by
  intro s hs
  by_cases hmem : some s ∈ resolved
  · obtain ⟨before, hrows, hseen⟩ := h.here s hmem
    rw [hseen, hrows, visits_concat]
  · exact h.elsewhere s hs hmem

end Midway

/-- The root of a row. -/
theorem Complete.root {s : Nat} (complete : m.Complete g t) (traces : Traces m g t rows)
    (step : m.RootStep g r s g') :
    ∃ t', Traces m g' t' (rows ++ [r]) ∧ Midway m g' t' r 0 [some s] := by
  have single {x y place : Nat} (h : [some x][place]? = some (some y)) : place = 0 ∧ x = y := by
    rw [List.getElem?_singleton] at h
    split at h
    · exact ⟨by assumption, Option.some.inj (Option.some.inj h)⟩
    · cases h
  cases step with
  | @again s found =>
      obtain ⟨key, hentry, hsame⟩ := Graph.mem_of_root? found
      obtain ⟨hroot, rfl⟩ := (traces.byKey key s).1 hentry
      obtain ⟨hpresent, hplace⟩ := traces.rootSlot s hroot
      refine ⟨_, traces.revisitRoot hroot hsame, rfl, ?_, ?_, ?_⟩
      · intro place c hc
        obtain ⟨rfl, rfl⟩ := single hc
        rw [Function.update_self]
        exact ⟨hpresent, hplace⟩
      · intro c hc
        obtain rfl : c = s := by simpa using hc
        rw [Function.update_self]
        exact ⟨(t c).rows, rfl, (complete c hpresent).trans (List.append_nil _).symm⟩
      · intro c hnext hc
        rw [Function.update_of_ne (by rintro rfl; simp at hc)]
        exact complete c hnext
  | fresh new hasEntity =>
      have hnext : (withRoot m g r).next = g.next + 1 := next_withRoot
      refine ⟨_, traces.addRoot hasEntity ?_, rfl, ?_, ?_, ?_⟩
      · intro s hs
        exact Graph.not_sameKey_of_root? new ((traces.byKey _ s).2 ⟨hs, rfl⟩)
      · intro place c hc
        obtain ⟨rfl, rfl⟩ := single hc
        rw [withRoot_new]
        refine ⟨?_, rfl⟩
        show _ < (withRoot m g r).next
        omega
      · intro c hc
        obtain rfl : c = g.next := by simpa using hc
        rw [withRoot_new]
        exact ⟨[], rfl, rfl⟩
      · intro c hc hmem
        have hne : c ≠ g.next := by
          rintro rfl
          simp at hmem
        rw [withRoot_of_ne hne]
        change _ < (withRoot m g r).next at hc
        exact complete c (by omega)

/-- All joins of a row. -/
theorem complete_of_absorbJoins (placed : m.Placed) (many : m.AllMany)
    {resolved : List (Option Nat)} (traces : Traces m g t rows) (midway : Midway m g t r 0 resolved)
    (h : m.absorbJoins r g 0 resolved m.joins = .ok g') :
    ∃ t', Traces m g' t' rows ∧ m.Complete g' t' := by
  have start : ∃ t, Traces m g t rows ∧ Midway m g t r 0 resolved := ⟨t, traces, midway⟩
  obtain ⟨_, t', traces', midway'⟩ := absorbJoins_induction
    (motive := fun g index resolved => ∃ t, Traces m g t rows ∧ Midway m g t r index resolved)
    h (Nat.zero_le _) start
    fun _ _ _ _ _ _ hp ⟨_, traces, midway⟩ hjoin =>
      midway.join placed traces hp (joinStep_of_absorbJoin many hp hjoin)
  exact ⟨t', traces', midway'.complete⟩

/-- A whole row. -/
theorem complete_of_absorb (placed : m.Placed) (many : m.AllMany) (traces : Traces m g t rows)
    (complete : m.Complete g t) (h : m.absorb g r = .ok g') :
    ∃ t', Traces m g' t' (rows ++ [r]) ∧ m.Complete g' t' := by
  rw [absorb, bind_ok] at h
  obtain ⟨⟨root, g₁⟩, hroot, hjoins⟩ := h
  obtain ⟨t₁, traces₁, midway⟩ := complete.root traces (rootStep_of_absorbRoot hroot)
  exact complete_of_absorbJoins placed many traces₁ midway hjoins

/-- All rows, one after the other. -/
theorem complete_of_absorbAll (placed : m.Placed) (many : m.AllMany) {more : List Row}
    (traces : Traces m g t rows) (complete : m.Complete g t) (h : m.absorbAll g more = .ok g') :
    ∃ t', Traces m g' t' (rows ++ more) ∧ m.Complete g' t' := by
  induction more generalizing g t rows with
  | nil =>
      obtain rfl := Except.ok.inj h
      exact ⟨t, by rwa [List.append_nil], complete⟩
  | cons r more ih =>
      rw [absorbAll, List.foldlM_cons, bind_ok] at h
      obtain ⟨g₁, hrow, hrest⟩ := h
      obtain ⟨t₁, traces₁, complete₁⟩ := complete_of_absorb placed many traces complete hrow
      obtain ⟨t', traces', complete'⟩ := ih traces₁ complete₁ hrest
      exact ⟨t', by rwa [List.append_assoc] at traces', complete'⟩

end Materializer

end TypedQuery
