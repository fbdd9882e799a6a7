import TypedQuery.Proofs.Plan.Registration

/-!
# Requests for aliases

A registry is asked for the aliases of entities in any order, repeatedly and with types that clash.
It only grows, at its end, so the entries stay numbered in their order and an alias that was given
is given again. A refused request finds its type under another table and changes nothing.
-/

namespace TypedQuery.Aliases

/-- The registry after requests, granted or refused. -/
def after (a : Aliases) (es : List Entity) : Aliases := es.foldl (fun a e => (a.request e).2) a

/-- The entries are numbered, and no type name and no alias is registered twice. A request is refused
when its type is registered with another table, and only then; it leaves the registry as it is. -/
structure Orderly (stem : String) (a : Aliases) : Prop where
  labels : ∀ (i : Nat) (entry : AliasEntry),
    a.entries[i]? = some entry → entry.label = Number.numbered stem i
  nodupNames : (a.entries.map (·.entity.typeName)).Nodup
  nodupLabels : (a.entries.map (·.label)).Nodup
  refused : ∀ (e : Entity) (err : QueryError), (a.request e).1 = .error err ↔
    ∃ entry ∈ a.entries, entry.entity.typeName = e.typeName ∧ entry.entity.table ≠ e.table ∧
      err = .ambiguousAlias e.typeName (.tables entry.label entry.entity.table e.table)
  unchanged : ∀ (e : Entity) (err : QueryError), (a.request e).1 = .error err → (a.request e).2 = a

variable {a as : Aliases} {e : Entity} {label stem : String} {err : QueryError}

theorem refused_iff : (a.request e).1 = .error err ↔
    ∃ entry, a.entry? e.typeName = some entry ∧ entry.entity.table ≠ e.table ∧
      err = .ambiguousAlias e.typeName (.tables entry.label entry.entity.table e.table) := by
  unfold request
  rcases a.entry? e.typeName with _ | entry
  · simp
  · by_cases htable : entry.entity.table = e.table
    · simp [htable]
    · simp only [htable, if_false, Except.error.injEq, Option.some.injEq, exists_eq_left', ne_eq,
        not_false_eq_true, true_and]
      exact eq_comm

theorem request_of_refused (h : (a.request e).1 = .error err) : (a.request e).2 = a := by
  revert h
  unfold request
  rcases a.entry? e.typeName with _ | entry
  · intro h
    cases h
  · intro
    dsimp only
    split <;> rfl

theorem grows_request (a : Aliases) (e : Entity) : a.Grows (a.request e).2 := by
  rcases h : (a.request e).1 with err | label
  · rw [request_of_refused h]
    exact .refl
  · exact .of_aliasFor (aliasFor_ok_iff.2 (Prod.ext h rfl))

theorem grows_after (a : Aliases) (es : List Entity) : a.Grows (a.after es) := by
  induction es generalizing a with
  | nil => exact .refl
  | cons e es ih => exact (grows_request a e).trans (ih _)

theorem after_append (a : Aliases) (es fs : List Entity) :
    a.after (es ++ fs) = (a.after es).after fs :=
  List.foldl_append

/-- A type name has one entry. -/
theorem entry?_eq_some_iff (distinct : (a.entries.map (·.entity.typeName)).Nodup)
    {entry : AliasEntry} {name : String} :
    a.entry? name = some entry ↔ entry ∈ a.entries ∧ entry.entity.typeName = name := by
  constructor
  · intro h
    exact ⟨List.mem_of_find?_eq_some h, by simpa using List.find?_some h⟩
  · rintro ⟨hmem, rfl⟩
    obtain ⟨found, hfound⟩ := Option.isSome_iff_exists.1 (registered_iff.2 ⟨entry, hmem, rfl⟩)
    have hname : found.entity.typeName = entry.entity.typeName := by
      simpa using List.find?_some hfound
    obtain rfl := List.inj_on_of_nodup_map distinct (List.mem_of_find?_eq_some hfound) hmem hname
    exact hfound

theorem Orderly.of_numbered (numbered : a.Numbered)
    (distinct : (a.entries.map (·.entity.typeName)).Nodup) : a.Orderly a.stem where
  labels i entry h := by
    obtain ⟨hi, -⟩ := List.getElem?_eq_some_iff.1 h
    have hlabel := congrArg (·[i]?) numbered
    simpa [h, List.getElem?_range (show i < a.size from hi)] using hlabel
  nodupNames := distinct
  nodupLabels := numbered.nodup_labels
  refused e err := by
    simp only [refused_iff, entry?_eq_some_iff distinct, and_assoc]
  unchanged e err := request_of_refused

/-- A registry without entries, or with the root of a query as its first one. -/
def IsStart (stem : String) (a : Aliases) : Prop :=
  a = empty stem ∨ ∃ root, a = rooted stem root

theorem IsStart.orderly_after (start : a.IsStart stem) (es : List Entity) :
    (a.after es).Orderly stem := by
  have hstem : a.stem = stem := by
    rcases start with rfl | ⟨root, rfl⟩ <;> rfl
  have numbered : a.Numbered := by
    rcases start with rfl | ⟨root, rfl⟩ <;> rfl
  have owned : a.Owned fun _ => True := by
    rcases start with rfl | ⟨root, rfl⟩
    · exact ⟨List.nodup_nil, fun _ _ => trivial⟩
    · exact ⟨List.nodup_singleton _, fun _ _ => trivial⟩
  have grows := grows_after a es
  have registers : Registers (fun _ => True) a (a.after es) :=
    Relation.ReflTransGen.mono (fun _ _ ⟨e, label, h⟩ => ⟨e, label, trivial, h⟩) _ _ grows
  have orderly := Orderly.of_numbered (grows.numbered numbered) (owned.registers registers).distinct
  rwa [grows.stem, hstem] at orderly

/-- An alias that was given is given again, whatever is requested in between. -/
theorem request_after (h : (a.request e).1 = .ok label) (later : List Entity) :
    (a.after (e :: later)).request e = (.ok label, a.after (e :: later)) ∧
      (a.after (e :: later)).lookup? e = some label := by
  have given : (a.request e).2.aliasFor e = .ok (label, (a.request e).2) :=
    aliasFor_again (aliasFor_ok_iff.2 (Prod.ext h rfl))
  have again := (grows_after (a.request e).2 later).aliasFor given
  exact ⟨aliasFor_ok_iff.1 again, lookup?_of_aliasFor again⟩

/-- After any requests the registry is orderly, and every alias that was given by one of them is
the one that the entity still has. -/
theorem orderly_of_requests (start : a.IsStart stem) (es : List Entity) :
    (a.after es).Orderly stem ∧
    ∀ (before later : List Entity) (e : Entity) (label : String), es = before ++ e :: later →
      ((a.after before).request e).1 = .ok label →
        (a.after es).request e = (.ok label, a.after es) ∧
        (a.after es).lookup? e = some label := by
  refine ⟨start.orderly_after es, ?_⟩
  rintro before later e label rfl given
  rw [after_append]
  exact request_after given later

/-- Orders from before the present ones, under the same type name. -/
def archivedOrder : Entity := { Demo.order with table := "archived_orders" }

/-- The root of a query is asked for again after a clash with it. -/
theorem ordersAgain_orderly :
    let requests := [Demo.customer, archivedOrder, Demo.order]
    let start := rooted "Extend" Demo.order
    start.IsStart "Extend" ∧ (start.after requests).Orderly "Extend" ∧
    ((start.after [Demo.customer, archivedOrder]).request Demo.order).1 = .ok "Extend0" ∧
    (start.after requests).lookup? Demo.order = some "Extend0" := by
  have start : (rooted "Extend" Demo.order).IsStart "Extend" := .inr ⟨_, rfl⟩
  have settled := orderly_of_requests start [Demo.customer, archivedOrder, Demo.order]
  have given : (((rooted "Extend" Demo.order).after [Demo.customer, archivedOrder]).request
      Demo.order).1 = .ok "Extend0" := by decide
  exact ⟨start, settled.1, given, (settled.2 _ [] _ _ rfl given).2⟩

end TypedQuery.Aliases
