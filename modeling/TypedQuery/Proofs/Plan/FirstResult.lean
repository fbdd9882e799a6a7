import TypedQuery.Demo
import TypedQuery.Proofs.Plan.Window
import TypedQuery.Run

/-!
# The first result

A query that reads its results row by row asks for one row to find the first of them. It does so by
a limit of its own, and the last limit counts: a smaller one that was asked for before is lost.
-/

namespace TypedQuery

/-- A database that answers every statement with the rows of its window. -/
def Database.ofRows (rows : List Row) : Database := fun s => .ok (s.window.rows rows)

namespace Materializer

theorem shape_ofShape {s : Shape} {m : Materializer} (h : ofShape s = .ok m) : m.shape = s := by
  obtain ⟨joins, -, h⟩ := Outcome.bind_ok.1 h
  obtain rfl := Except.ok.inj h
  rfl

end Materializer

namespace Query

variable {q : Query} {calls : List Call} {root : Entity} {naming : Naming} {log : CallLog}
  {schema : Schema} {rows : List Row} {s : Statement} {xs : List Instance}

/-- Does a query read its results row by row? -/
def isFlat (q : Query) : Bool := q.plan.joins.isEmpty || q.plan.projection.isSome

theorem toList_ok {db : Database} : q.toList schema db = .ok xs ↔
    ∃ s rows, q.compile = .ok s ∧ db s = .ok rows ∧ q.resultsOf schema s rows = .ok xs := by
  constructor
  · intro h
    obtain ⟨s, hs, h⟩ := Outcome.bind_ok.1 h
    obtain ⟨rows, hrows, h⟩ := Outcome.bind_ok.1 h
    exact ⟨s, rows, hs, hrows, h⟩
  · rintro ⟨s, rows, hs, hrows, h⟩
    exact Outcome.bind_ok.2 ⟨s, hs, Outcome.bind_ok.2 ⟨rows, hrows, h⟩⟩

/-- A query that is not grouped compiles when its tables have proper names. -/
theorem compile_ok_iff (ungrouped : q.plan.grouped = false) : q.compile = .ok s ↔
    q.plan.checkTables = .ok () ∧ s = q.plan.finish q.plan.ungroupedSql := by
  have hstatement : q.compile =
      q.plan.checkTables >>= fun _ => .ok (q.plan.finish q.plan.ungroupedSql) := by
    unfold compile Plan.statement
    simp [ungrouped]
  rw [hstatement, Outcome.bind_ok]
  constructor
  · rintro ⟨_, htables, h⟩
    exact ⟨htables, (Except.ok.inj h).symm⟩
  · rintro ⟨htables, rfl⟩
    exact ⟨(), htables, rfl⟩

/-- Another limit changes neither whether a query compiles nor the shape of its rows. -/
theorem compile_limit (ungrouped : q.plan.grouped = false) (h : q.compile = .ok s) (n : Nat) :
    ∃ s', (q.limit n).compile = .ok s' ∧ s'.shape = s.shape := by
  obtain ⟨htables, rfl⟩ := (compile_ok_iff ungrouped).1 h
  exact ⟨_, (compile_ok_iff (q := q.limit n) ungrouped).2 ⟨htables, rfl⟩, rfl⟩

/-- The columns that results are read from: those of the projection, or else of the root. -/
def binding (q : Query) : Binding := q.plan.projection.getD q.plan.rootBinding

/-- The node of a row and the instance that is read from it. -/
def readRow (q : Query) (schema : Schema) (r : Row) : Except QueryError Instance :=
  q.binding.readNode r >>= Node.read schema q.result

/-- Row by row, each result comes from its own row. -/
theorem resultsOf_ok_iff (flat : q.isFlat = true) (ungrouped : q.plan.groupingKeys = [])
    (shape : s.shape = q.plan.shape) : q.resultsOf schema s rows = .ok xs ↔
      (∃ m, Materializer.ofShape q.plan.shape = .ok m) ∧
        List.Forall₂ (fun r x => q.readRow schema r = .ok x) rows xs := by
  have reads {m : Materializer} (hm : m.shape = q.plan.shape) : m.materialize rows =
      rows.mapM q.binding.readNode := by
    have single : m.buildsGraphs = false := by
      simp only [isFlat, Bool.or_eq_true] at flat
      simp only [Materializer.buildsGraphs, Shape.isGrouped, hm, Plan.shape, ungrouped]
      cases hprojection : q.plan.projection <;> simp_all
    rw [Materializer.materialize, single, hm]
    rfl
  have passes : (∃ m, Materializer.ofShape q.plan.shape = .ok m ∧
      (m.materialize rows >>= fun nodes => nodes.mapM (Node.read schema q.result)) = .ok xs) ↔
      (∃ m, Materializer.ofShape q.plan.shape = .ok m) ∧
        List.Forall₂ (fun r x => q.readRow schema r = .ok x) rows xs := by
    constructor
    · rintro ⟨m, hm, h⟩
      rw [reads (Materializer.shape_ofShape hm)] at h
      exact ⟨⟨m, hm⟩, Outcome.mapM_mapM_ok_iff.1 h⟩
    · rintro ⟨⟨m, hm⟩, h⟩
      refine ⟨m, hm, ?_⟩
      rw [reads (Materializer.shape_ofShape hm)]
      exact Outcome.mapM_mapM_ok_iff.2 h
  rw [resultsOf, shape, Outcome.bind_ok]
  exact passes

theorem windowOf_concat_limit (calls : List Call) (n : Nat) :
    windowOf (calls ++ [.limit n]) = ⟨some n, (windowOf calls).offset⟩ := by
  simp [windowOf, Call.number?]

theorem groupingKeys_of_calls (h : calls.foldlM call (.new root naming log) = .ok q) :
    q.plan.groupingKeys = [] :=
  ((runs_of_calls h).steps fun _ _ _ _ => trivial).keys.1

theorem shape_of_calls (h : calls.foldlM call (.new root naming log) = .ok q)
    (compiles : q.compile = .ok s) : s.shape = q.plan.shape := by
  rw [((compile_ok_iff (grouped_of_calls h)).1 compiles).2]
  rfl

/-- The results of a flat query are read from the rows of its window. -/
theorem toList_ofRows_iff (h : calls.foldlM call (.new root naming log) = .ok q)
    (flat : q.isFlat = true) : q.toList schema (.ofRows rows) = .ok xs ↔
      (∃ s, q.compile = .ok s) ∧ (∃ m, Materializer.ofShape q.plan.shape = .ok m) ∧
        List.Forall₂ (fun r x => q.readRow schema r = .ok x) ((windowOf calls).rows rows) xs := by
  have reads {s : Statement} (compiles : q.compile = .ok s) :
      q.resultsOf schema s ((windowOf calls).rows rows) = .ok xs ↔ _ :=
    resultsOf_ok_iff flat (groupingKeys_of_calls h) (shape_of_calls h compiles)
  rw [toList_ok]
  constructor
  · rintro ⟨s, answer, compiles, hanswer, results⟩
    obtain rfl := Except.ok.inj hanswer
    rw [window_of_calls h compiles] at results
    exact ⟨⟨s, compiles⟩, (reads compiles).1 results⟩
  · rintro ⟨⟨s, compiles⟩, results⟩
    refine ⟨s, _, compiles, rfl, ?_⟩
    rw [window_of_calls h compiles]
    exact (reads compiles).2 results

theorem first_ok {db : Database} {x : Option Instance} : q.first schema db = .ok x ↔
    ∃ xs, q.forFirst.toList schema db = .ok xs ∧ xs.head? = x := by
  rw [first, Outcome.bind_ok]
  exact exists_congr fun _ => and_congr_right fun _ => iff_of_eq (Except.ok.injEq _ _)

/-- The first result of a flat query is read from the first row behind the offset, whatever the
limit is. -/
theorem first_ofRows_iff (h : calls.foldlM call (.new root naming log) = .ok q)
    (flat : q.isFlat = true) (all : q.toList schema (.ofRows rows) = .ok xs)
    {x : Option Instance} : q.first schema (.ofRows rows) = .ok x ↔
      ∃ ys, List.Forall₂ (fun r y => q.readRow schema r = .ok y)
        ((rows.drop ((windowOf calls).offset.getD 0)).take 1) ys ∧ ys.head? = x := by
  obtain ⟨⟨s, compiles⟩, readable, -⟩ := (toList_ofRows_iff h flat).1 all
  have hlimit : (calls ++ [Call.limit 1]).foldlM call (.new root naming log) = .ok (q.limit 1) := by
    rw [List.foldlM_append, h]
    rfl
  obtain ⟨s', compiles', -⟩ := compile_limit (grouped_of_calls h) compiles 1
  have hforFirst : q.forFirst = q.limit 1 := if_pos flat
  rw [first_ok, hforFirst]
  refine exists_congr fun ys => and_congr_left fun _ => ?_
  rw [toList_ofRows_iff hlimit flat, windowOf_concat_limit]
  exact ⟨fun h => h.2.2, fun h => ⟨⟨s', compiles'⟩, readable, h⟩⟩

/-- The first result is the head of all results, except where no row at all was asked for and the
limit of one row has taken the place of that. -/
theorem first_eq_head?_iff (h : calls.foldlM call (.new root naming log) = .ok q)
    (all : q.toList schema (.ofRows rows) = .ok xs) :
    q.first schema (.ofRows rows) = .ok xs.head? ↔
      ¬ (q.isFlat = true ∧ (windowOf calls).limit = some 0 ∧
        (windowOf calls).offset.getD 0 < rows.length) := by
  by_cases flat : q.isFlat = true
  · obtain ⟨-, -, results⟩ := (toList_ofRows_iff h flat).1 all
    rw [first_ofRows_iff h flat all]
    by_cases lost : (windowOf calls).limit = some 0 ∧
        (windowOf calls).offset.getD 0 < rows.length
    · -- nothing was asked for, but there is a row to be read
      have hnil : (windowOf calls).rows rows = [] := by simp [Window.rows, lost.1]
      rw [hnil, List.forall₂_nil_left_iff] at results
      obtain ⟨r, rest, hbehind⟩ := List.exists_cons_of_length_pos
        (l := rows.drop ((windowOf calls).offset.getD 0)) (by rw [List.length_drop]; omega)
      refine iff_of_false ?_ (not_not_intro ⟨flat, lost⟩)
      rintro ⟨ys, reads, hhead⟩
      have hlength := reads.length_eq
      rw [hbehind] at hlength
      rw [results, List.head?_nil, List.head?_eq_none_iff] at hhead
      simp [hhead] at hlength
    · refine iff_of_true ⟨xs.take 1, ?_, by cases xs <;> rfl⟩ fun h => lost h.2
      rw [← Window.take_one_rows _ _ fun hlimit => by simpa [hlimit] using lost]
      exact List.forall₂_take 1 results
  · have hforFirst : q.forFirst = q := if_neg flat
    refine iff_of_true (first_ok.2 ⟨xs, ?_, rfl⟩) fun h => flat h.1
    rw [hforFirst, all]

/-- The row of an order of the first customer. -/
def orderRow (id : Int64) : Row :=
  .ofList [("Extend0_id", .int id), ("Extend0_customer_id", .int 1),
    ("Extend0_status", .text "paid"), ("Extend0_placed_on", .date Demo.firstDay),
    ("Extend0_total", .float (.ofRatio false 50 1))]

/-- The second of three orders, which is the first one behind the offset. -/
theorem secondOrder_first :
    ∃ q xs, [.offset 1, .limit 2].foldlM call (.new Demo.order {} []) = .ok q ∧
      q.toList ⟨[]⟩ (.ofRows [orderRow 1, orderRow 2, orderRow 3]) = .ok xs ∧
      xs.map (·.fieldValue? "id") = [some (.int 2), some (.int 3)] ∧
      q.first ⟨[]⟩ (.ofRows [orderRow 1, orderRow 2, orderRow 3]) = .ok xs.head? := by
  have hq : [.offset 1, .limit 2].foldlM call (.new Demo.order {} []) =
      .ok (((Query.new Demo.order {} []).offset 1).limit 2) := rfl
  have found : ((((Query.new Demo.order {} []).offset 1).limit 2).toList ⟨[]⟩
      (.ofRows [orderRow 1, orderRow 2, orderRow 3])).toOption.map
        (·.map (·.fieldValue? "id")) = some [some (.int 2), some (.int 3)] := by
    rfl
  obtain ⟨xs, all, hxs⟩ := Option.map_eq_some_iff.1 found
  have all := Outcome.eq_ok_of_toOption all
  exact ⟨_, xs, hq, all, hxs, (first_eq_head?_iff hq all).2 (by decide)⟩

/-- No orders are asked for, and none are listed, but one is found first. -/
theorem noOrders_first :
    ∃ q x, [.limit 0].foldlM call (.new Demo.order {} []) = .ok q ∧
      q.toList ⟨[]⟩ (.ofRows [orderRow 1]) = .ok [] ∧
      q.first ⟨[]⟩ (.ofRows [orderRow 1]) = .ok (some x) := by
  have found : (((Query.new Demo.order {} []).limit 0).first ⟨[]⟩
      (.ofRows [orderRow 1])).toOption.map Option.isSome = some true := by
    decide +kernel
  obtain ⟨x, first, hx⟩ := Option.map_eq_some_iff.1 found
  obtain ⟨x, rfl⟩ := Option.isSome_iff_exists.1 hx
  exact ⟨_, x, rfl, rfl, Outcome.eq_ok_of_toOption first⟩

end Query

end TypedQuery
