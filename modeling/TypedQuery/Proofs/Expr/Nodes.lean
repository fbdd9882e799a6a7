import TypedQuery.Expr.Fold

/-!
# The nodes of an expression

What holds of all nodes of an expression holds of all nodes of its parts.
-/

namespace TypedQuery.Expr

theorem nodesOfArgs_eq (xs : List Expr) : nodesOfArgs xs = xs.flatMap nodes := by
  induction xs with
  | nil => rfl
  | cons x xs ih => rw [nodesOfArgs, ih, List.flatMap_cons]

theorem nodesOfBindings_eq (bs : List (String × Expr)) :
    nodesOfBindings bs = bs.flatMap fun b => b.2.nodes := by
  induction bs with
  | nil => rfl
  | cons b bs ih => rw [nodesOfBindings, ih, List.flatMap_cons]

theorem self_mem_nodes (x : Expr) : x ∈ x.nodes := by
  cases x <;> simp [nodes]

theorem nodes_subset_of_mem_children {x y : Expr} (h : y ∈ x.children) : y.nodes ⊆ x.nodes := by
  intro z hz
  cases x with
  | comparison op l r | logical op l r =>
      rcases (by simpa [children] using h : y = l ∨ y = r) with rfl | rfl <;> simp [nodes, hz]
  | member t name =>
      obtain rfl := List.mem_singleton.1 h
      simp [nodes, hz]
  | call f args =>
      rw [nodes, nodesOfArgs_eq]
      exact List.mem_cons_of_mem _ (List.mem_flatMap.2 ⟨y, h, hz⟩)
  | construct target bs =>
      obtain ⟨b, hb, rfl⟩ := List.mem_map.1 h
      rw [nodes, nodesOfBindings_eq]
      exact List.mem_cons_of_mem _ (List.mem_flatMap.2 ⟨b, hb, hz⟩)
  | literal v | row e => cases h

/-- A node is the expression itself or stands below a child. -/
theorem eq_or_mem_of_mem_nodes {x y : Expr} (h : y ∈ x.nodes) :
    y = x ∨ ∃ z ∈ x.children, y ∈ z.nodes := by
  cases x with
  | comparison op l r | logical op l r =>
      rw [nodes, List.mem_cons, List.mem_append] at h
      exact h.imp_right fun below => by simpa [children] using below
  | member t name =>
      rw [nodes, List.mem_cons] at h
      exact h.imp_right fun below => by simpa [children] using below
  | call f args =>
      rw [nodes, nodesOfArgs_eq, List.mem_cons, List.mem_flatMap] at h
      exact h
  | construct target bs =>
      rw [nodes, nodesOfBindings_eq, List.mem_cons, List.mem_flatMap] at h
      exact h.imp_right fun ⟨b, hb, below⟩ => ⟨b.2, List.mem_map_of_mem hb, below⟩
  | literal v | row e => exact .inl (List.mem_singleton.1 h)

mutual

/-- A node of a node is a node. -/
theorem nodes_subset_of_mem_nodes : (x : Expr) → ∀ y ∈ x.nodes, y.nodes ⊆ x.nodes := by
  intro x y hy
  have below {z : Expr} (hz : z ∈ x.children) (part : y.nodes ⊆ z.nodes) : y.nodes ⊆ x.nodes :=
    List.Subset.trans part (nodes_subset_of_mem_children hz)
  have self (h : y = x) : y.nodes ⊆ x.nodes := h ▸ List.Subset.refl _
  cases x with
  | comparison op l r | logical op l r =>
      rcases List.mem_cons.1 hy with hy | hy
      · exact self hy
      rcases List.mem_append.1 hy with hl | hr
      · exact below (by simp [children]) (nodes_subset_of_mem_nodes l y hl)
      · exact below (by simp [children]) (nodes_subset_of_mem_nodes r y hr)
  | member t name =>
      rcases List.mem_cons.1 hy with hy | ht
      · exact self hy
      · exact below (by simp [children]) (nodes_subset_of_mem_nodes t y ht)
  | call f args =>
      rcases List.mem_cons.1 hy with hy | hargs
      · exact self hy
      · obtain ⟨z, hz, part⟩ := nodes_subset_of_mem_args args y hargs
        exact below hz part
  | construct target bs =>
      rcases List.mem_cons.1 hy with hy | hbs
      · exact self hy
      · obtain ⟨b, hb, part⟩ := nodes_subset_of_mem_bindings bs y hbs
        exact below (List.mem_map_of_mem hb) part
  | literal v | row e => exact self (List.mem_singleton.1 hy)

theorem nodes_subset_of_mem_args : (xs : List Expr) →
    ∀ y ∈ nodesOfArgs xs, ∃ z ∈ xs, y.nodes ⊆ z.nodes
  | [] => by simp [nodesOfArgs]
  | x :: xs => by
      intro y hy
      rcases List.mem_append.1 hy with hx | hxs
      · exact ⟨x, by simp, nodes_subset_of_mem_nodes x y hx⟩
      · obtain ⟨z, hz, part⟩ := nodes_subset_of_mem_args xs y hxs
        exact ⟨z, by simp [hz], part⟩

theorem nodes_subset_of_mem_bindings : (bs : List (String × Expr)) →
    ∀ y ∈ nodesOfBindings bs, ∃ b ∈ bs, y.nodes ⊆ b.2.nodes
  | [] => by simp [nodesOfBindings]
  | (name, x) :: bs => by
      intro y hy
      rcases List.mem_append.1 hy with hx | hbs
      · exact ⟨(name, x), by simp, nodes_subset_of_mem_nodes x y hx⟩
      · obtain ⟨b, hb, part⟩ := nodes_subset_of_mem_bindings bs y hbs
        exact ⟨b, by simp [hb], part⟩

end

theorem row_mem_nodes_of_field {x : Expr} {e : Entity} {name : String}
    (h : field e name ∈ x.nodes) : row e ∈ x.nodes :=
  nodes_subset_of_mem_nodes x _ h (by simp [field, nodes])

end TypedQuery.Expr
