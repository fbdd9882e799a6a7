import TypedQuery.Query

/-!
# A tour of the builder

A few queries over a small shop and the statements they become. No database is needed.
-/

namespace TypedQuery.Demo

def plain (name : String) (scalar : ScalarType) : Field := ⟨name, name, ⟨scalar, false⟩, false⟩

def key (name : String) (scalar : ScalarType) : Field := ⟨name, name, ⟨scalar, false⟩, true⟩

def optional (name : String) (scalar : ScalarType) : Field := ⟨name, name, ⟨scalar, true⟩, false⟩

def order : Entity :=
  { ref := "Order"
    typeName := "Order"
    table := "orders"
    fields :=
      [ key "id" (.integer .i64), plain "customer_id" (.integer .i64), plain "status" .text,
        plain "placed_on" .date, plain "total" .double ]
    relations := [] }

def customer : Entity :=
  { ref := "Customer"
    typeName := "Customer"
    table := "customers"
    fields := [key "id" (.integer .i64), plain "name" .text, optional "email" .text]
    relations := [⟨"orders", order.toEntityName, .many⟩] }

/-- What orders are projected into; it has no table of its own. -/
def orderSummary : Entity :=
  { ref := "OrderSummary"
    typeName := "OrderSummary"
    table := "order_summaries"
    fields := [plain "order_id" (.integer .i64), plain "customer_name" .text]
    relations := [] }

def firstDay : Date := ⟨2024, 1, 1, by decide⟩

/-- The first day of 2024. -/
def releaseDate : Accessor :=
  ⟨"release_date", fun _ => .date firstDay⟩

def text (s : String) : Expr := .literal (.text s)

def number (n : Nat) : Expr := .literal (.float (.ofRatio false n 1))

def total : Expr := .field order "total"

def sum (x : Expr) : Expr := .call (.aggregate .sum) [x]

def recentPaid : Except QueryError Statement := do
  let condition := .logical .and (.comparison .eq (.field order "status") (text "paid"))
    (.comparison .gte (.field order "placed_on") (.call (.accessor releaseDate) []))
  let q ← (Query.new order {} []).filter condition
  let q ← q.orderBy total .descending
  (q.limit 10).compile

def withOrders : Except QueryError Statement := do
  let q ← (Query.new customer {} []).join .left order
    (.field customer "id") (.field order "customer_id")
  let q ← q.filter (.call (.helper .like) [.field customer "email", text "%@example.com"])
  q.compile

def summaries : Except QueryError Statement := do
  let q ← (Query.new order {} []).join .inner customer
    (.field order "customer_id") (.field customer "id")
  let states : Expr := .literal (.list [.text "paid", .text "shipped"])
  let q ← q.filter (.call (.helper .isIn) [.field order "status", states])
  let q ← q.select orderSummary (.construct orderSummary
    [("order_id", .field order "id"), ("customer_name", .field customer "name")])
  q.compile

def revenueByStatus : Except QueryError Statement := do
  let q ← (Query.new order {} []).filter (.comparison .gt total (number 0))
  let q ← q.groupBy [("status", .field order "status")]
  let q ← q.aggregate "order_count" (.call (.aggregate .count) [])
  let q ← q.aggregate "revenue" (sum total)
  let q ← q.having (.comparison .gt (sum total) (number 100))
  q.compile

/-- A statement and its parameters under a title. -/
def chapter (title : String) (s : Statement) : String :=
  let parameter (p : String × Value) : String := "  " ++ p.1 ++ " = " ++ p.2.inspect ++ "\n"
  "== " ++ title ++ " ==\n" ++ s.text ++ "\n" ++ String.join (s.params.entries.map parameter) ++ "\n"

/-- All chapters, or the first error. -/
def report : Except QueryError String := do
  .ok ("🚀 QueryHaus compile-only demo\n\n" ++
    chapter "Recent paid orders" (← recentPaid) ++
    chapter "Customers with their orders" (← withOrders) ++
    chapter "Order summaries" (← summaries) ++
    chapter "Revenue by status" (← revenueByStatus))

end TypedQuery.Demo
