/-
  A sample catalog: orders and customers, with aliases of two owners and a few stored queries.
-/
import QueryCatalog.Catalog.Request

namespace QueryCatalog.Sample

/-- Orders, customers, and a reserved table of users. -/
def schema : Schema := .ofTables
  [.ofColumns "orders"
      [("id", "int"), ("customer_id", "int"), ("total", "decimal(10,2)"),
        ("created_at", "datetime")],
    .ofColumns "customers" [("id", "int"), ("name", "varchar(255)"), ("city", "varchar(64)")],
    .ofColumns "__users__" [("id", "int"), ("password", "varchar(255)")]]

/-- The aliases, in the order of their numbers from 1 on. -/
def aliases : List AliasBody :=
  [⟨1, "orders", "`orders`", true, false⟩,
    ⟨1, "customers", "`customers`", true, false⟩,
    ⟨1, "customer_id", "`orders`.`customer_id`", false, false⟩,
    ⟨1, "revenue", "SUM(`orders`.`total`)", false, true⟩,
    ⟨1, "total", "orders.total", false, false⟩,
    ⟨1, "big_order", "(`orders`.`total` > 100)", false, false⟩,
    ⟨1, "customer_pk", "`customers`.`id`", false, false⟩,
    ⟨1, "has_revenue", "(SUM(`orders`.`total`) > 1000)", false, true⟩,
    ⟨2, "total", "`orders`.`total`", false, false⟩]

/-- The stored queries, in the order of their numbers from 1 on. -/
def queries : List QueryBody :=
  [⟨1, "avg_total", "SELECT AVG(`orders`.`total`) AS `avg_total` FROM `orders`;", 1⟩,
    ⟨1, "pairs", "SELECT `orders`.`id` AS `id`, `orders`.`total` AS `total` FROM `orders`;", 2⟩,
    ⟨1, "top_one", "SELECT `orders`.`total` AS `total` FROM `orders` LIMIT 1 OFFSET 0;", 1⟩,
    ⟨1, "top_five", "SELECT `orders`.`total` AS `total` FROM `orders` LIMIT 5 OFFSET 0;", 1⟩,
    ⟨1, "everything", "SELECT * FROM `orders`;", -1⟩]

/-- Adds bodies one after the other, as far as they can be added. -/
def filled {β : Type} [Body β] (bodies : List β) : Table β :=
  bodies.foldl (fun table body =>
    match table.add body with
    | .ok (_, table) => table
    | .error _ => table) .empty

/-- The aliases and stored queries in a store. -/
def store : Store := ⟨filled aliases, filled queries⟩

/-- The sample catalog. -/
def catalog : Catalog := .fresh .standard schema store

end QueryCatalog.Sample
