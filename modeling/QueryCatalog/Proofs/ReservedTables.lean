/-
  Reserved tables behind aliases.

  What an alias or a stored query was made from is its origin: the tables that its tree names, and the
  aliases and stored queries that stand in the tree.  `Catalog.made` lists all that a history created,
  each with its origin; an origin has only older items in it, so one may go from an alias to its
  origin, to the origins of what stands there, and so on (`Leads`).

  Creating an alias checks the tables that its own tree names.  Creating a query checks none.  Hence

  1. **No alias names a reserved table** (`Coherent.origin_of_alias`, `Documented.free`);
  2. **an alias may still point at one**, behind a stored query that it embeds
     (`reserved_behind_query`);
  3. **and only there** (`reserved_only_behind_queries`).
-/
import Mathlib.Logic.ExistsUnique
import QueryCatalog.Proofs.AggregatePlacement
import QueryCatalog.Proofs.Staleness
import QueryCatalog.Proofs.TargetChecks

namespace QueryCatalog

/-! ## Origins -/

namespace Sql

/-- The columns that the clauses of the query touch by name, in the order of the statement.  The items
    of a select list have names of their own and touch no column by its name. -/
def Query.columns (q : Query) : List ColumnName :=
  (q.select.join.map fun join => join.condition.columns).getD [] ++
    (q.filter.map Cond.columns).getD [] ++
    (q.groups.map columnsOfExprs).getD [] ++
    (q.having.map Cond.columns).getD [] ++
    (q.order.map fun items => items.flatMap fun item => item.operand.columns).getD []

/-- The alias or the stored query at the node. -/
def Node.item? : Node → Option Item
  | .call _ => none
  | .operand target | .table target => some (.aliased target)
  | .scalar subquery => some (.query subquery.query)
  | .member query | .existence query | .source query => some (.query query)

end Sql

/-- What an alias or a stored query was made from: the tables that its tree names, alone or in front of a
    column, and the items that stand in the tree. -/
structure Origin where
  tables : List String
  items : List Item
deriving DecidableEq

/-- The origin of what is made from a tree with these columns and nodes. -/
def Origin.ofTree (columns : List Sql.ColumnName) (nodes : List Sql.Node) : Origin :=
  ⟨columns.map Prod.fst, nodes.filterMap Sql.Node.item?⟩

namespace Catalog

/-- The origin of an alias of the target, if that can be resolved.  A bare table is no tree. -/
def targetOrigin? (c : Catalog) (owner : Owner) : Input.Target → Option Origin
  | .expr (.table table) => some ⟨[table], []⟩
  | target =>
    ((Resolve.phrase (Cache.lookups c.backing owner) target).run c.traffic).1.toOption.map
      fun p => .ofTree p.columns p.nodes

/-- The origin of what the step asks to be created, if its request can be resolved. -/
def origin? (c : Catalog) : Step → Option Origin
  | .request owner (.createAlias request) => c.targetOrigin? owner request.target
  | .request owner (.createQuery _ input) =>
    ((Resolve.query (Cache.lookups c.backing owner) input).run c.traffic).1.toOption.map
      fun q => .ofTree q.columns q.allNodes
  | _ => none

/-- What the step creates, with its origin. -/
def made? (c : Catalog) (step : Step) : Option (Item × Origin) :=
  (c.created? step).bind fun x => (c.origin? step).map (x, ·)

/-- All that the steps create, each with its origin, in order. -/
def made (c : Catalog) : List Step → List (Item × Origin)
  | [] => []
  | step :: steps => (c.made? step).toList ++ (c.after step).made steps

/-- The last step adds what it makes. -/
theorem made_concat (c : Catalog) (steps : List Step) (step : Step) :
    c.made (steps ++ [step]) = c.made steps ++ ((c.run steps).made? step).toList := by
  induction steps generalizing c with
  | nil => exact List.append_nil _
  | cons first steps ih =>
    show (c.made? first).toList ++ (c.after first).made (steps ++ [step]) = _
    rw [ih, ← List.append_assoc]
    rfl

end Catalog

/-- `Leads made x y`: going from item to item through their origins, `y` is met on the way from `x`. -/
inductive Leads (made : List (Item × Origin)) : Item → Item → Prop
  | refl (x : Item) : Leads made x x
  | step {x y z : Item} {o : Origin} (hmade : (x, o) ∈ made) (hy : y ∈ o.items)
    (hrest : Leads made y z) : Leads made x z

/-- A table that is named by what is met on the way from the item. -/
def PointsAt (made : List (Item × Origin)) (x : Item) (table : String) : Prop :=
  ∃ y o, Leads made x y ∧ (y, o) ∈ made ∧ table ∈ o.tables

/-! ## What was made is the past -/

/-- The item belongs to the past. -/
def Past.Has (past : Past) : Item → Prop
  | .aliased e => e ∈ past.aliases
  | .query q => q ∈ past.queries

/-- The alias, if the item is one. -/
def Item.alias? : Item → Option Alias
  | .aliased e => some e
  | .query _ => none

/-- The stored query, if the item is one. -/
def Item.query? : Item → Option StoredQuery
  | .aliased _ => none
  | .query q => some q

/-- The past in which these items were made. -/
def Past.ofMade (made : List (Item × Origin)) : Past :=
  ⟨made.filterMap fun m => m.1.alias?, made.filterMap fun m => m.1.query?⟩

namespace Past

variable {made : List (Item × Origin)}

/-- What is made last is the last of the past. -/
theorem ofMade_concat (made : List (Item × Origin)) (x : Item) (o : Origin) :
    ofMade (made ++ [(x, o)]) = (ofMade made).grown (some x) := by
  rw [ofMade, List.filterMap_append, List.filterMap_append]
  cases x with
  | aliased e => exact congrArg (Past.mk _) (List.append_nil _)
  | query q => exact congrArg (Past.mk · _) (List.append_nil _)

/-- What belongs to the past was made from something. -/
theorem has_ofMade {x : Item} (h : (ofMade made).Has x) : ∃ o, (x, o) ∈ made := by
  cases x with
  | aliased e =>
    obtain ⟨⟨x, o⟩, hmem, heq⟩ := List.mem_filterMap.mp h
    cases x with
    | aliased e' =>
      cases heq
      exact ⟨o, hmem⟩
    | query q => cases heq
  | query q =>
    obtain ⟨⟨x, o⟩, hmem, heq⟩ := List.mem_filterMap.mp h
    cases x with
    | aliased e => cases heq
    | query q' =>
      cases heq
      exact ⟨o, hmem⟩

/-- Where an item is made only once, it has one origin. -/
theorem origin_unique {β : Type} (entity? : Item → Option (Entity β))
    (hincreasing : (made.filterMap fun m => entity? m.1).Pairwise fun e e' => e.id < e'.id)
    {x : Item} {e : Entity β} (hx : entity? x = some e) {o o' : Origin} (h : (x, o) ∈ made)
    (h' : (x, o') ∈ made) : o = o' := by
  have hpairs := List.pairwise_filterMap.mp hincreasing
  have hdistinct : made.Pairwise fun m m' => m.1 = x → m'.1 = x → m.2 = m'.2 := by
    refine hpairs.imp fun {m m'} hlt hm hm' => ?_
    have hsame : e.id < e.id := hlt e (hm ▸ hx) e (hm' ▸ hx)
    exact absurd hsame (UInt64.lt_irrefl _)
  have hsymm : Std.Symm fun m m' : Item × Origin => m.1 = x → m'.1 = x → m.2 = m'.2 :=
    ⟨fun _ _ heq hm hm' => (heq hm' hm).symm⟩
  exact hdistinct.forall_of_forall (fun _ _ _ _ => rfl) h h' rfl rfl

end Past

/-- What stands in a tree over the past belongs to the past. -/
theorem Sql.Node.has_item {past : Past} {node : Sql.Node} {x : Item}
    (h : node.Uses ⟨fun e => e ∈ past.aliases, fun q => q ∈ past.queries⟩)
    (hx : node.item? = some x) : past.Has x := by
  cases node with
  | call function => cases hx
  | operand target =>
    cases hx
    exact h.1
  | table target =>
    cases hx
    exact h.1
  | scalar subquery =>
    cases hx
    exact h.1
  | member query =>
    cases hx
    exact h.1
  | existence query =>
    cases hx
    exact h
  | source query =>
    cases hx
    exact h

/-! ## One creation -/

namespace Catalog

/-- The origin has only items of the past in it, and if it is that of an alias, no reserved table. -/
structure Vouched (settings : Settings) (past : Past) (x : Item) (o : Origin) : Prop where
  older : ∀ y ∈ o.items, past.Has y
  free : x.alias?.isSome = true → ∀ table ∈ o.tables, settings.isReserved table = false

variable {c c₀ : Catalog} {past : Past} {steps : List Step}

/-- A tree over entities of the past has an origin in the past. -/
theorem older_ofTree {columns : List Sql.ColumnName} {nodes : List Sql.Node}
    (h : ∀ node ∈ nodes, node.Uses ⟨fun e => e ∈ past.aliases, fun q => q ∈ past.queries⟩) :
    ∀ y ∈ (Origin.ofTree columns nodes).items, past.Has y := by
  intro y hy
  obtain ⟨node, hnode, hitem⟩ := List.mem_filterMap.mp hy
  exact Sql.Node.has_item (h node hnode) hitem

/-- A bare table of which an alias is built is not reserved. -/
theorem free_of_build_table {access : TableAccess} {look : Lookups Cache.Fetching} {owner : Owner}
    {name table : String} {body : AliasBody} {t : Cache.Traffic}
    (h : ((AliasTarget.build access look owner ⟨name, .expr (.table table)⟩).run t).1 = .ok body) :
    access.settings.isReserved table = false := by
  cases hreserved : access.settings.isReserved table with
  | false => rfl
  | true =>
    have hcheck : access.checkTable table = .error (.reservedTable table) := by
      rw [TableAccess.checkTable, hreserved]
      rfl
    rw [AliasTarget.build] at h
    dsimp only at h
    rw [hcheck] at h
    cases h

/-- A target of which an alias is built is resolved, and no column of the tree is of a reserved table. -/
theorem free_of_build_tree {access : TableAccess} {look : Lookups Cache.Fetching} {owner : Owner}
    {request : Input.AliasRequest} {body : AliasBody} {t : Cache.Traffic}
    (hplain : ∀ table, request.target ≠ .expr (.table table))
    (h : ((AliasTarget.build access look owner request).run t).1 = .ok body) :
    ∃ p, ((Resolve.phrase look request.target).run t).1 = .ok p ∧
      ∀ column ∈ p.columns, access.settings.isReserved column.1 = false := by
  cases hrun : (Resolve.phrase look request.target).run t with
  | mk r t' =>
    cases r with
    | error e =>
      rw [AliasTarget.build_unresolved hplain hrun] at h
      cases h
    | ok p =>
      refine ⟨p, rfl, fun column hcolumn => ?_⟩
      -- the columns that are checked are those of the tree
      have hcolumns := Resolve.phrase_columns request.target t p (congrArg Prod.fst hrun)
      rw [AliasTarget.build_resolved hplain hrun, ← hcolumns] at h
      cases hcheck : access.checkColumns p.columns with
      | error e =>
        rw [hcheck] at h
        cases h
      | ok u => exact ((access.checkColumns_spec p.columns).1.mp hcheck column hcolumn).free

/-- An alias that is created has an origin, and that is vouched for. -/
theorem Coherent.origin_of_alias (h : c.Coherent past) {owner : Owner} {request : Input.AliasRequest}
    {e : Alias} (hresult : ((createAlias owner request).run c).1 = .ok e) :
    ∃ o, c.origin? (.request owner (.createAlias request)) = some o ∧
      Vouched c.settings past (.aliased e) o := by
  obtain ⟨body, t, -, hbuild, -, -⟩ := createAlias_ok h.up hresult
  have hbody := congrArg Prod.fst hbuild
  by_cases hplain : ∃ table, request.target = .expr (.table table)
  · -- a bare table is checked by itself, without a tree
    obtain ⟨name, target⟩ := request
    obtain ⟨table, rfl⟩ := hplain
    refine ⟨⟨[table], []⟩, rfl, fun _ hy => absurd hy List.not_mem_nil, fun _ => ?_⟩
    exact List.forall_mem_singleton.mpr (free_of_build_table hbody)
  · have hplain : ∀ table, request.target ≠ .expr (.table table) :=
      fun table heq => hplain ⟨table, heq⟩
    obtain ⟨p, htree, hfree⟩ := free_of_build_tree hplain hbody
    have huses := Creates.uses h (.intro hresult htree)
    refine ⟨.ofTree p.columns p.nodes, ?_, older_ofTree (Sql.Phrase.node_uses huses), fun _ => ?_⟩
    · rw [origin?]
      unfold targetOrigin?
      split
      · rename_i table htarget
        exact absurd htarget (hplain table)
      · rw [htree]
        rfl
    · intro table htable
      obtain ⟨column, hcolumn, rfl⟩ := List.mem_map.mp htable
      exact hfree column hcolumn

/-- A query that is created has an origin, and that is vouched for. -/
theorem Coherent.origin_of_query (h : c.Coherent past) {owner : Owner} {name : String}
    {input : Input.Query} {q : StoredQuery}
    (hresult : ((createQuery owner name input).run c).1 = .ok q) :
    ∃ o, c.origin? (.request owner (.createQuery name input)) = some o ∧
      Vouched c.settings past (.query q) o := by
  obtain ⟨tree, t, -, hrun, -, -⟩ := createQuery_ok h.up hresult
  have htree := congrArg Prod.fst hrun
  have hlook := Cache.lookups_between (h.fetchable owner)
  obtain ⟨-, -, hagrees⟩ := Resolve.query_agrees hlook input c.traffic c.traffic ⟨rfl, .refl⟩
  obtain ⟨huses, -⟩ := hagrees tree htree
  refine ⟨.ofTree tree.columns tree.allNodes, ?_, older_ofTree ?_, fun hplain => (by cases hplain)⟩
  · rw [origin?, htree]
    rfl
  · exact Sql.Query.forall_mem_allNodes (Sql.Query.node_uses huses)

/-- Whatever is created is made from something that is vouched for. -/
theorem Coherent.made_of_created (h : c.Coherent past) {step : Step} {x : Item}
    (hcreated : c.created? step = some x) :
    ∃ o, c.made? step = some (x, o) ∧ Vouched c.settings past x o := by
  have horigin : ∃ o, c.origin? step = some o ∧ Vouched c.settings past x o := by
    cases x with
    | aliased e =>
      obtain ⟨owner, request, rfl, hresult⟩ := created?_aliased hcreated
      exact h.origin_of_alias hresult
    | query q =>
      obtain ⟨owner, name, input, rfl, hresult⟩ := created?_query hcreated
      exact h.origin_of_query hresult
  obtain ⟨o, horigin, hvouched⟩ := horigin
  refine ⟨o, ?_, hvouched⟩
  rw [made?, hcreated, horigin]
  rfl

/-! ## Histories -/

/-- A history that begins at `c₀`: what was made is its past, each origin has only items in it that were
    made, and no alias names a reserved table. -/
structure Documented (c₀ : Catalog) (steps : List Step) : Prop where
  coherent : (c₀.run steps).Coherent (.ofMade (c₀.made steps))
  settings_eq : (c₀.run steps).settings = c₀.settings
  older : ∀ x o, (x, o) ∈ c₀.made steps → ∀ y ∈ o.items, ∃ o', (y, o') ∈ c₀.made steps
  free : ∀ e o, (.aliased e, o) ∈ c₀.made steps → ∀ table ∈ o.tables,
    c₀.settings.isReserved table = false

namespace Documented

/-- The induction step: a step makes at most one item, and what that is made from was there before. -/
theorem step (h : c₀.Documented steps) (step : Step) : c₀.Documented (steps ++ [step]) := by
  have hcoherent := h.coherent.after_created step
  have hsettings : (c₀.run (steps ++ [step])).settings = c₀.settings := by
    rw [run_concat, h.coherent.settings_after step, h.settings_eq]
  cases hcreated : (c₀.run steps).created? step with
  | none =>
    have hmade : c₀.made (steps ++ [step]) = c₀.made steps := by
      rw [made_concat, made?, hcreated]
      exact List.append_nil _
    rw [hcreated] at hcoherent
    refine ⟨?_, hsettings, ?_, ?_⟩
    · rw [hmade, run_concat]
      exact hcoherent
    · rw [hmade]
      exact h.older
    · rw [hmade]
      exact h.free
  | some x =>
    obtain ⟨o, hlast, hvouched⟩ := h.coherent.made_of_created hcreated
    have hmade : c₀.made (steps ++ [step]) = c₀.made steps ++ [(x, o)] := by
      rw [made_concat, hlast]
      rfl
    rw [hcreated, ← Past.ofMade_concat _ x o, ← hmade, ← run_concat] at hcoherent
    refine ⟨hcoherent, hsettings, ?_, ?_⟩
    · intro y o' hy z hz
      rw [hmade] at hy ⊢
      -- what is made last stands in no origin, its own included
      have hbefore : ∃ o'', (z, o'') ∈ c₀.made steps := by
        rcases List.mem_append.mp hy with hy | hy
        · exact h.older y o' hy z hz
        · cases List.mem_singleton.mp hy
          exact Past.has_ofMade (hvouched.older z hz)
      obtain ⟨o'', hz⟩ := hbefore
      exact ⟨o'', List.mem_append_left _ hz⟩
    · intro e o' he
      rw [hmade] at he
      rcases List.mem_append.mp he with he | he
      · exact h.free e o' he
      · cases List.mem_singleton.mp he
        rw [← h.settings_eq]
        exact hvouched.free rfl

/-- Whatever is met on the way from something that was made was made. -/
theorem leads (h : c₀.Documented steps) {x y : Item} (hleads : Leads (c₀.made steps) x y)
    (hx : ∃ o, (x, o) ∈ c₀.made steps) : ∃ o, (y, o) ∈ c₀.made steps := by
  induction hleads with
  | refl x => exact hx
  | step hmade hy _ ih => exact ih (h.older _ _ hmade _ hy)

/-- Nothing has two origins. -/
theorem unique (h : c₀.Documented steps) {x : Item} {o o' : Origin} (ho : (x, o) ∈ c₀.made steps)
    (ho' : (x, o') ∈ c₀.made steps) : o = o' := by
  cases x with
  | aliased e => exact Past.origin_unique Item.alias? h.coherent.aliases.increasing rfl ho ho'
  | query q => exact Past.origin_unique Item.query? h.coherent.queries.increasing rfl ho ho'

end Documented

/-- Every history is documented. -/
theorem run_documented (settings : Settings) (schema : Schema) (steps : List Step) :
    (fresh settings schema .empty).Documented steps := by
  induction steps using List.reverseRecOn with
  | nil =>
    refine ⟨.fresh settings schema, rfl, fun _ _ h => ?_, fun _ _ h => ?_⟩
    · exact absurd h List.not_mem_nil
    · exact absurd h List.not_mem_nil
  | append_singleton steps step ih => exact ih.step step

/-- **Reserved tables are met only behind stored queries.**  After any history, go from an alias in the
    store through what it was made from.  Whatever is met has exactly one origin; no alias that is met
    names a reserved table; and the alias points at a reserved table exactly if a stored query is met that
    names one in its own clauses. -/
theorem reserved_only_behind_queries (settings : Settings) (schema : Schema) (steps : List Step) :
    let made := (fresh settings schema .empty).made steps
    ∀ e ∈ ((fresh settings schema .empty).run steps).store.aliases.rows,
      (∀ x, Leads made (.aliased e) x → ∃! o, (x, o) ∈ made) ∧
      (∀ a o, Leads made (.aliased e) (.aliased a) → (.aliased a, o) ∈ made → ∀ table ∈ o.tables,
        settings.isReserved table = false) ∧
      ((∃ table, PointsAt made (.aliased e) table ∧ settings.isReserved table = true) ↔
        ∃ q o, Leads made (.aliased e) (.query q) ∧ (.query q, o) ∈ made ∧
          ∃ table ∈ o.tables, settings.isReserved table = true) := by
  intro made e he
  have hdocumented := run_documented settings schema steps
  have hmade : ∃ o, (Item.aliased e, o) ∈ made :=
    Past.has_ofMade (x := .aliased e) (hdocumented.coherent.aliases.kept.subset he)
  refine ⟨fun x hx => ?_, fun a o _ ha => hdocumented.free a o ha, ?_, ?_⟩
  · obtain ⟨o, ho⟩ := hdocumented.leads hx hmade
    exact ⟨o, ho, fun o' ho' => hdocumented.unique ho' ho⟩
  · rintro ⟨table, ⟨y, o, hy, ho, htable⟩, hreserved⟩
    cases y with
    | aliased a =>
      -- no alias names a reserved table itself
      have hfree : settings.isReserved table = false := hdocumented.free a o ho table htable
      rw [hreserved] at hfree
      cases hfree
    | query q => exact ⟨q, o, hy, ho, table, htable, hreserved⟩
  · rintro ⟨q, o, hq, ho, table, htable, hreserved⟩
    exact ⟨table, ⟨.query q, o, hq, ho, htable⟩, hreserved⟩

/-! ## A query in between -/

/-- Names the orders and their totals, stores a query that filters them by a column of a reserved table,
    and names that query as a value. -/
def leakSteps : List Step :=
  [ .request 1 (.createAlias ⟨"orders", .expr (.table "orders")⟩),
    .request 1 (.createAlias ⟨"total", .expr (.column "orders" "total")⟩),
    .request 1 (.createQuery "peek"
      { select := ⟨.list [.aliased (.name "total")], .aliased (.name "orders"), none⟩
        filter := some (.isNull (.column "__users__" "password") false)
        groups := none
        having := none
        order := none
        limit := none }),
    .request 1 (.createAlias ⟨"leak", .expr (.subquery (.name "peek"))⟩) ]

/-- The query in between. -/
def peek : StoredQuery :=
  ⟨1, ⟨1, "peek",
    "SELECT `orders`.`total` AS `total` FROM `orders` WHERE (`__users__`.`password` IS NULL);", 1⟩⟩

/-- The alias that embeds it. -/
def leak : Alias :=
  ⟨3, ⟨1, "leak",
    "(SELECT `orders`.`total` AS `total` FROM `orders` WHERE (`__users__`.`password` IS NULL) LIMIT 1)",
    false, false⟩⟩

/-- What the query in between was made from. -/
def peekOrigin : Origin where
  tables := ["__users__"]
  items :=
    [.aliased ⟨1, ⟨1, "orders", "`orders`", true, false⟩⟩,
      .aliased ⟨2, ⟨1, "total", "`orders`.`total`", false, false⟩⟩]

/-- The alias is stored, and its origin is the query and no table. -/
theorem leak_made :
    leak ∈ ((fresh .standard Sample.schema .empty).run leakSteps).store.aliases.rows ∧
      (.aliased leak, ⟨[], [.query peek]⟩) ∈ (fresh .standard Sample.schema .empty).made leakSteps ∧
      (.query peek, peekOrigin) ∈ (fresh .standard Sample.schema .empty).made leakSteps := by
  decide +kernel

/-- An alias in the store may point at a reserved table. -/
theorem reserved_behind_query :
    leak ∈ ((fresh .standard Sample.schema .empty).run leakSteps).store.aliases.rows ∧
      PointsAt ((fresh .standard Sample.schema .empty).made leakSteps) (.aliased leak) "__users__" ∧
      Settings.standard.isReserved "__users__" = true := by
  obtain ⟨hstored, hleak, hpeek⟩ := leak_made
  refine ⟨hstored, ⟨.query peek, peekOrigin, ?_, hpeek, List.mem_singleton_self _⟩, by decide⟩
  exact .step hleak (List.mem_singleton_self _) (.refl _)

/-- The stored alias points at a reserved table, by way of the query. -/
theorem reserved_only_behind_peek :
    let made := (fresh .standard Sample.schema .empty).made leakSteps
    leak ∈ ((fresh .standard Sample.schema .empty).run leakSteps).store.aliases.rows ∧
      (∃! o, (Item.query peek, o) ∈ made) ∧
      ∃ table, PointsAt made (.aliased leak) table ∧ Settings.standard.isReserved table = true := by
  intro made
  obtain ⟨hstored, hleak, hpeek⟩ := leak_made
  have hleads : Leads made (.aliased leak) (.query peek) :=
    .step hleak (List.mem_singleton_self _) (.refl _)
  obtain ⟨hunique, -, hreserved⟩ :=
    reserved_only_behind_queries .standard Sample.schema leakSteps leak hstored
  refine ⟨hstored, hunique _ hleads, hreserved.mpr ⟨peek, peekOrigin, hleads, hpeek, ?_⟩⟩
  exact ⟨"__users__", List.mem_singleton_self _, by decide⟩

end Catalog

end QueryCatalog
