/-
  Aggregates stand where they may stand.

  Whether something is an aggregate is decided by flags, and flags are computed once and then trusted.
  `Expansion` shows that what is seen of flags at the nodes of a tree tells of its whole expansion, and
  `PlacementChecks` where queries are refused.  Here both come together: of a clause, what is seen at
  its nodes is what was checked (`Query.any_nodes`), and so the clauses that the flag of a query
  leaves out have nothing to add to it (`Placed.isAggregate_eq`).

  `aggregates_placed` says this of all that a catalog holds and of all that it resolves.
-/
import QueryCatalog.Proofs.PlacementChecks
import QueryCatalog.Sample

namespace QueryCatalog

/-! ## Flags of clauses -/

namespace Sql

/-- Whether a clause of the query holds an aggregate. -/
def Query.isAggregateIn (q : Query) : Clause → Bool
  | .select => q.select.isAggregate
  | .join => q.select.join.any Join.isAggregate
  | .filter => q.filter.any Cond.isAggregate
  | .groups => q.groups.any anyExpr
  | .having => q.having.any Cond.isAggregate
  | .order => q.order.any isAggregateOrder

theorem any_optional {α : Type} {nodes : α → List Node} {flag : α → Bool}
    (h : ∀ x, (nodes x).any Node.isAggregate = flag x) (a : Option α) :
    ((a.map nodes).getD []).any Node.isAggregate = a.any flag := by
  cases a with
  | none => rfl
  | some x => exact h x

/-- A source is no aggregate, whatever its statement does. -/
theorem Source.isAggregate_node (s : Source) : s.node.isAggregate = false := by
  cases s with
  | table target => rfl
  | subquery query => rfl

/-- The flag of a select list says what is seen at its nodes. -/
theorem Columns.any_nodes (s : Select) : s.columns.nodes.any Node.isAggregate = s.isAggregate := by
  rw [Select.isAggregate]
  cases s.columns with
  | all => rfl
  | list items =>
    have hitem : ∀ item : SelectItem, item.node.isAggregate = item.isAggregate := by
      intro item
      cases item with
      | aliased target => rfl
      | subquery s => rfl
    rw [Columns.nodes, List.any_map]
    exact congrArg items.any (funext hitem)

/-- What is seen at the nodes of a clause. -/
theorem Query.any_nodes (q : Query) (clause : Clause) :
    (q.nodes clause).any Node.isAggregate = q.isAggregateIn clause := by
  cases clause with
  | select =>
    rw [Query.nodes, List.any_cons, Source.isAggregate_node, Bool.false_or]
    exact Columns.any_nodes q.select
  | join =>
    refine any_optional (fun j => ?_) q.select.join
    rw [Join.nodes, List.any_cons, Source.isAggregate_node, Bool.false_or]
    exact j.condition.isAggregate_eq.symm
  | filter => exact any_optional (fun c => c.isAggregate_eq.symm) q.filter
  | groups => exact any_optional (fun es => (anyExpr_eq es).symm) q.groups
  | having => exact any_optional (fun c => c.isAggregate_eq.symm) q.having
  | order =>
    refine any_optional (fun items => ?_) q.order
    rw [nodesOfOrder, List.any_flatMap, isAggregateOrder]
    exact congrArg items.any (funext fun item => item.operand.isAggregate_eq.symm)

/-- No aggregate stands where none may stand. -/
def Query.Placed (q : Query) : Prop :=
  ∀ clause, clause.allowsAggregates = false → q.isAggregateIn clause = false

/-- The nodes of all clauses, in the order of the statement. -/
def Query.allNodes (q : Query) : List Node :=
  [Clause.select, .join, .filter, .groups, .having, .order].flatMap q.nodes

/-- Every node stands in one of the clauses. -/
theorem Query.forall_mem_allNodes {q : Query} {P : Node → Prop}
    (h : ∀ clause, ∀ node ∈ q.nodes clause, P node) : ∀ node ∈ q.allNodes, P node := by
  intro node hnode
  obtain ⟨clause, -, hnode⟩ := List.mem_flatMap.mp hnode
  exact h clause node hnode

/-- Where aggregates are placed, the clauses that are not looked at have none. -/
theorem Query.Placed.isAggregate_eq {q : Query} (h : q.Placed) :
    q.isAggregate = q.allNodes.any Node.isAggregate := by
  have hjoin := h .join rfl
  have hfilter := h .filter rfl
  have hgroups := h .groups rfl
  rw [allNodes, List.any_flatMap]
  simp only [any_nodes, List.any_cons, List.any_nil, hjoin, hfilter, hgroups, Bool.false_or,
    Bool.or_false]
  rw [isAggregate, Bool.or_assoc]
  rfl

end Sql

theorem any_eq_false_of_mem {α : Type} {a : Option α} {flag : α → Bool}
    (h : ∀ x ∈ a, flag x = false) : a.any flag = false := by
  cases a with
  | none => rfl
  | some x => exact h x rfl

/-- A query that is resolved has passed all checks. -/
theorem Resolve.query_placed {look : Lookups Cache.Fetching} (input : Input.Query) :
    Gives Sql.Query.Placed (query look input) := by
  refine (select_gives input.select).bind fun s hjoin => ?_
  refine (Gives.optional fun c _ => filter_gives c).bind fun f hfilter => ?_
  refine (Gives.optional fun es _ => groups_gives es).bind fun g hgroups => ?_
  refine (Gives.any _).bind fun having _ => (Gives.any _).bind fun order _ => .pure ?_
  intro clause hclause
  cases clause with
  | join => exact any_eq_false_of_mem hjoin
  | filter => exact any_eq_false_of_mem hfilter
  | groups => exact any_eq_false_of_mem hgroups
  | select => cases hclause
  | having => cases hclause
  | order => cases hclause

/-! ## Aggregates in expansions -/

/-- The functions that combine the rows of a group. -/
def aggregateFunctions : List SqlFunction := [.avg, .sum, .max, .min, .count]

/-- The functions that are checked for are those. -/
theorem isAggregate_iff_mem (f : SqlFunction) : f.isAggregate = true ↔ f ∈ aggregateFunctions := by
  cases f <;> decide

/-- `Tells built nodes flag`: a tree that has these nodes has an expansion, and the flag tells whether an
    aggregate function is called in it. -/
def Sql.Tells (built : Alias → Sql.Phrase → Prop) (nodes : List Sql.Node) (flag : Bool) : Prop :=
  (∃ functions, Sql.Expands built nodes functions) ∧
    ∀ functions, Sql.Expands built nodes functions →
      (flag = true ↔ ∃ f ∈ functions, f ∈ aggregateFunctions)

/-- At most one flag tells of an expansion. -/
theorem Sql.Tells.flag_eq {built : Alias → Sql.Phrase → Prop} {nodes : List Sql.Node}
    {flag flag' : Bool} (h : Sql.Tells built nodes flag) (h' : Sql.Tells built nodes flag') :
    flag = flag' := by
  obtain ⟨functions, hexpands⟩ := h.1
  exact Bool.eq_iff_iff.mpr ((h.2 functions hexpands).trans (h'.2 functions hexpands).symm)

namespace Catalog

/-- The catalog has the alias, in its store or in a live record of its cache. -/
def Holds (c : Catalog) (e : Alias) : Prop :=
  e ∈ c.store.aliases.rows ∨
    ∃ id owner name bytes,
      c.traffic.records.get? c.now (Cache.objectKey .aliased id owner name) = some bytes ∧
      Cache.entity? bytes = some e

/-- What a catalog has belongs to its past. -/
theorem Coherent.mem_of_holds {c : Catalog} {past : Past} (h : c.Coherent past) {e : Alias}
    (he : c.Holds e) : e ∈ past.aliases := by
  rcases he with he | ⟨id, owner, name, bytes, hget, hentity⟩
  · exact h.aliases.kept.subset he
  · obtain ⟨e', hmem, hrecord⟩ := h.backs.aliases c.now (Nat.le_refl _) _ bytes hget
      (.inl ⟨id, owner, name, rfl⟩)
    let bearer : Alias := ⟨id, ⟨owner, name, "", false, false⟩⟩
    have hkey : Cache.objectKey .aliased id owner name = Cache.objectKeyOf bearer := rfl
    rw [hkey] at hrecord
    obtain ⟨hbytes, -⟩ := Cache.written_of_mem hrecord
    rw [hbytes, Cache.LawfulCached.entity?_written] at hentity
    rw [← Option.some.inj hentity]
    exact hmem

/-- Tables are no aggregates. -/
def tableLaw (access : TableAccess) : EntityLaw access where
  aliased body := body.isTable = true → body.isAggregate = false
  query _ := True
  ofBuilt h := by
    cases h with
    | table _ => exact fun _ => rfl
    | expr _ _ => exact fun h => by cases h
    | cond _ _ => exact fun h => by cases h
  ofQuery _ := trivial

/-- After any history, what is seen at the nodes of a tree tells of its expansion. -/
theorem tells_of_expands {settings : Settings} {schema : Schema} {steps : List Step}
    {nodes : List Sql.Node}
    (h : ∃ functions, Sql.Expands ((fresh settings schema .empty).BuiltFrom steps) nodes functions) :
    Sql.Tells ((fresh settings schema .empty).BuiltFrom steps) nodes
      (nodes.any Sql.Node.isAggregate) := by
  refine ⟨h, fun functions hexpands => ?_⟩
  rw [hexpands.any_eq fun e p hbuilt => run_truthful settings schema steps hbuilt, List.any_eq_true]
  simp only [isAggregate_iff_mem]

/-- **Aggregates are flagged and placed.**  After any requests of any owners: the flag of an alias tells,
    wherever the catalog has it, whether an aggregate function is called in its expansion; in a query
    that is resolved none is called in the expansions of the join, the filter and the grouping, and
    the flag of the query tells whether one is called in any clause; and a query is refused for an aggregate
    in a clause exactly if resolving comes there to a tree in whose expansion one is called. -/
theorem aggregates_placed (settings : Settings) (schema : Schema) (steps : List Step) :
    let start := fresh settings schema .empty
    let c := start.run steps
    let built := start.BuiltFrom steps
    (∀ e, c.Holds e →
      (e.body.isTable = true → e.body.isAggregate = false) ∧
      (e.body.isTable = false →
        (∃ p, built e p) ∧ ∀ p, built e p → Sql.Tells built p.nodes e.body.isAggregate)) ∧
    ∀ (owner : Owner) (input : Input.Query),
      let result := ((resolving owner fun look => Resolve.query look input).run c).1
      (∀ q, result = .ok q →
        (∀ clause ∈ [Clause.join, .filter, .groups], Sql.Tells built (q.nodes clause) false) ∧
        Sql.Tells built q.allNodes q.isAggregate) ∧
      ∀ clause, result = .error (.misplacedAggregate clause) ↔
        ∃ p, Resolve.Reaches (Cache.lookups c.backing owner) c.traffic input clause p ∧
          Sql.Tells built p.nodes true := by
  intro start c built
  obtain ⟨past, hexpanded⟩ := run_expanded settings schema steps
  have hcoherent : c.Coherent past := hexpanded.coherent
  refine ⟨fun e he => ⟨fun htable => ?_, fun hplain => ⟨?_, fun p hbuilt => ?_⟩⟩, fun owner input => ?_⟩
  · -- what is held was stored at some time, so that the laws of the past speak of it
    exact (hcoherent.lawful (tableLaw _)).aliases e (hcoherent.mem_of_holds he) htable
  · obtain ⟨p, -, hbuilt, -⟩ := hexpanded.expansion e (hcoherent.mem_of_holds he) hplain
    exact ⟨p, hbuilt⟩
  · have htells := tells_of_expands hbuilt.exists_expands
    rw [← p.isAggregate_eq, ← run_truthful settings schema steps hbuilt] at htells
    exact htells
  · intro result
    have hresult : result = ((Resolve.query (Cache.lookups c.backing owner) input).run c.traffic).1 := by
      show ((resolving owner fun look => Resolve.query look input).run c).1 = _
      rw [resolving, fetching_run]
    have hfetchable := hcoherent.fetchable owner
    refine ⟨fun q hq => ?_, fun clause => ?_⟩
    · rw [hresult] at hq
      obtain ⟨-, -, hwalk⟩ := Resolve.query_agrees (Cache.lookups_between hfetchable) input
        c.traffic c.traffic ⟨rfl, .refl⟩
      -- every alias at a node can be expanded, since the owner could fetch it
      have hnodes := Sql.Query.node_uses (hwalk q hq).1
      have hplaced : q.Placed := Resolve.query_placed input c.traffic q hq
      constructor
      · intro clause hclause
        have htells := tells_of_expands (hexpanded.exists_expands (hnodes clause))
        have hallowed : clause.allowsAggregates = false := by
          simp only [List.mem_cons, List.not_mem_nil, or_false] at hclause
          rcases hclause with rfl | rfl | rfl <;> rfl
        rw [q.any_nodes, hplaced clause hallowed] at htells
        exact htells
      · have hall := Sql.Query.forall_mem_allNodes hnodes
        have htells := tells_of_expands (hexpanded.exists_expands hall)
        rw [← hplaced.isAggregate_eq] at htells
        exact htells
    · -- fetches blame no aggregate, so whoever does is the check of a clause, at some tree
      have hlenient := Cache.lenient_lookups (b := c.backing) hcoherent.up owner
      have hmisplaces :
          Misplaces (Resolve.query (Cache.lookups c.backing owner) input) c.traffic clause ↔ _ :=
        Resolve.query_misplaces_iff hlenient input
      rw [hresult]
      refine hmisplaces.trans (exists_congr fun p => and_congr_right fun hreaches => ?_)
      have hnodes := Sql.Phrase.node_uses (hreaches.uses hfetchable)
      have htells := tells_of_expands (hexpanded.exists_expands hnodes)
      rw [← p.isAggregate_eq] at htells
      constructor
      · intro haggregate
        rw [haggregate] at htells
        exact htells
      · intro htrue
        exact Sql.Tells.flag_eq htells htrue

/-! ## An aggregate behind an alias -/

/-- Names the orders, their revenue, and twice that: an aggregate that shows none in its own tree. -/
def doubledSteps : List Step :=
  [ .request 1 (.createAlias ⟨"orders", .expr (.table "orders")⟩),
    .request 1 (.createAlias ⟨"revenue", .expr (.call "SUM" [.expr (.column "orders" "total")])⟩),
    .request 1 (.createAlias
      ⟨"doubled", .expr (.binary (.literal (.int 2)) "*" (.aliased (.name "revenue")))⟩) ]

/-- The third of them. -/
def doubled : Alias := ⟨3, ⟨1, "doubled", "(2 * SUM(`orders`.`total`))", false, true⟩⟩

/-- Filters the orders by it. -/
def filteredByDoubled : Input.Query where
  select := ⟨.all, .aliased (.name "orders"), none⟩
  filter := some (.isNull (.aliased (.id 3)) false)
  groups := none
  having := none
  order := none
  limit := none

/-- The alias is flagged for what it expands to, and the filter by it is refused. -/
theorem aggregates_placed_behind_alias :
    let start := fresh .standard Sample.schema .empty
    let c := start.run doubledSteps
    let built := start.BuiltFrom doubledSteps
    (c.Holds doubled ∧ (∃ p, built doubled p) ∧
      ∀ p, built doubled p → Sql.Tells built p.nodes true) ∧
    ((resolving 1 fun look => Resolve.query look filteredByDoubled).run c).1 =
      .error (.misplacedAggregate .filter) ∧
    ∃ p, Resolve.Reaches (Cache.lookups c.backing 1) c.traffic filteredByDoubled .filter p ∧
      Sql.Tells built p.nodes true := by
  intro start c built
  -- a resolved query cannot be compared, but that there is none can be seen without it
  have hrun : doubled ∈ c.store.aliases.rows ∧
      ((resolving 1 fun look => Resolve.query look filteredByDoubled).run c).1.map (fun _ => ()) =
        .error (.misplacedAggregate .filter) := by
    decide +kernel
  have hholds : c.Holds doubled := .inl hrun.1
  have herror : ((resolving 1 fun look => Resolve.query look filteredByDoubled).run c).1 =
      .error (.misplacedAggregate .filter) := eq_error_of_map hrun.2
  obtain ⟨hflags, hqueries⟩ := aggregates_placed .standard Sample.schema doubledSteps
  exact ⟨⟨hholds, (hflags doubled hholds).2 rfl⟩, herror,
    ((hqueries 1 filteredByDoubled).2 .filter).mp herror⟩

end Catalog

end QueryCatalog
