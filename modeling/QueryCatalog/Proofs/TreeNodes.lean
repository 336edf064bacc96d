/-
  The nodes of resolved trees.

  Most nodes of a resolved tree only hold its parts together.  The others are calls, which name a
  function, and the places where an entity stands.  `nodes` lists these from left to right, through
  every operand, argument, branch and item, and clause by clause for a query; a stored query is one
  node, whatever its statement is.

  What is known of a tree through its nodes is all that the other modules need of it: a tree over known
  entities has known entities at its nodes (`Expr.node_uses`), and a tree is an aggregate exactly if
  one of its nodes is (`Expr.isAggregate_eq`).
-/
import QueryCatalog.Proofs.ResolveWalk

namespace QueryCatalog.Sql

/-- A value or a condition. -/
inductive Phrase where
  | expr (value : Expr)
  | cond (condition : Cond)

/-- A node that calls a function or at which an entity stands. -/
inductive Node where
  | call (function : SqlFunction)
  /-- An alias as a value, as a condition or as an item of a select list. -/
  | operand (target : Alias)
  /-- An alias as a source of rows. -/
  | table (target : Alias)
  /-- A stored query as a single value. -/
  | scalar (subquery : ScalarSubquery)
  /-- A stored query in a membership test. -/
  | member (query : StoredQuery)
  /-- A stored query in a test for rows. -/
  | existence (query : StoredQuery)
  /-- A stored query as a source of rows. -/
  | source (query : StoredQuery)

/-! ## Nodes of trees -/

mutual

/-- The nodes of the value, from left to right. -/
def Expr.nodes : Expr → List Node
  | .literal _ => []
  | .binary left _ right => left.nodes ++ right.nodes
  | .call function args => .call function :: nodesOfArgs args
  | .interval _ _ => []
  | .conditional branches otherwise => nodesOfBranches branches ++ otherwise.nodes
  | .column _ _ => []
  | .aliased target => [.operand target]
  | .subquery subquery => [.scalar subquery]

/-- The nodes of the argument. -/
def Arg.nodes : Arg → List Node
  | .star => []
  | .expr value => value.nodes

/-- The nodes of the branch. -/
def Branch.nodes : Branch → List Node
  | .mk condition result => condition.nodes ++ result.nodes

/-- The nodes of the truth value, from left to right. -/
def Cond.nodes : Cond → List Node
  | .negation operand => operand.nodes
  | .connective left _ right => left.nodes ++ right.nodes
  | .comparison left _ right => left.nodes ++ right.nodes
  | .between value lower upper _ => value.nodes ++ lower.nodes ++ upper.nodes
  | .isNull value _ => value.nodes
  | .member value source _ => value.nodes ++ source.nodes
  | .existence query _ => [.existence query]
  | .aliased target => [.operand target]

/-- The nodes of the source. -/
def MemberSource.nodes : MemberSource → List Node
  | .list items => nodesOfExprs items
  | .query query => [.member query]

/-- The nodes of some values. -/
def nodesOfExprs : List Expr → List Node
  | [] => []
  | e :: es => e.nodes ++ nodesOfExprs es

/-- The nodes of some arguments. -/
def nodesOfArgs : List Arg → List Node
  | [] => []
  | a :: as => a.nodes ++ nodesOfArgs as

/-- The nodes of some branches. -/
def nodesOfBranches : List Branch → List Node
  | [] => []
  | b :: bs => b.nodes ++ nodesOfBranches bs

end

/-- The nodes of the phrase. -/
def Phrase.nodes : Phrase → List Node
  | .expr value => value.nodes
  | .cond condition => condition.nodes

/-- The phrase as it stands in a statement. -/
def Phrase.render : Phrase → String
  | .expr value => value.render
  | .cond condition => condition.render

/-- Whether the phrase is an aggregate. -/
def Phrase.isAggregate : Phrase → Bool
  | .expr value => value.isAggregate
  | .cond condition => condition.isAggregate

/-! ## Nodes of queries -/

/-- The source as a node. -/
def Source.node : Source → Node
  | .table target => .table target
  | .subquery query => .source query

/-- The item as a node. -/
def SelectItem.node : SelectItem → Node
  | .aliased target => .operand target
  | .subquery s => .scalar s

/-- The nodes of a select list. -/
def Columns.nodes : Columns → List Node
  | .all => []
  | .list items => items.map SelectItem.node

/-- The nodes of a join. -/
def Join.nodes (j : Join) : List Node := j.source.node :: j.condition.nodes

/-- The nodes of an order. -/
def nodesOfOrder (items : List OrderItem) : List Node := items.flatMap fun item => item.operand.nodes

/-- The nodes in a clause of the query, none if the clause is absent; the first source belongs to the
    select list. -/
def Query.nodes (q : Query) : Clause → List Node
  | .select => q.select.source.node :: q.select.columns.nodes
  | .join => (q.select.join.map Join.nodes).getD []
  | .filter => (q.filter.map Cond.nodes).getD []
  | .groups => (q.groups.map nodesOfExprs).getD []
  | .having => (q.having.map Cond.nodes).getD []
  | .order => (q.order.map nodesOfOrder).getD []

/-! ## Known entities -/

/-- The entity at the node is a known one that may stand there. -/
def Node.Uses (k : Known) : Node → Prop
  | .call _ => True
  | .operand target => k.Operand target
  | .table target => k.Table target
  | .scalar subquery => k.Scalar subquery
  | .member query => k.Member query
  | .existence query => k.query query
  | .source query => k.query query

section Uses

variable {k : Known}

mutual

/-- In a value over known entities, the entities at the nodes are known. -/
theorem Expr.node_uses : ∀ e : Expr, e.Uses k → ∀ node ∈ e.nodes, node.Uses k
  | .literal _, _ => fun _ h => absurd h List.not_mem_nil
  | .binary left _ right, ⟨hleft, hright⟩ =>
    List.forall_mem_append.mpr ⟨left.node_uses hleft, right.node_uses hright⟩
  | .call _ args, hargs => List.forall_mem_cons.mpr ⟨trivial, nodesOfArgs_uses args hargs⟩
  | .interval _ _, _ => fun _ h => absurd h List.not_mem_nil
  | .conditional branches otherwise, ⟨hbranches, hotherwise⟩ =>
    List.forall_mem_append.mpr
      ⟨nodesOfBranches_uses branches hbranches, otherwise.node_uses hotherwise⟩
  | .column _ _, _ => fun _ h => absurd h List.not_mem_nil
  | .aliased _, htarget => List.forall_mem_singleton.mpr htarget
  | .subquery _, hscalar => List.forall_mem_singleton.mpr hscalar

theorem Arg.node_uses : ∀ a : Arg, a.Uses k → ∀ node ∈ a.nodes, node.Uses k
  | .star, _ => fun _ h => absurd h List.not_mem_nil
  | .expr value, hvalue => value.node_uses hvalue

theorem Branch.node_uses : ∀ b : Branch, b.Uses k → ∀ node ∈ b.nodes, node.Uses k
  | .mk condition result, ⟨hcondition, hresult⟩ =>
    List.forall_mem_append.mpr ⟨condition.node_uses hcondition, result.node_uses hresult⟩

/-- In a condition over known entities, the entities at the nodes are known. -/
theorem Cond.node_uses : ∀ c : Cond, c.Uses k → ∀ node ∈ c.nodes, node.Uses k
  | .negation operand, hoperand => operand.node_uses hoperand
  | .connective left _ right, ⟨hleft, hright⟩ =>
    List.forall_mem_append.mpr ⟨left.node_uses hleft, right.node_uses hright⟩
  | .comparison left _ right, ⟨hleft, hright⟩ =>
    List.forall_mem_append.mpr ⟨left.node_uses hleft, right.node_uses hright⟩
  | .between value lower upper _, ⟨hvalue, hlower, hupper⟩ =>
    List.forall_mem_append.mpr
      ⟨List.forall_mem_append.mpr ⟨value.node_uses hvalue, lower.node_uses hlower⟩,
        upper.node_uses hupper⟩
  | .isNull value _, hvalue => value.node_uses hvalue
  | .member value source _, ⟨hvalue, hsource⟩ =>
    List.forall_mem_append.mpr ⟨value.node_uses hvalue, source.node_uses hsource⟩
  | .existence _ _, hquery => List.forall_mem_singleton.mpr hquery
  | .aliased _, htarget => List.forall_mem_singleton.mpr htarget

theorem MemberSource.node_uses : ∀ s : MemberSource, s.Uses k → ∀ node ∈ s.nodes, node.Uses k
  | .list items, hitems => nodesOfExprs_uses items hitems
  | .query _, hmember => List.forall_mem_singleton.mpr hmember

theorem nodesOfExprs_uses : ∀ es : List Expr, usesExprs k es → ∀ node ∈ nodesOfExprs es, node.Uses k
  | [], _ => fun _ h => absurd h List.not_mem_nil
  | e :: es, ⟨he, hes⟩ => List.forall_mem_append.mpr ⟨e.node_uses he, nodesOfExprs_uses es hes⟩

theorem nodesOfArgs_uses : ∀ as : List Arg, usesArgs k as → ∀ node ∈ nodesOfArgs as, node.Uses k
  | [], _ => fun _ h => absurd h List.not_mem_nil
  | a :: as, ⟨ha, has⟩ => List.forall_mem_append.mpr ⟨a.node_uses ha, nodesOfArgs_uses as has⟩

theorem nodesOfBranches_uses :
    ∀ bs : List Branch, usesBranches k bs → ∀ node ∈ nodesOfBranches bs, node.Uses k
  | [], _ => fun _ h => absurd h List.not_mem_nil
  | b :: bs, ⟨hb, hbs⟩ => List.forall_mem_append.mpr ⟨b.node_uses hb, nodesOfBranches_uses bs hbs⟩

end

/-- The phrase is built over known entities. -/
def Phrase.Uses (k : Known) : Phrase → Prop
  | .expr value => value.Uses k
  | .cond condition => condition.Uses k

/-- A phrase of known entities has nodes of known entities. -/
theorem Phrase.node_uses {p : Phrase} (h : p.Uses k) : ∀ node ∈ p.nodes, node.Uses k := by
  cases p with
  | expr value => exact value.node_uses h
  | cond condition => exact condition.node_uses h

theorem Source.node_uses {s : Source} (h : s.Uses k) : s.node.Uses k := by
  cases s with
  | table target => exact h
  | subquery query => exact h

theorem Columns.node_uses {c : Columns} (h : c.Uses k) : ∀ node ∈ c.nodes, node.Uses k := by
  cases c with
  | all => exact fun _ hnode => absurd hnode List.not_mem_nil
  | list items =>
    refine List.forall_mem_map.mpr fun item hitem => ?_
    have hitem := h item hitem
    cases item with
    | aliased target => exact hitem
    | subquery subquery => exact hitem

/-- The nodes of an absent clause are none, those of a present one are its own. -/
theorem forall_mem_optional {α : Type} {nodes : α → List Node} {a : Option α} {P : Node → Prop}
    (h : ∀ x ∈ a, ∀ node ∈ nodes x, P node) : ∀ node ∈ (a.map nodes).getD [], P node := by
  cases a with
  | none => exact fun _ hnode => absurd hnode List.not_mem_nil
  | some x => exact h x rfl

/-- In a query over known entities, the entities at the nodes of every clause are known. -/
theorem Query.node_uses {q : Query} (h : q.Uses k) (clause : Clause) :
    ∀ node ∈ q.nodes clause, node.Uses k := by
  obtain ⟨hsource, hjoin, hcolumns⟩ := h.select
  cases clause with
  | select => exact List.forall_mem_cons.mpr ⟨Source.node_uses hsource, Columns.node_uses hcolumns⟩
  | join =>
    refine forall_mem_optional fun j hj => ?_
    obtain ⟨hsource, hcondition⟩ := hjoin j hj
    exact List.forall_mem_cons.mpr ⟨Source.node_uses hsource, j.condition.node_uses hcondition⟩
  | filter => exact forall_mem_optional fun c hc => c.node_uses (h.filter c hc)
  | groups => exact forall_mem_optional fun es hes => nodesOfExprs_uses es (h.groups es hes)
  | having => exact forall_mem_optional fun c hc => c.node_uses (h.having c hc)
  | order =>
    refine forall_mem_optional fun items hitems node hnode => ?_
    obtain ⟨item, hitem, hnode⟩ := List.mem_flatMap.mp hnode
    exact item.operand.node_uses (h.order items hitems item hitem) node hnode

end Uses

/-! ## Aggregates -/

/-- Whether the node is an aggregate: the call of an aggregate function, or an alias that is flagged. -/
def Node.isAggregate : Node → Bool
  | .call function => function.isAggregate
  | .operand target => target.body.isAggregate
  | _ => false

mutual

/-- A value is an aggregate if one of its nodes is. -/
theorem Expr.isAggregate_eq : ∀ e : Expr, e.isAggregate = e.nodes.any Node.isAggregate
  | .literal _ => rfl
  | .binary left _ right => by
    simp only [Expr.isAggregate, Expr.nodes, List.any_append, left.isAggregate_eq,
      right.isAggregate_eq]
  | .call _ args => by
    simp only [Expr.isAggregate, Expr.nodes, List.any_cons, anyArg_eq args, Node.isAggregate]
  | .interval _ _ => rfl
  | .conditional branches otherwise => by
    simp only [Expr.isAggregate, Expr.nodes, List.any_append, anyBranch_eq branches,
      otherwise.isAggregate_eq]
  | .column _ _ => rfl
  | .aliased _ => (Bool.or_false _).symm
  | .subquery _ => rfl

theorem Arg.isAggregate_eq : ∀ a : Arg, a.isAggregate = a.nodes.any Node.isAggregate
  | .star => rfl
  | .expr value => value.isAggregate_eq

theorem Branch.isAggregate_eq : ∀ b : Branch, b.isAggregate = b.nodes.any Node.isAggregate
  | .mk condition result => by
    simp only [Branch.isAggregate, Branch.nodes, List.any_append, condition.isAggregate_eq,
      result.isAggregate_eq]

/-- A condition is an aggregate if one of its nodes is. -/
theorem Cond.isAggregate_eq : ∀ c : Cond, c.isAggregate = c.nodes.any Node.isAggregate
  | .negation operand => operand.isAggregate_eq
  | .connective left _ right => by
    simp only [Cond.isAggregate, Cond.nodes, List.any_append, left.isAggregate_eq,
      right.isAggregate_eq]
  | .comparison left _ right => by
    simp only [Cond.isAggregate, Cond.nodes, List.any_append, left.isAggregate_eq,
      right.isAggregate_eq]
  | .between value lower upper _ => by
    simp only [Cond.isAggregate, Cond.nodes, List.any_append, value.isAggregate_eq,
      lower.isAggregate_eq, upper.isAggregate_eq]
  | .isNull value _ => value.isAggregate_eq
  | .member value source _ => by
    simp only [Cond.isAggregate, Cond.nodes, List.any_append, value.isAggregate_eq,
      source.isAggregate_eq]
  | .existence _ _ => rfl
  | .aliased _ => (Bool.or_false _).symm

theorem MemberSource.isAggregate_eq :
    ∀ s : MemberSource, s.isAggregate = s.nodes.any Node.isAggregate
  | .list items => anyExpr_eq items
  | .query _ => rfl

/-- Some values hold an aggregate if one of their nodes is one. -/
theorem anyExpr_eq : ∀ es : List Expr, anyExpr es = (nodesOfExprs es).any Node.isAggregate
  | [] => rfl
  | e :: es => by simp only [anyExpr, nodesOfExprs, List.any_append, e.isAggregate_eq, anyExpr_eq es]

theorem anyArg_eq : ∀ as : List Arg, anyArg as = (nodesOfArgs as).any Node.isAggregate
  | [] => rfl
  | a :: as => by simp only [anyArg, nodesOfArgs, List.any_append, a.isAggregate_eq, anyArg_eq as]

theorem anyBranch_eq : ∀ bs : List Branch, anyBranch bs = (nodesOfBranches bs).any Node.isAggregate
  | [] => rfl
  | b :: bs => by
    simp only [anyBranch, nodesOfBranches, List.any_append, b.isAggregate_eq, anyBranch_eq bs]

end

/-- A phrase is an aggregate if one of its nodes is one. -/
theorem Phrase.isAggregate_eq (p : Phrase) : p.isAggregate = p.nodes.any Node.isAggregate := by
  cases p with
  | expr value => exact value.isAggregate_eq
  | cond condition => exact condition.isAggregate_eq

end QueryCatalog.Sql
