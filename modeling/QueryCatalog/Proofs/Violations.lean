/-
  What is wrong with a request, and what of it is reported.

  1. **Violations.**  `violations` walks a request and lists everything that is wrong with it, given what
     the owner has.  It resolves nothing and stops nowhere: a node adds its own violation, if it has one,
     and then come those of its parts, in the order in which the request is read.

  2. **Reports.**  Resolving reports the first of them, and fails only if there is one (`Reports`).  Of a
     computation made of steps this holds if it holds of each step, with the violations put one
     after the other (`Reports.bind`); that is the whole induction over trees and clauses.

  3. **The crux** is the placement of aggregates, which is checked on what was resolved.  So the
     induction carries a second fact: what is resolved is an aggregate exactly if the request was
     one, as far as that can be seen from the names of functions and the flags of aliases.

  `resolve_reports_first` is this for a catalog: while nothing is deleted, the cache is not seen, and
  what the owner has is what the store holds.
-/
import QueryCatalog.Proofs.Transparency

namespace QueryCatalog

/-- What an owner has under each reference. -/
structure Holdings where
  aliased : Lookup → Option Alias
  query : Lookup → Option StoredQuery

/-- The rows of a store that belong to an owner. -/
def Store.holdings (s : Store) (owner : Owner) : Holdings where
  aliased lookup := s.aliases.rows.find? fun e => e.answers owner lookup
  query lookup := s.queries.rows.find? fun e => e.answers owner lookup

/-! ## Violations of one node -/

/-- An entity has to be there, and then there may be something wrong with it. -/
def foundViolations {α : Type} (kind : EntityKind) (lookup : Lookup) (violations : α → List Error) :
    Option α → List Error
  | none => [.notFound kind lookup]
  | some a => violations a

namespace Holdings

variable (h : Holdings)

/-- An alias as an operand: any but a table. -/
def operandViolations (lookup : Lookup) : List Error :=
  foundViolations .aliased lookup (fun target =>
    if target.body.isTable then [.tableAliasOperand target.body.name] else []) (h.aliased lookup)

/-- A stored query as a single value: one that has such a value. -/
def scalarViolations (lookup : Lookup) : List Error :=
  foundViolations .query lookup (fun query =>
    match query.body.scalar with
    | .error e => [e]
    | .ok _ => []) (h.query lookup)

/-- A stored query in a membership test: one of a single column. -/
def memberViolations (lookup : Lookup) : List Error :=
  foundViolations .query lookup (fun query =>
    if query.body.columnCount = 1 then []
    else [.memberColumns query.body.name query.body.columnCount]) (h.query lookup)

/-- A stored query where any will do. -/
def queryViolations (lookup : Lookup) : List Error :=
  foundViolations .query lookup (fun _ => []) (h.query lookup)

/-- A source of rows: the alias of a table, or any stored query. -/
def sourceViolations : Input.Reference → List Error
  | .aliased lookup =>
    foundViolations .aliased lookup (fun target =>
      if target.body.isTable then [] else [.plainAliasSource target.body.name]) (h.aliased lookup)
  | .subquery lookup => h.queryViolations lookup

/-- An item of a select list: an operand, or a single value. -/
def itemViolations : Input.Reference → List Error
  | .aliased lookup => h.operandViolations lookup
  | .subquery lookup => h.scalarViolations lookup

end Holdings

namespace Input

/-- A text has to name a keyword of its set. -/
def keywordViolations (κ : Type) [Keyword κ] (s : String) : List Error :=
  match Keyword.find? κ s with
  | some _ => []
  | none => [.unknownKeyword ⟨Keyword.category κ, s, (Keyword.all : List κ).map Keyword.text⟩]

/-- A star has to be the sole argument of a count.  If it is no function that is called, the star is
    nothing more to report. -/
def starViolations (function : Option SqlFunction) (sole : Bool) : List Error :=
  match function with
  | none => []
  | some f => if f = .count ∧ sole = true then [] else [.starArgument f]

/-- Nothing that is an aggregate may stand in the clause. -/
def placementViolations (clause : Clause) (isAggregate : Bool) : List Error :=
  if isAggregate then [.misplacedAggregate clause] else []

/-! ## Violations of trees -/

mutual

/-- What is wrong with a value. -/
def Expr.violations (h : Holdings) : Expr → List Error
  | .literal _ => []
  | .binary left operation right =>
    keywordViolations Arithmetic operation ++ (left.violations h ++ right.violations h)
  | .call function args =>
    keywordViolations SqlFunction function ++
      violationsOfArgs h (Keyword.find? SqlFunction function) (args.length = 1) args
  | .interval _ unit => keywordViolations DateUnit unit
  | .conditional branches otherwise => violationsOfBranches h branches ++ otherwise.violations h
  | .table name => [.tableOperand name]
  | .column _ _ => []
  | .aliased lookup => h.operandViolations lookup
  | .subquery lookup => h.scalarViolations lookup

/-- What is wrong with an argument. -/
def Arg.violations (h : Holdings) (function : Option SqlFunction) (sole : Bool) : Arg → List Error
  | .star => starViolations function sole
  | .expr value => value.violations h

/-- What is wrong with a branch. -/
def Branch.violations (h : Holdings) : Branch → List Error
  | .mk condition result => condition.violations h ++ result.violations h

/-- What is wrong with a truth value. -/
def Cond.violations (h : Holdings) : Cond → List Error
  | .negation operand => operand.violations h
  | .connective left operation right =>
    keywordViolations Connective operation ++ (left.violations h ++ right.violations h)
  | .comparison left operation right =>
    keywordViolations Comparison operation ++ (left.violations h ++ right.violations h)
  | .between value lower upper _ =>
    value.violations h ++ (lower.violations h ++ upper.violations h)
  | .isNull value _ => value.violations h
  | .member value source _ => value.violations h ++ source.violations h
  | .existence lookup _ => h.queryViolations lookup
  | .aliased lookup => h.operandViolations lookup

/-- What is wrong with the source of a membership test. -/
def MemberSource.violations (h : Holdings) : MemberSource → List Error
  | .list items => violationsOfExprs h items
  | .query lookup => h.memberViolations lookup

/-- What is wrong with some values. -/
def violationsOfExprs (h : Holdings) : List Expr → List Error
  | [] => []
  | e :: es => e.violations h ++ violationsOfExprs h es

/-- What is wrong with some arguments. -/
def violationsOfArgs (h : Holdings) (function : Option SqlFunction) (sole : Bool) :
    List Arg → List Error
  | [] => []
  | a :: as => a.violations h function sole ++ violationsOfArgs h function sole as

/-- What is wrong with some branches. -/
def violationsOfBranches (h : Holdings) : List Branch → List Error
  | [] => []
  | b :: bs => b.violations h ++ violationsOfBranches h bs

end

/-! ## Aggregates in requests -/

mutual

/-- Whether the value holds an aggregate: the name of an aggregate function, or an alias that is flagged. -/
def Expr.isAggregate (h : Holdings) : Expr → Bool
  | .literal _ => false
  | .binary left _ right => left.isAggregate h || right.isAggregate h
  | .call function args =>
    (Keyword.find? SqlFunction function).any SqlFunction.isAggregate || anyArg h args
  | .interval _ _ => false
  | .conditional branches otherwise => anyBranch h branches || otherwise.isAggregate h
  | .table _ => false
  | .column _ _ => false
  | .aliased lookup => (h.aliased lookup).any fun target => target.body.isAggregate
  | .subquery _ => false

/-- Whether the argument holds an aggregate. -/
def Arg.isAggregate (h : Holdings) : Arg → Bool
  | .star => false
  | .expr value => value.isAggregate h

/-- Whether the branch holds an aggregate. -/
def Branch.isAggregate (h : Holdings) : Branch → Bool
  | .mk condition result => condition.isAggregate h || result.isAggregate h

/-- Whether the truth value holds an aggregate. -/
def Cond.isAggregate (h : Holdings) : Cond → Bool
  | .negation operand => operand.isAggregate h
  | .connective left _ right => left.isAggregate h || right.isAggregate h
  | .comparison left _ right => left.isAggregate h || right.isAggregate h
  | .between value lower upper _ => value.isAggregate h || lower.isAggregate h || upper.isAggregate h
  | .isNull value _ => value.isAggregate h
  | .member value source _ => value.isAggregate h || source.isAggregate h
  | .existence _ _ => false
  | .aliased lookup => (h.aliased lookup).any fun target => target.body.isAggregate

/-- Whether the source holds an aggregate. -/
def MemberSource.isAggregate (h : Holdings) : MemberSource → Bool
  | .list items => anyExpr h items
  | .query _ => false

/-- Whether one of the values holds an aggregate. -/
def anyExpr (h : Holdings) : List Expr → Bool
  | [] => false
  | e :: es => e.isAggregate h || anyExpr h es

/-- Whether one of the arguments holds an aggregate. -/
def anyArg (h : Holdings) : List Arg → Bool
  | [] => false
  | a :: as => a.isAggregate h || anyArg h as

/-- Whether one of the branches holds an aggregate. -/
def anyBranch (h : Holdings) : List Branch → Bool
  | [] => false
  | b :: bs => b.isAggregate h || anyBranch h bs

end

/-! ## Violations of clauses -/

/-- What is wrong with the columns of a select list. -/
def Columns.violations (h : Holdings) : Columns → List Error
  | .all => []
  | .list items => items.flatMap h.itemViolations

/-- What is wrong with a join: its kind, its source, its condition, an aggregate in that. -/
def Join.violations (h : Holdings) (j : Join) : List Error :=
  keywordViolations JoinKind j.kind ++ (h.sourceViolations j.source ++
    (j.condition.violations h ++ placementViolations .join (j.condition.isAggregate h)))

/-- What is wrong with a filter. -/
def filterViolations (h : Holdings) (condition : Cond) : List Error :=
  condition.violations h ++ placementViolations .filter (condition.isAggregate h)

/-- What is wrong with an item of a grouping. -/
def groupViolations (h : Holdings) (item : Expr) : List Error :=
  item.violations h ++ placementViolations .groups (item.isAggregate h)

/-- What is wrong with an item of an order: its direction, then its operand. -/
def OrderItem.violations (h : Holdings) (item : OrderItem) : List Error :=
  keywordViolations Direction item.direction ++ item.operand.violations h

/-- Nothing is wrong with a clause that is absent. -/
def optionalViolations {α : Type} (violations : α → List Error) : Option α → List Error
  | none => []
  | some a => violations a

/-- What is wrong with a query: with its sources, its select list, and its other clauses in order. -/
def Query.violations (h : Holdings) (q : Query) : List Error :=
  h.sourceViolations q.select.source ++ (optionalViolations (Join.violations h) q.select.join ++
    (q.select.columns.violations h ++ (optionalViolations (filterViolations h) q.filter ++
      (optionalViolations (List.flatMap (groupViolations h)) q.groups ++
        (optionalViolations (Cond.violations h) q.having ++
          optionalViolations (List.flatMap (OrderItem.violations h)) q.order)))))

end Input

/-! ## Reports -/

/-- A computation ends with the first of some violations, or with a result of which `P` holds if there
    are none. -/
inductive Reports {α : Type} (P : α → Prop) : List Error → Except Error α → Prop
  | result {a : α} (ha : P a) : Reports P [] (.ok a)
  | failure {e : Error} {rest : List Error} : Reports P (e :: rest) (.error e)

namespace Reports

variable {α β : Type} {P : α → Prop} {Q : β → Prop} {vs ws : List Error} {x : Except Error α}

/-- A step is followed by the next one if it has no violations, and hides those of the next one if
    it has. -/
theorem bind (hx : Reports P vs x) {f : α → Except Error β}
    (hf : ∀ a, P a → Reports Q ws (f a)) : Reports Q (vs ++ ws) (x >>= f) := by
  cases hx with
  | result ha => exact hf _ ha
  | failure => exact .failure

/-- The last step has no violations. -/
theorem map (hx : Reports P vs x) {f : α → β} (hf : ∀ a, P a → Q (f a)) :
    Reports Q vs (x >>= fun a => pure (f a)) := by
  cases hx with
  | result ha => exact .result (hf _ ha)
  | failure => exact .failure

/-- There is a result exactly if there are no violations. -/
theorem ok_iff (hx : Reports P vs x) : (∃ a, x = .ok a) ↔ vs = [] := by
  cases hx with
  | result ha => exact ⟨fun _ => rfl, fun _ => ⟨_, rfl⟩⟩
  | failure =>
    constructor
    · rintro ⟨a, heq⟩
      cases heq
    · intro heq
      cases heq

theorem error_iff (hx : Reports P vs x) (e : Error) : x = .error e ↔ vs.head? = some e := by
  cases hx with
  | result ha =>
    constructor
    · intro heq
      cases heq
    · intro heq
      cases heq
  | failure =>
    rw [List.head?_cons, Except.error.injEq, Option.some.injEq]

end Reports

/-! ## Resolving over holdings -/

/-- An entity that may not be there. -/
def found {α : Type} (kind : EntityKind) (lookup : Lookup) : Option α → Except Error α
  | some a => .ok a
  | none => .error (.notFound kind lookup)

/-- Lookups in what an owner has. -/
def Holdings.lookups (h : Holdings) : Lookups (Except Error) where
  aliased lookup := found .aliased lookup (h.aliased lookup)
  query lookup := found .query lookup (h.query lookup)

/-- What is done with an entity once it is found decides what else is reported. -/
theorem found_reports {α β : Type} {Q : β → Prop} {kind : EntityKind} {lookup : Lookup}
    {violations : α → List Error} {f : α → Except Error β} {a : Option α}
    (hf : ∀ target, a = some target → Reports Q (violations target) (f target)) :
    Reports Q (foundViolations kind lookup violations a) (found kind lookup a >>= f) := by
  cases a with
  | none => exact .failure
  | some target => exact hf target rfl

namespace Resolve

variable (h : Holdings)

/-- A text that names no keyword is reported with the names that there are. -/
theorem keyword_reports (κ : Type) [Keyword κ] (s : String) :
    Reports (fun k => Keyword.find? κ s = some k) (Input.keywordViolations κ s)
      (keyword κ s : Except Error κ) := by
  rw [keyword, Keyword.parse, Input.keywordViolations]
  cases Keyword.find? κ s with
  | some k => exact .result rfl
  | none => exact .failure

/-- In a clause that takes no aggregates, one is reported. -/
theorem checkPlacement_reports {clause : Clause} (hclause : clause.allowsAggregates = false)
    (isAggregate : Bool) :
    Reports (fun _ => True) (Input.placementViolations clause isAggregate)
      (checkPlacement clause isAggregate : Except Error Unit) := by
  rw [checkPlacement, hclause, Input.placementViolations]
  cases isAggregate with
  | true => exact .failure
  | false => exact .result trivial

/-- An alias as an operand is reported if it is missing or a table. -/
theorem operandAlias_reports (lookup : Lookup) :
    Reports (fun target => h.aliased lookup = some target) (h.operandViolations lookup)
      (operandAlias h.lookups lookup) := by
  refine found_reports fun target htarget => ?_
  cases target.body.isTable with
  | true => exact .failure
  | false => exact .result htarget

/-- A subquery as a single value is reported if it is missing or has no such value. -/
theorem scalarSubquery_reports (lookup : Lookup) :
    Reports (fun _ => True) (h.scalarViolations lookup) (scalarSubquery h.lookups lookup) := by
  refine found_reports fun query _ => ?_
  cases query.body.scalar with
  | error e => exact .failure
  | ok sql => exact .result trivial

/-- A subquery in a membership test is reported if it is missing or has not one column. -/
theorem memberQuery_reports (lookup : Lookup) :
    Reports (fun _ => True) (h.memberViolations lookup) (memberQuery h.lookups lookup) := by
  refine found_reports fun query _ => ?_
  split
  · exact .result trivial
  · exact .failure

/-- Nothing more is asked of a query, and `f` makes something of it. -/
theorem storedQuery_reports {β : Type} {Q : β → Prop} (lookup : Lookup) {f : StoredQuery → β}
    (hf : ∀ query, Q (f query)) :
    Reports Q (h.queryViolations lookup) (h.lookups.query lookup >>= fun query => pure (f query)) :=
  found_reports fun query _ => .result (hf query)

/-! ## Trees -/

mutual

/-- A value is resolved to an aggregate exactly if it is one, or its first violation is reported. -/
theorem expr_reports : ∀ e : Input.Expr,
    Reports (fun r => r.isAggregate = e.isAggregate h) (e.violations h) (expr h.lookups e)
  | .literal value => by
    rw [expr, Input.Expr.violations]
    exact .result rfl
  | .binary left operation right => by
    rw [expr, Input.Expr.violations]
    refine (keyword_reports Arithmetic operation).bind fun _ _ => ?_
    refine (expr_reports left).bind fun l hl => ?_
    refine (expr_reports right).map fun r hr => ?_
    rw [Sql.Expr.isAggregate, Input.Expr.isAggregate, hl, hr]
  | .call function args => by
    rw [expr, Input.Expr.violations]
    -- which function it is decides what a star among the arguments is
    refine (keyword_reports SqlFunction function).bind fun f hf => ?_
    rw [hf]
    refine (argList_reports f _ args).map fun rs hrs => ?_
    rw [Sql.Expr.isAggregate, Input.Expr.isAggregate, hf, hrs, Option.any_some]
  | .interval value unit => by
    rw [expr, Input.Expr.violations]
    exact (keyword_reports DateUnit unit).map fun _ _ => rfl
  | .conditional branches otherwise => by
    rw [expr, Input.Expr.violations]
    refine (branchList_reports branches).bind fun bs hbs => ?_
    refine (expr_reports otherwise).map fun r hr => ?_
    rw [Sql.Expr.isAggregate, Input.Expr.isAggregate, hbs, hr]
  | .table name => by
    rw [expr, Input.Expr.violations]
    exact .failure
  | .column table column => by
    rw [expr, Input.Expr.violations]
    exact .result rfl
  | .aliased lookup => by
    rw [expr, Input.Expr.violations]
    refine (operandAlias_reports h lookup).map fun target htarget => ?_
    rw [Sql.Expr.isAggregate, Input.Expr.isAggregate, htarget, Option.any_some]
  | .subquery lookup => by
    rw [expr, Input.Expr.violations]
    exact (scalarSubquery_reports h lookup).map fun _ _ => rfl

/-- Arguments are reported, a star by the function that it is given to. -/
theorem arg_reports (function : SqlFunction) (sole : Bool) : ∀ a : Input.Arg,
    Reports (fun r => r.isAggregate = a.isAggregate h) (a.violations h (some function) sole)
      (arg h.lookups function sole a)
  | .star => by
    rw [arg, Input.Arg.violations, Input.starViolations]
    split
    · exact .result rfl
    · exact .failure
  | .expr value => by
    rw [arg, Input.Arg.violations]
    exact (expr_reports value).map fun _ hr => hr

/-- Branches are reported: the condition first, then the result. -/
theorem branch_reports : ∀ b : Input.Branch,
    Reports (fun r => r.isAggregate = b.isAggregate h) (b.violations h) (branch h.lookups b)
  | .mk condition result => by
    rw [branch, Input.Branch.violations]
    refine (cond_reports condition).bind fun c hc => ?_
    refine (expr_reports result).map fun r hr => ?_
    rw [Sql.Branch.isAggregate, Input.Branch.isAggregate, hc, hr]

/-- A condition is resolved to an aggregate exactly if it is one, or its first violation is reported. -/
theorem cond_reports : ∀ c : Input.Cond,
    Reports (fun r => r.isAggregate = c.isAggregate h) (c.violations h) (cond h.lookups c)
  | .negation operand => by
    rw [cond, Input.Cond.violations]
    exact (cond_reports operand).map fun _ hr => hr
  | .connective left operation right => by
    rw [cond, Input.Cond.violations]
    refine (keyword_reports Connective operation).bind fun _ _ => ?_
    refine (cond_reports left).bind fun l hl => ?_
    refine (cond_reports right).map fun r hr => ?_
    rw [Sql.Cond.isAggregate, Input.Cond.isAggregate, hl, hr]
  | .comparison left operation right => by
    rw [cond, Input.Cond.violations]
    refine (keyword_reports Comparison operation).bind fun _ _ => ?_
    refine (expr_reports left).bind fun l hl => ?_
    refine (expr_reports right).map fun r hr => ?_
    rw [Sql.Cond.isAggregate, Input.Cond.isAggregate, hl, hr]
  | .between value lower upper negated => by
    rw [cond, Input.Cond.violations]
    refine (expr_reports value).bind fun v hv => ?_
    refine (expr_reports lower).bind fun l hl => ?_
    refine (expr_reports upper).map fun u hu => ?_
    rw [Sql.Cond.isAggregate, Input.Cond.isAggregate, hv, hl, hu]
  | .isNull value negated => by
    rw [cond, Input.Cond.violations]
    exact (expr_reports value).map fun _ hr => hr
  | .member value source negated => by
    rw [cond, Input.Cond.violations]
    refine (expr_reports value).bind fun v hv => ?_
    refine (memberSource_reports source).map fun s hs => ?_
    rw [Sql.Cond.isAggregate, Input.Cond.isAggregate, hv, hs]
  | .existence lookup negated => by
    rw [cond, Input.Cond.violations]
    exact storedQuery_reports h lookup fun _ => rfl
  | .aliased lookup => by
    rw [cond, Input.Cond.violations]
    refine (operandAlias_reports h lookup).map fun target htarget => ?_
    rw [Sql.Cond.isAggregate, Input.Cond.isAggregate, htarget, Option.any_some]

theorem memberSource_reports : ∀ s : Input.MemberSource,
    Reports (fun r => r.isAggregate = s.isAggregate h) (s.violations h) (memberSource h.lookups s)
  | .list items => by
    rw [memberSource, Input.MemberSource.violations]
    exact (exprList_reports items).map fun _ hr => hr
  | .query lookup => by
    rw [memberSource, Input.MemberSource.violations]
    exact (memberQuery_reports h lookup).map fun _ _ => rfl

/-- Of a list of values the first violation of the first faulty one is reported. -/
theorem exprList_reports : ∀ es : List Input.Expr,
    Reports (fun rs => Sql.anyExpr rs = Input.anyExpr h es) (Input.violationsOfExprs h es)
      (exprList h.lookups es)
  | [] => by
    rw [exprList, Input.violationsOfExprs]
    exact .result rfl
  | e :: es => by
    rw [exprList, Input.violationsOfExprs]
    refine (expr_reports e).bind fun r hr => ?_
    refine (exprList_reports es).map fun rs hrs => ?_
    rw [Sql.anyExpr, Input.anyExpr, hr, hrs]

theorem argList_reports (function : SqlFunction) (sole : Bool) : ∀ as : List Input.Arg,
    Reports (fun rs => Sql.anyArg rs = Input.anyArg h as)
      (Input.violationsOfArgs h (some function) sole as) (argList h.lookups function sole as)
  | [] => by
    rw [argList, Input.violationsOfArgs]
    exact .result rfl
  | a :: as => by
    rw [argList, Input.violationsOfArgs]
    refine (arg_reports function sole a).bind fun r hr => ?_
    refine (argList_reports function sole as).map fun rs hrs => ?_
    rw [Sql.anyArg, Input.anyArg, hr, hrs]

theorem branchList_reports : ∀ bs : List Input.Branch,
    Reports (fun rs => Sql.anyBranch rs = Input.anyBranch h bs) (Input.violationsOfBranches h bs)
      (branchList h.lookups bs)
  | [] => by
    rw [branchList, Input.violationsOfBranches]
    exact .result rfl
  | b :: bs => by
    rw [branchList, Input.violationsOfBranches]
    refine (branch_reports b).bind fun r hr => ?_
    refine (branchList_reports bs).map fun rs hrs => ?_
    rw [Sql.anyBranch, Input.anyBranch, hr, hrs]

end

/-! ## Clauses -/

/-- A source is reported if it is missing, or an alias of no table. -/
theorem source_reports (s : Input.Reference) :
    Reports (fun _ => True) (h.sourceViolations s) (source h.lookups s) := by
  cases s with
  | aliased lookup =>
    rw [source, Holdings.sourceViolations]
    refine found_reports fun target _ => ?_
    cases target.body.isTable with
    | true => exact .result trivial
    | false => exact .failure
  | subquery lookup =>
    rw [source, Holdings.sourceViolations]
    exact storedQuery_reports h lookup fun _ => trivial

/-- An item is reported as an operand or as a single value. -/
theorem selectItem_reports (i : Input.Reference) :
    Reports (fun _ => True) (h.itemViolations i) (selectItem h.lookups i) := by
  cases i with
  | aliased lookup =>
    rw [selectItem, Holdings.itemViolations]
    exact (operandAlias_reports h lookup).map fun _ _ => trivial
  | subquery lookup =>
    rw [selectItem, Holdings.itemViolations]
    exact (scalarSubquery_reports h lookup).map fun _ _ => trivial

/-- Items are reported from left to right. -/
theorem selectItems_reports (is : List Input.Reference) :
    Reports (fun _ => True) (is.flatMap h.itemViolations) (selectItems h.lookups is) := by
  induction is with
  | nil => exact .result trivial
  | cons i is ih =>
    rw [selectItems, List.flatMap_cons]
    refine (selectItem_reports h i).bind fun _ _ => ?_
    exact ih.map fun _ _ => trivial

/-- Columns are reported by their items, and a star never. -/
theorem columns_reports (c : Input.Columns) :
    Reports (fun _ => True) (c.violations h) (columns h.lookups c) := by
  cases c with
  | all => exact .result trivial
  | list items => exact (selectItems_reports h items).map fun _ _ => trivial

/-- A join is reported by its kind, its source, its condition, and then by an aggregate in that. -/
theorem join_reports (j : Input.Join) :
    Reports (fun _ => True) (j.violations h) (join h.lookups j) := by
  rw [join, Input.Join.violations]
  refine (keyword_reports JoinKind j.kind).bind fun _ _ => ?_
  refine (source_reports h j.source).bind fun _ _ => ?_
  refine (cond_reports h j.condition).bind fun c hc => ?_
  rw [hc]
  exact (checkPlacement_reports rfl _).map fun _ _ => trivial

/-- A filter is reported by its condition, and then by an aggregate in it. -/
theorem filter_reports (c : Input.Cond) :
    Reports (fun _ => True) (Input.filterViolations h c) (filter h.lookups c) := by
  rw [filter, Input.filterViolations]
  refine (cond_reports h c).bind fun r hr => ?_
  rw [hr]
  exact (checkPlacement_reports rfl _).map fun _ _ => trivial

/-- An item of a grouping is checked before the next one is resolved. -/
theorem groups_reports (es : List Input.Expr) :
    Reports (fun _ => True) (es.flatMap (Input.groupViolations h)) (groups h.lookups es) := by
  induction es with
  | nil => exact .result trivial
  | cons e es ih =>
    rw [groups, List.flatMap_cons, Input.groupViolations, List.append_assoc]
    refine (expr_reports h e).bind fun r hr => ?_
    rw [hr]
    refine (checkPlacement_reports rfl _).bind fun _ _ => ?_
    exact ih.map fun _ _ => trivial

/-- An order is reported item by item. -/
theorem order_reports (is : List Input.OrderItem) :
    Reports (fun _ => True) (is.flatMap (Input.OrderItem.violations h)) (order h.lookups is) := by
  induction is with
  | nil => exact .result trivial
  | cons i is ih =>
    rw [order, List.flatMap_cons, Input.OrderItem.violations, List.append_assoc]
    refine (keyword_reports Direction i.direction).bind fun _ _ => ?_
    refine (expr_reports h i.operand).bind fun _ _ => ?_
    exact ih.map fun _ _ => trivial

/-- An absent clause has nothing to report. -/
theorem optional_reports {α β : Type} {P : α → β → Prop} {violations : α → List Error}
    {resolve : α → Except Error β} (hresolve : ∀ a, Reports (P a) (violations a) (resolve a))
    (a : Option α) :
    Reports (fun _ => True) (Input.optionalViolations violations a) (optional resolve a) := by
  cases a with
  | none => exact .result trivial
  | some a => exact (hresolve a).map fun _ _ => trivial

/-- The head of a query is reported in the order in which it is resolved: the source, the join, and
    the columns last. -/
theorem select_reports (s : Input.Select) :
    Reports (fun _ => True)
      (h.sourceViolations s.source ++ (Input.optionalViolations (Input.Join.violations h) s.join ++
        s.columns.violations h)) (select h.lookups s) := by
  rw [select]
  refine (source_reports h s.source).bind fun _ _ => ?_
  refine (optional_reports (join_reports h) s.join).bind fun _ _ => ?_
  exact (columns_reports h s.columns).map fun _ _ => trivial

/-- A query is resolved if nothing is wrong with it, and else its first violation is reported. -/
theorem query_reports (input : Input.Query) :
    Reports (fun _ => True) (input.violations h) (query h.lookups input) := by
  have hselect := select_reports h input.select
  rw [query, Input.Query.violations, ← List.append_assoc, ← List.append_assoc,
    List.append_assoc (h.sourceViolations _)]
  refine hselect.bind fun _ _ => ?_
  refine (optional_reports (filter_reports h) input.filter).bind fun _ _ => ?_
  refine (optional_reports (groups_reports h) input.groups).bind fun _ _ => ?_
  refine (optional_reports (cond_reports h) input.having).bind fun _ _ => ?_
  exact (optional_reports (order_reports h) input.order).map fun _ _ => trivial

end Resolve

/-! ## Catalogs -/

namespace Table.Remembers

variable {β : Type} [Body β] {t : Table β} {past : List (Entity β)}

/-- What a table finds is the owner's row. -/
theorem find?_eq (ht : t.Remembers past) (owner : Owner) (lookup : Lookup) :
    t.find? owner lookup = t.rows.find? fun e => e.answers owner lookup := by
  cases hrow : t.rows.find? fun e => e.answers owner lookup with
  | some e =>
    have hanswers := List.find?_some hrow
    exact ht.find?_eq_some_iff.mpr ⟨List.mem_of_find?_eq_some hrow, hanswers⟩
  | none =>
    cases hfind : t.find? owner lookup with
    | none => rfl
    | some e =>
      obtain ⟨hmem, hanswers⟩ := Table.answers_of_find? hfind
      exact absurd hanswers (List.find?_eq_none.mp hrow e hmem)

/-- A table without two rows for one lookup gives the one that answers. -/
theorem get_eq (ht : t.Remembers past) (owner : Owner) (lookup : Lookup) :
    t.get owner lookup =
      found (Body.kind β) lookup (t.rows.find? fun e => e.answers owner lookup) := by
  rw [Table.get, ht.find?_eq]
  cases t.rows.find? fun e => e.answers owner lookup with
  | some e => rfl
  | none => rfl

end Table.Remembers

namespace Catalog

/-- Looking straight into the store is looking into what the owner has. -/
theorem Coherent.lookups_eq {c : Catalog} {past : Past} (hc : c.Coherent past) (owner : Owner) :
    c.store.lookups owner = (c.store.holdings owner).lookups := by
  have haliases : c.store.aliases.get owner = (c.store.holdings owner).lookups.aliased :=
    funext (hc.aliases.get_eq owner)
  have hqueries : c.store.queries.get owner = (c.store.holdings owner).lookups.query :=
    funext (hc.queries.get_eq owner)
  rw [Store.lookups, haliases, hqueries]

/-- **The first violation is reported.**  After any requests of any owners that delete nothing, and with
    any life of records that ends before the clock does, a query is resolved exactly if nothing is
    wrong with it, and fails exactly with the first thing that is. -/
theorem resolve_reports_first (settings : Settings) (schema : Schema) (steps : List Step)
    (hkept : ∀ step ∈ steps, step.deletes = false) (owner : Owner) (input : Input.Query) :
    let c := (fresh settings schema .empty).run steps
    let result := ((resolving owner fun look => Resolve.query look input).run c).1
    let violations := input.violations (c.store.holdings owner)
    c.now + c.settings.ttl < clockEnd →
      ((∃ q, result = .ok q) ↔ violations = []) ∧
        ∀ e, result = .error e ↔ violations.head? = some e := by
  intro c result violations hend
  have hcoherent : c.Coherent c.stored := run_coherent_stored settings schema hkept
  -- the cache is not seen
  have hdirect : result = Resolve.query (c.store.lookups owner) input := by
    show ((resolving owner fun look => Resolve.query look input).run c).1 = _
    rw [resolving, fetching_run]
    exact (Resolve.query_agrees (hcoherent.lookups_answer hend owner) input c.traffic
      hcoherent.backs).1
  have hreports : Reports (fun _ => True) violations result := by
    rw [hdirect, hcoherent.lookups_eq]
    exact Resolve.query_reports (c.store.holdings owner) input
  exact ⟨hreports.ok_iff, hreports.error_iff⟩

/-! ## A request with three violations -/

/-- A table is named. -/
def ordersNamed : List Step := [.request 1 (.createAlias ⟨"orders", .expr (.table "orders")⟩)]

/-- Selects a table as a value and an alias that nobody has, in an order that does not exist. -/
def threefoldWrong : Input.Query where
  select := ⟨.list [.aliased (.name "orders"), .aliased (.id 7)], .aliased (.name "orders"), none⟩
  filter := none
  groups := none
  having := none
  order := some [⟨.literal .null, "upwards"⟩]
  limit := none

/-- Three things are wrong, and the table among the columns is reported. -/
theorem resolve_reports_first_of_three :
    (∀ step ∈ ordersNamed, step.deletes = false) ∧
      ((fresh .standard Sample.schema .empty).run ordersNamed).now +
        ((fresh .standard Sample.schema .empty).run ordersNamed).settings.ttl < clockEnd ∧
      threefoldWrong.violations
          (((fresh .standard Sample.schema .empty).run ordersNamed).store.holdings 1) =
        [.tableAliasOperand "orders", .notFound .aliased (.id 7),
          .unknownKeyword ⟨"direction", "upwards", ["ASC", "DESC"]⟩] ∧
      ((resolving 1 fun look => Resolve.query look threefoldWrong).run
          ((fresh .standard Sample.schema .empty).run ordersNamed)).1 =
        .error (.tableAliasOperand "orders") := by
  have hkept : ∀ step ∈ ordersNamed, step.deletes = false := by decide
  have hend : ((fresh .standard Sample.schema .empty).run ordersNamed).now +
      ((fresh .standard Sample.schema .empty).run ordersNamed).settings.ttl < clockEnd := by
    decide +kernel
  -- the columns are read before the order
  have hviolations : threefoldWrong.violations
      (((fresh .standard Sample.schema .empty).run ordersNamed).store.holdings 1) =
        [.tableAliasOperand "orders", .notFound .aliased (.id 7),
          .unknownKeyword ⟨"direction", "upwards", ["ASC", "DESC"]⟩] := by
    decide +kernel
  obtain ⟨-, herror⟩ := resolve_reports_first .standard Sample.schema ordersNamed hkept 1
    threefoldWrong hend
  refine ⟨hkept, hend, hviolations, (herror _).mpr ?_⟩
  rw [hviolations]
  rfl

end Catalog

end QueryCatalog
