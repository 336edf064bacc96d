/-
  Targets of aliases, checked column by column.

  A target is resolved, and then the columns of the resolved tree are checked in order.  Resolving keeps
  the columns of a tree: it changes keywords and references, and a column stands in the resolved
  tree where it stood in the requested one (`expr_columns`).  So the check may be read off the request:
  `subtrees` lists every node of a requested tree, at any depth, and `columns` the columns among them,
  from left to right.

  `target_checked` says what building an alias comes to, for every request that is not for a bare table:
  the error of resolving, or the fault of the first column that does not fit, or an alias.
-/
import QueryCatalog.Proofs.PlacementChecks
import QueryCatalog.Sample

namespace QueryCatalog

/-! ## The nodes of a requested tree -/

namespace Input

mutual

/-- The value and all values and conditions inside it, from left to right, each in front of its
    parts. -/
def Expr.subtrees : Expr → List Target
  | .literal value => [.expr (.literal value)]
  | .binary left operation right =>
    .expr (.binary left operation right) :: (left.subtrees ++ right.subtrees)
  | .call function args => .expr (.call function args) :: subtreesOfArgs args
  | .interval value unit => [.expr (.interval value unit)]
  | .conditional branches otherwise =>
    .expr (.conditional branches otherwise) :: (subtreesOfBranches branches ++ otherwise.subtrees)
  | .table name => [.expr (.table name)]
  | .column table column => [.expr (.column table column)]
  | .aliased lookup => [.expr (.aliased lookup)]
  | .subquery lookup => [.expr (.subquery lookup)]

/-- The values and conditions inside the argument. -/
def Arg.subtrees : Arg → List Target
  | .star => []
  | .expr value => value.subtrees

/-- The values and conditions inside the branch, those of its condition first. -/
def Branch.subtrees : Branch → List Target
  | .mk condition result => condition.subtrees ++ result.subtrees

/-- The condition and all values and conditions inside it, from left to right, each in front of its
    parts. -/
def Cond.subtrees : Cond → List Target
  | .negation operand => .cond (.negation operand) :: operand.subtrees
  | .connective left operation right =>
    .cond (.connective left operation right) :: (left.subtrees ++ right.subtrees)
  | .comparison left operation right =>
    .cond (.comparison left operation right) :: (left.subtrees ++ right.subtrees)
  | .between value lower upper negated =>
    .cond (.between value lower upper negated) ::
      (value.subtrees ++ lower.subtrees ++ upper.subtrees)
  | .isNull value negated => .cond (.isNull value negated) :: value.subtrees
  | .member value source negated =>
    .cond (.member value source negated) :: (value.subtrees ++ source.subtrees)
  | .existence lookup negated => [.cond (.existence lookup negated)]
  | .aliased lookup => [.cond (.aliased lookup)]

/-- The values and conditions inside the source. -/
def MemberSource.subtrees : MemberSource → List Target
  | .list items => subtreesOfExprs items
  | .query _ => []

/-- The values and conditions inside some values. -/
def subtreesOfExprs : List Expr → List Target
  | [] => []
  | e :: es => e.subtrees ++ subtreesOfExprs es

/-- The values and conditions inside some arguments. -/
def subtreesOfArgs : List Arg → List Target
  | [] => []
  | a :: as => a.subtrees ++ subtreesOfArgs as

/-- The values and conditions inside some branches. -/
def subtreesOfBranches : List Branch → List Target
  | [] => []
  | b :: bs => b.subtrees ++ subtreesOfBranches bs

end

/-- The target and all values and conditions inside it. -/
def Target.subtrees : Target → List Target
  | .expr value => value.subtrees
  | .cond condition => condition.subtrees

/-- The column that a node is. -/
def Target.column? : Target → Option Sql.ColumnName
  | .expr (.column table column) => some (table, column)
  | _ => none

/-- The columns among some nodes, in their order. -/
def columnsAmong (nodes : List Target) : List Sql.ColumnName := nodes.filterMap Target.column?

/-- The columns of a target at any depth, from left to right. -/
def Target.columns (target : Target) : List Sql.ColumnName := columnsAmong target.subtrees

theorem columnsAmong_append (nodes more : List Target) :
    columnsAmong (nodes ++ more) = columnsAmong nodes ++ columnsAmong more :=
  List.filterMap_append

/-- A node that is no column only holds its parts together. -/
theorem columnsAmong_cons {node : Target} (h : node.column? = none) (nodes : List Target) :
    columnsAmong (node :: nodes) = columnsAmong nodes :=
  List.filterMap_cons_none h

end Input

/-- The columns that the phrase touches by name, from left to right. -/
def Sql.Phrase.columns : Sql.Phrase → List Sql.ColumnName
  | .expr value => value.columns
  | .cond condition => condition.columns

/-! ## Resolving keeps the columns -/

namespace Resolve

open Input (columnsAmong columnsAmong_append columnsAmong_cons)

/-- What fails gives nothing. -/
theorem Gives.fail {α : Type} {P : α → Prop} (e : Error) :
    Gives P (Resolve.fail e : Cache.Fetching α) := by
  intro t a h
  cases h

variable {look : Lookups Cache.Fetching}

mutual

/-- A value has the columns of what it is resolved from. -/
theorem expr_columns : ∀ e : Input.Expr,
    Gives (fun r : Sql.Expr => r.columns = columnsAmong e.subtrees) (expr look e)
  | .literal value => by
    simp only [expr]
    exact .pure rfl
  | .binary left operation right => by
    simp only [expr]
    refine (Gives.any _).bind fun k _ => (expr_columns left).bind fun l hl => ?_
    refine (expr_columns right).bind fun r hr => .pure ?_
    rw [Input.Expr.subtrees, columnsAmong_cons rfl, columnsAmong_append, ← hl, ← hr]
    rfl
  | .call function args => by
    simp only [expr]
    refine (Gives.any _).bind fun f _ => (argList_columns f _ args).bind fun as has => .pure ?_
    rw [Input.Expr.subtrees, columnsAmong_cons rfl, ← has]
    rfl
  | .interval value unit => by
    simp only [expr]
    exact (Gives.any _).bind fun _ _ => .pure rfl
  | .conditional branches otherwise => by
    simp only [expr]
    refine (branchList_columns branches).bind fun bs hbs => ?_
    refine (expr_columns otherwise).bind fun r hr => .pure ?_
    rw [Input.Expr.subtrees, columnsAmong_cons rfl, columnsAmong_append, ← hbs, ← hr]
    rfl
  | .table name => by
    simp only [expr]
    -- a table is no value, and so has no columns to give
    exact .fail _
  | .column table column => by
    simp only [expr]
    exact .pure rfl
  | .aliased lookup => by
    simp only [expr]
    exact (Gives.any _).bind fun _ _ => .pure rfl
  | .subquery lookup => by
    simp only [expr]
    exact (Gives.any _).bind fun _ _ => .pure rfl

/-- The argument of a call has the columns that were named in it. -/
theorem arg_columns (function : SqlFunction) (sole : Bool) : ∀ a : Input.Arg,
    Gives (fun r : Sql.Arg => r.columns = columnsAmong a.subtrees) (arg look function sole a)
  | .star => by
    simp only [arg]
    split
    · exact .pure rfl
    · exact .fail _
  | .expr value => by
    simp only [arg]
    exact (expr_columns value).bind fun r hr => .pure hr

theorem branch_columns : ∀ b : Input.Branch,
    Gives (fun r : Sql.Branch => r.columns = columnsAmong b.subtrees) (branch look b)
  | .mk condition result => by
    simp only [branch]
    refine (cond_columns condition).bind fun c hc => (expr_columns result).bind fun r hr => .pure ?_
    rw [Input.Branch.subtrees, columnsAmong_append, ← hc, ← hr]
    rfl

/-- A condition has the columns of what it is resolved from. -/
theorem cond_columns : ∀ c : Input.Cond,
    Gives (fun r : Sql.Cond => r.columns = columnsAmong c.subtrees) (cond look c)
  | .negation operand => by
    simp only [cond]
    refine (cond_columns operand).bind fun r hr => .pure ?_
    rw [Input.Cond.subtrees, columnsAmong_cons rfl, ← hr]
    rfl
  | .connective left operation right => by
    simp only [cond]
    refine (Gives.any _).bind fun k _ => (cond_columns left).bind fun l hl => ?_
    refine (cond_columns right).bind fun r hr => .pure ?_
    rw [Input.Cond.subtrees, columnsAmong_cons rfl, columnsAmong_append, ← hl, ← hr]
    rfl
  | .comparison left operation right => by
    simp only [cond]
    refine (Gives.any _).bind fun k _ => (expr_columns left).bind fun l hl => ?_
    refine (expr_columns right).bind fun r hr => .pure ?_
    rw [Input.Cond.subtrees, columnsAmong_cons rfl, columnsAmong_append, ← hl, ← hr]
    rfl
  | .between value lower upper negated => by
    simp only [cond]
    refine (expr_columns value).bind fun v hv => (expr_columns lower).bind fun l hl => ?_
    refine (expr_columns upper).bind fun u hu => .pure ?_
    rw [Input.Cond.subtrees, columnsAmong_cons rfl, columnsAmong_append, columnsAmong_append, ← hv,
      ← hl, ← hu]
    rfl
  | .isNull value negated => by
    simp only [cond]
    refine (expr_columns value).bind fun v hv => .pure ?_
    rw [Input.Cond.subtrees, columnsAmong_cons rfl, ← hv]
    rfl
  | .member value source negated => by
    simp only [cond]
    refine (expr_columns value).bind fun v hv => (memberSource_columns source).bind fun s hs => .pure ?_
    rw [Input.Cond.subtrees, columnsAmong_cons rfl, columnsAmong_append, ← hv, ← hs]
    rfl
  | .existence lookup negated => by
    simp only [cond]
    exact (Gives.any _).bind fun _ _ => .pure rfl
  | .aliased lookup => by
    simp only [cond]
    exact (Gives.any _).bind fun _ _ => .pure rfl

/-- The source of a membership test has the columns that were named in it. -/
theorem memberSource_columns : ∀ s : Input.MemberSource,
    Gives (fun r : Sql.MemberSource => r.columns = columnsAmong s.subtrees) (memberSource look s)
  | .list items => by
    simp only [memberSource]
    exact (exprList_columns items).bind fun r hr => .pure hr
  | .query lookup => by
    simp only [memberSource]
    exact (Gives.any _).bind fun _ _ => .pure rfl

/-- Values have the columns that were named in them, one after the other. -/
theorem exprList_columns : ∀ es : List Input.Expr,
    Gives (fun rs => Sql.columnsOfExprs rs = columnsAmong (Input.subtreesOfExprs es))
      (exprList look es)
  | [] => by
    simp only [exprList]
    exact .pure rfl
  | e :: es => by
    simp only [exprList]
    refine (expr_columns e).bind fun r hr => (exprList_columns es).bind fun rs hrs => .pure ?_
    rw [Input.subtreesOfExprs, columnsAmong_append, ← hr, ← hrs]
    rfl

theorem argList_columns (function : SqlFunction) (sole : Bool) : ∀ as : List Input.Arg,
    Gives (fun rs => Sql.columnsOfArgs rs = columnsAmong (Input.subtreesOfArgs as))
      (argList look function sole as)
  | [] => by
    simp only [argList]
    exact .pure rfl
  | a :: as => by
    simp only [argList]
    refine (arg_columns function sole a).bind fun r hr => ?_
    refine (argList_columns function sole as).bind fun rs hrs => .pure ?_
    rw [Input.subtreesOfArgs, columnsAmong_append, ← hr, ← hrs]
    rfl

theorem branchList_columns : ∀ bs : List Input.Branch,
    Gives (fun rs => Sql.columnsOfBranches rs = columnsAmong (Input.subtreesOfBranches bs))
      (branchList look bs)
  | [] => by
    simp only [branchList]
    exact .pure rfl
  | b :: bs => by
    simp only [branchList]
    refine (branch_columns b).bind fun r hr => (branchList_columns bs).bind fun rs hrs => .pure ?_
    rw [Input.subtreesOfBranches, columnsAmong_append, ← hr, ← hrs]
    rfl

end

/-- A target has the columns of what it is resolved from. -/
theorem phrase_columns (target : Input.Target) :
    Gives (fun p : Sql.Phrase => p.columns = target.columns) (phrase look target) := by
  cases target with
  | expr value => exact (expr_columns value).bind fun r hr => .pure hr
  | cond condition => exact (cond_columns condition).bind fun r hr => .pure hr

end Resolve

/-! ## Columns that fit -/

namespace TableAccess

variable {access : TableAccess}

/-- A column that an alias may touch: its table is not reserved, and the schema can be reached, lists the
    table and knows the column in it. -/
structure Fits (access : TableAccess) (table column : String) : Prop where
  free : access.settings.isReserved table = false
  up : access.isDown = false
  listed : table ∈ access.schema.tableNames
  known : ∃ definition, access.schema.find? table = some definition ∧
    definition.hasColumn column = true

/-- What is wrong with a column.  A reserved table comes first, before the schema is asked; then a table
    that is not listed or has no definition; then a column that the table has not. -/
inductive Fault (access : TableAccess) (table column : String) : Error → Prop
  | reserved (hreserved : access.settings.isReserved table = true) :
    Fault access table column (.reservedTable table)
  | unreachable (hfree : access.settings.isReserved table = false) (hdown : access.isDown = true) :
    Fault access table column (.store (.down .schema))
  | unknownTable (hfree : access.settings.isReserved table = false) (hup : access.isDown = false)
    (hunknown : table ∉ access.schema.tableNames ∨ access.schema.find? table = none) :
    Fault access table column (.missingTable table)
  | unknownColumn (hfree : access.settings.isReserved table = false) (hup : access.isDown = false)
    (hlisted : table ∈ access.schema.tableNames) {definition : TableDefinition}
    (hknown : access.schema.find? table = some definition)
    (hcolumn : definition.hasColumn column = false) :
    Fault access table column (.missingColumn table column)

theorem reach_eq (hup : access.isDown = false) : access.reach = .ok access.schema := by
  rw [reach, hup]
  rfl

/-- Where the schema can be reached, a table that is not reserved is visible exactly if it is listed. -/
theorem checkTable_eq (hup : access.isDown = false) {table : String}
    (hfree : access.settings.isReserved table = false) :
    access.checkTable table =
      if table ∈ access.schema.tableNames then .ok () else .error (.missingTable table) := by
  have hvisible : (access.schema.tableNames.filter fun t => !access.settings.isReserved t).contains
      table = decide (table ∈ access.schema.tableNames) := by
    rw [Bool.eq_iff_iff, List.contains_iff_mem, List.mem_filter, hfree, decide_eq_true_iff]
    exact and_iff_left rfl
  rw [checkTable, visibleTables, reach_eq hup, hfree]
  show (if List.contains _ table = true then Except.ok () else Except.error (Error.missingTable table)) =
    _
  rw [hvisible]
  simp only [decide_eq_true_eq]

/-- Of a visible table, the definition decides. -/
theorem checkColumn_eq (hup : access.isDown = false) {table : String}
    (hfree : access.settings.isReserved table = false) (hlisted : table ∈ access.schema.tableNames)
    (column : String) :
    access.checkColumn table column =
      match access.schema.find? table with
      | none => .error (.missingTable table)
      | some definition =>
        if definition.hasColumn column then .ok () else .error (.missingColumn table column) := by
  rw [checkColumn, checkTable_eq hup hfree, if_pos hlisted, reach_eq hup]
  rfl

/-- What fits passes its check. -/
theorem Fits.checked {table column : String} (h : access.Fits table column) :
    access.checkColumn table column = .ok () := by
  obtain ⟨hfree, hup, hlisted, definition, hfind, hcolumn⟩ := h
  rw [checkColumn_eq hup hfree hlisted, hfind]
  exact if_pos hcolumn

/-- The fault of a column is what is reported of it. -/
theorem Fault.checked {table column : String} {e : Error} (h : access.Fault table column e) :
    access.checkColumn table column = .error e := by
  cases h with
  | reserved hreserved =>
    rw [checkColumn, checkTable, hreserved]
    rfl
  | unreachable hfree hdown =>
    rw [checkColumn, checkTable, visibleTables, reach, hfree, hdown]
    rfl
  | unknownTable hfree hup hunknown =>
    -- not listed, or listed and yet without a description
    by_cases hlisted : table ∈ access.schema.tableNames
    · have hnone := hunknown.resolve_left (not_not_intro hlisted)
      rw [checkColumn_eq hup hfree hlisted, hnone]
    · rw [checkColumn, checkTable_eq hup hfree, if_neg hlisted]
      rfl
  | unknownColumn hfree hup hlisted hknown hcolumn =>
    rw [checkColumn_eq hup hfree hlisted, hknown]
    show (if _ = true then _ else _) = _
    rw [hcolumn]
    rfl

/-- A column fits or has a fault. -/
theorem fits_or_fault (access : TableAccess) (table column : String) :
    access.Fits table column ∨ ∃ e, access.Fault table column e := by
  cases hreserved : access.settings.isReserved table with
  | true => exact .inr ⟨_, .reserved hreserved⟩
  | false =>
    cases hdown : access.isDown with
    | true => exact .inr ⟨_, .unreachable hreserved hdown⟩
    | false =>
      by_cases hlisted : table ∈ access.schema.tableNames
      · cases hfind : access.schema.find? table with
        | none => exact .inr ⟨_, .unknownTable hreserved hdown (.inr hfind)⟩
        | some definition =>
          cases hcolumn : definition.hasColumn column with
          | true => exact .inl ⟨hreserved, hdown, hlisted, definition, hfind, hcolumn⟩
          | false => exact .inr ⟨_, .unknownColumn hreserved hdown hlisted hfind hcolumn⟩
      · exact .inr ⟨_, .unknownTable hreserved hdown (.inl hlisted)⟩

/-! ## Columns in a row -/

/-- The first of the columns that does not fit, and its fault. -/
structure FirstFault (access : TableAccess) (columns : List Sql.ColumnName) (e : Error) : Prop where
  split : ∃ before table column after, columns = before ++ (table, column) :: after ∧
    (∀ c ∈ before, access.Fits c.1 c.2) ∧ access.Fault table column e

/-- The first fault is not at a column that fits. -/
theorem FirstFault.cons {table column : String} {columns : List Sql.ColumnName} {e : Error}
    (hfits : access.Fits table column) :
    access.FirstFault ((table, column) :: columns) e ↔ access.FirstFault columns e := by
  constructor
  · rintro ⟨before, table', column', after, heq, hbefore, hfault⟩
    cases before with
    | nil =>
      cases heq
      have hcheck := hfits.checked
      rw [hfault.checked] at hcheck
      cases hcheck
    | cons c before =>
      cases heq
      exact ⟨before, table', column', after, rfl, (List.forall_mem_cons.mp hbefore).2, hfault⟩
  · rintro ⟨before, table', column', after, rfl, hbefore, hfault⟩
    exact ⟨(table, column) :: before, table', column', after, rfl,
      List.forall_mem_cons.mpr ⟨hfits, hbefore⟩, hfault⟩

/-- A fault at the first column is the first. -/
theorem FirstFault.head {table column : String} {columns : List Sql.ColumnName} {e e' : Error}
    (hfault : access.Fault table column e) :
    access.FirstFault ((table, column) :: columns) e' ↔ e = e' := by
  constructor
  · rintro ⟨before, table', column', after, heq, hbefore, hfault'⟩
    cases before with
    | nil =>
      cases heq
      have hcheck := hfault.checked
      rw [hfault'.checked] at hcheck
      cases hcheck
      rfl
    | cons c before =>
      cases heq
      -- the first column would fit and be faulty at once
      have hcheck := (hbefore _ List.mem_cons_self).checked
      rw [hfault.checked] at hcheck
      cases hcheck
  · rintro rfl
    exact ⟨[], table, column, columns, rfl, fun _ h => absurd h List.not_mem_nil, hfault⟩

/-- Columns pass exactly if each fits, and otherwise the first fault is reported. -/
theorem checkColumns_spec (access : TableAccess) (columns : List Sql.ColumnName) :
    (access.checkColumns columns = .ok () ↔ ∀ c ∈ columns, access.Fits c.1 c.2) ∧
      ∀ e, access.checkColumns columns = .error e ↔ access.FirstFault columns e := by
  induction columns with
  | nil =>
    refine ⟨iff_of_true rfl fun _ h => absurd h List.not_mem_nil, fun e => ?_⟩
    refine iff_of_false (fun h => by cases h) ?_
    rintro ⟨before, table, column, after, heq, -, -⟩
    cases before <;> cases heq
  | cons c columns ih =>
    obtain ⟨table, column⟩ := c
    rw [checkColumns]
    -- the check goes on behind a column that fits, and stops at one that does not
    rcases access.fits_or_fault table column with hfits | ⟨e', hfault⟩
    · rw [hfits.checked]
      refine ⟨ih.1.trans ?_, fun e => (ih.2 e).trans (FirstFault.cons hfits).symm⟩
      rw [List.forall_mem_cons]
      exact (and_iff_right hfits).symm
    · rw [hfault.checked]
      refine ⟨iff_of_false (fun h => by cases h) fun h => ?_, fun e => ?_⟩
      · have hcheck := (h _ List.mem_cons_self).checked
        rw [hfault.checked] at hcheck
        cases hcheck
      · rw [FirstFault.head hfault]
        constructor
        · intro h
          cases h
          rfl
        · rintro rfl
          rfl

end TableAccess

/-! ## Building aliases -/

namespace AliasTarget

variable {access : TableAccess} {look : Lookups Cache.Fetching} {owner : Owner}
  {request : Input.AliasRequest} {t t' : Cache.Traffic}

/-- The alias that a request asks for, if it is resolved to a phrase. -/
def bodyOf (owner : Owner) (request : Input.AliasRequest) (p : Sql.Phrase) : AliasBody :=
  ⟨owner, request.name, p.render, false, p.isAggregate⟩

/-- Unless a bare table is asked for, building is resolving and then checking the columns. -/
theorem build_eq (hplain : ∀ table, request.target ≠ .expr (.table table)) :
    build access look owner request =
      Resolve.phrase look request.target >>= fun p =>
        Resolve.passing (access.checkColumns p.columns) >>= fun _ => pure (bodyOf owner request p) := by
  rw [build]
  split
  · rename_i table htarget
    exact absurd htarget (hplain table)
  · rename_i value _ htarget
    rw [htarget, Resolve.phrase, bind_assoc]
    rfl
  · rename_i condition htarget
    rw [htarget, Resolve.phrase, bind_assoc]
    rfl

/-- A target that is not resolved is reported as such, before any column is checked. -/
theorem build_unresolved (hplain : ∀ table, request.target ≠ .expr (.table table)) {e : Error}
    (hrun : (Resolve.phrase look request.target).run t = (.error e, t')) :
    (build access look owner request).run t = (.error e, t') := by
  rw [build_eq hplain]
  exact run_bind_error hrun

/-- A target that is resolved is built if its columns pass their checks. -/
theorem build_resolved (hplain : ∀ table, request.target ≠ .expr (.table table)) {p : Sql.Phrase}
    (hrun : (Resolve.phrase look request.target).run t = (.ok p, t')) :
    (build access look owner request).run t =
      ((access.checkColumns request.target.columns).map fun _ => bodyOf owner request p, t') := by
  have hcolumns : p.columns = request.target.columns :=
    Resolve.phrase_columns request.target t p (congrArg Prod.fst hrun)
  rw [build_eq hplain, run_bind_ok hrun, hcolumns]
  cases access.checkColumns request.target.columns with
  | error e => rfl
  | ok u => rfl

end AliasTarget

namespace Catalog

/-- **Targets are checked exactly.**  In any state of a catalog, let an owner ask for an alias of anything
    but a bare table.  If the target is not resolved, that error is the answer.  If it is resolved, the
    alias is built exactly if every column at any depth of the target fits; and an error is the answer
    exactly if it is the fault of the first column, from left to right, that does not fit. -/
theorem target_checked (c : Catalog) (owner : Owner) (request : Input.AliasRequest)
    (hplain : ∀ table, request.target ≠ .expr (.table table)) :
    let resolved := ((Resolve.phrase (Cache.lookups c.backing owner) request.target).run c.traffic).1
    let built := ((buildAlias owner request).run c).1
    (∀ e, resolved = .error e → built = .error e) ∧
    ∀ p, resolved = .ok p →
      ((∃ body, built = .ok body) ↔
        ∀ column ∈ request.target.columns, c.tableAccess.Fits column.1 column.2) ∧
      (∀ body, built = .ok body →
        body = ⟨owner, request.name, p.render, false, p.isAggregate⟩) ∧
      ∀ e, built = .error e ↔ c.tableAccess.FirstFault request.target.columns e := by
  intro resolved built
  have hbuilt : built = ((AliasTarget.build c.tableAccess (Cache.lookups c.backing owner) owner
      request).run c.traffic).1 := congrArg Prod.fst (fetching_run _ c)
  cases hrun : (Resolve.phrase (Cache.lookups c.backing owner) request.target).run c.traffic with
  | mk r t =>
    have hresolved : resolved = r := congrArg Prod.fst hrun
    refine ⟨fun e he => ?_, fun p hp => ?_⟩
    · rw [hresolved.symm.trans he] at hrun
      rw [hbuilt, AliasTarget.build_unresolved hplain hrun]
    · rw [hresolved.symm.trans hp] at hrun
      rw [AliasTarget.build_resolved hplain hrun] at hbuilt
      obtain ⟨hok, herror⟩ := c.tableAccess.checkColumns_spec request.target.columns
      rw [hbuilt, ← hok]
      -- what is left is that the reply is the outcome of the check
      simp only [← herror]
      cases c.tableAccess.checkColumns request.target.columns with
      | error e =>
        refine ⟨⟨?_, fun h => by cases h⟩, fun body h => (by cases h), fun e' => ?_⟩
        · rintro ⟨body, h⟩
          cases h
        · show Except.error e = Except.error e' ↔ Except.error e = Except.error e'
          rw [Except.error.injEq, Except.error.injEq]
      | ok u =>
        refine ⟨⟨fun _ => rfl, fun _ => ⟨_, rfl⟩⟩, fun body h => (Except.ok.inj h).symm,
          fun e => ?_⟩
        exact iff_of_false (fun h => by cases h) fun h => by cases h

/-- Two columns do not fit: a missing one in the list of a test, and behind it one of a reserved table. -/
def doubtful : Input.AliasRequest where
  name := "doubtful"
  target := .expr (.conditional
    [.mk (.member (.column "orders" "total")
        (.list [.literal (.int 1), .call "ROUND" [.expr (.column "orders" "discount")]]) false)
      (.column "__users__" "password")]
    (.column "orders" "id"))

/-- Two columns are wrong, and the first of them is reported. -/
theorem target_checked_doubtful :
    doubtful.target.columns =
      [("orders", "total"), ("orders", "discount"), ("__users__", "password"), ("orders", "id")] ∧
    ((buildAlias 1 doubtful).run Sample.catalog).1 = .error (.missingColumn "orders" "discount") ∧
    Sample.catalog.tableAccess.FirstFault doubtful.target.columns (.missingColumn "orders" "discount") ∧
    ¬ ∀ column ∈ doubtful.target.columns, Sample.catalog.tableAccess.Fits column.1 column.2 := by
  have hplain : ∀ table, doubtful.target ≠ .expr (.table table) := by
    intro table h
    cases h
  have hbuilt : ((buildAlias 1 doubtful).run Sample.catalog).1 =
      .error (.missingColumn "orders" "discount") := by
    decide +kernel
  -- the tree itself is not written out, only that there is one
  have hresolved : ((Resolve.phrase (Cache.lookups Sample.catalog.backing 1) doubtful.target).run
      Sample.catalog.traffic).1.toBool = true := by
    decide +kernel
  cases hp : ((Resolve.phrase (Cache.lookups Sample.catalog.backing 1) doubtful.target).run
      Sample.catalog.traffic).1 with
  | error e =>
    rw [hp] at hresolved
    cases hresolved
  | ok p =>
    obtain ⟨hok, -, herror⟩ := (target_checked Sample.catalog 1 doubtful hplain).2 p hp
    refine ⟨by decide +kernel, hbuilt, (herror _).mp hbuilt, fun hfits => ?_⟩
    obtain ⟨body, hbody⟩ := hok.mpr hfits
    rw [hbuilt] at hbody
    cases hbody

end Catalog

end QueryCatalog
