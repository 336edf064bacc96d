/-
  What is compiled has no empty list.

  Resolving goes through the lists of a tree item by item and keeps their lengths.  So where the input has
  no list that is empty and must not be, the resolved query has none: `expr_full` and its companions
  are the induction, `query_full` is what it is for.  Together with what the decoders let in, every
  query that is compiled from a text can be written as SQL (`compiled_lists_nonempty`).

  The columns are counted in a signed word.  A select list is no longer than the text it was read from,
  so for a text whose length such a word can hold the count is right.
-/
import QueryCatalog.Proofs.DecodedLists
import QueryCatalog.Proofs.StatementShape
import QueryCatalog.Proofs.TargetChecks
import QueryCatalog.Sample

namespace QueryCatalog

/-! ## Resolved trees -/

namespace Sql

mutual

/-- No list in the value is empty that must not be. -/
def Expr.Full : Expr → Prop
  | .literal _ | .interval _ _ | .column _ _ | .aliased _ | .subquery _ => True
  | .binary left _ right => left.Full ∧ right.Full
  | .call _ args => fullArgs args
  | .conditional branches otherwise => branches ≠ [] ∧ fullBranches branches ∧ otherwise.Full

/-- No list in the argument is empty that must not be. -/
def Arg.Full : Arg → Prop
  | .star => True
  | .expr value => value.Full

/-- No list in the branch is empty that must not be. -/
def Branch.Full : Branch → Prop
  | .mk condition result => condition.Full ∧ result.Full

/-- No list in the truth value is empty that must not be. -/
def Cond.Full : Cond → Prop
  | .negation operand => operand.Full
  | .connective left _ right => left.Full ∧ right.Full
  | .comparison left _ right => left.Full ∧ right.Full
  | .between value lower upper _ => value.Full ∧ lower.Full ∧ upper.Full
  | .isNull value _ => value.Full
  | .member value source _ => value.Full ∧ source.Full
  | .existence _ _ | .aliased _ => True

/-- The source lists something. -/
def MemberSource.Full : MemberSource → Prop
  | .list items => items ≠ [] ∧ fullExprs items
  | .query _ => True

/-- All values are full. -/
def fullExprs : List Expr → Prop
  | [] => True
  | e :: es => e.Full ∧ fullExprs es

/-- All arguments are full. -/
def fullArgs : List Arg → Prop
  | [] => True
  | a :: as => a.Full ∧ fullArgs as

/-- All branches are full. -/
def fullBranches : List Branch → Prop
  | [] => True
  | b :: bs => b.Full ∧ fullBranches bs

end

/-- No list in the query is empty that must not be. -/
structure Query.Full (q : Query) : Prop where
  columns : q.select.columns ≠ .list []
  join : ∀ j ∈ q.select.join, j.condition.Full
  filter : ∀ c ∈ q.filter, c.Full
  groups : ∀ es ∈ q.groups, es ≠ [] ∧ fullExprs es
  having : ∀ c ∈ q.having, c.Full
  order : ∀ items ∈ q.order, items ≠ [] ∧ ∀ item ∈ items, item.operand.Full

end Sql

/-! ## Resolving keeps lists -/

namespace Resolve

theorem Gives.imp {α : Type} {P Q : α → Prop} {x : Cache.Fetching α} (hx : Gives P x)
    (h : ∀ a, P a → Q a) : Gives Q x :=
  fun t a ha => h a (hx t a ha)

/-- A list of the same length as one that is not empty is not empty either. -/
theorem ne_nil_of_length {α β : Type} {as : List α} {bs : List β} (h : bs.length = as.length)
    (hne : as ≠ []) : bs ≠ [] := by
  rintro rfl
  exact hne (List.eq_nil_of_length_eq_zero h.symm)

variable {look : Lookups Cache.Fetching}

mutual

/-- A value is full if what it is resolved from is. -/
theorem expr_full : ∀ e : Input.Expr, e.Full → Gives Sql.Expr.Full (expr look e)
  | .literal value, _ => by
    simp only [expr]
    exact .pure trivial
  | .binary left operation right, ⟨hleft, hright⟩ => by
    simp only [expr]
    refine (Gives.any _).bind fun _ _ => (expr_full left hleft).bind fun _ hl => ?_
    exact (expr_full right hright).bind fun _ hr => .pure ⟨hl, hr⟩
  | .call function args, hargs => by
    simp only [expr]
    refine (Gives.any _).bind fun f _ => (argList_full f _ args hargs).bind fun _ has => ?_
    exact .pure has
  | .interval value unit, _ => by
    simp only [expr]
    exact (Gives.any _).bind fun _ _ => .pure trivial
  | .conditional branches otherwise, ⟨hne, hbranches, hotherwise⟩ => by
    simp only [expr]
    refine (branchList_full branches hbranches).bind fun _ hbs => ?_
    refine (expr_full otherwise hotherwise).bind fun _ hr => .pure ?_
    -- as many branches as before
    exact ⟨ne_nil_of_length hbs.1 hne, hbs.2, hr⟩
  | .table name, _ => by
    simp only [expr]
    -- a table is no value
    exact .fail _
  | .column table column, _ => by
    simp only [expr]
    exact .pure trivial
  | .aliased lookup, _ => by
    simp only [expr]
    exact (Gives.any _).bind fun _ _ => .pure trivial
  | .subquery lookup, _ => by
    simp only [expr]
    exact (Gives.any _).bind fun _ _ => .pure trivial

theorem arg_full (function : SqlFunction) (sole : Bool) : ∀ a : Input.Arg, a.Full →
    Gives Sql.Arg.Full (arg look function sole a)
  | .star, _ => by
    simp only [arg]
    split
    · exact .pure trivial
    · exact .fail _
  | .expr value, hvalue => by
    simp only [arg]
    exact (expr_full value hvalue).bind fun _ h => .pure h

theorem branch_full : ∀ b : Input.Branch, b.Full → Gives Sql.Branch.Full (branch look b)
  | .mk condition result, ⟨hcondition, hresult⟩ => by
    simp only [branch]
    refine (cond_full condition hcondition).bind fun _ hc => ?_
    exact (expr_full result hresult).bind fun _ hr => .pure ⟨hc, hr⟩

/-- A condition is full if what it is resolved from is. -/
theorem cond_full : ∀ c : Input.Cond, c.Full → Gives Sql.Cond.Full (cond look c)
  | .negation operand, hoperand => by
    simp only [cond]
    exact (cond_full operand hoperand).bind fun _ h => .pure h
  | .connective left operation right, ⟨hleft, hright⟩ => by
    simp only [cond]
    refine (Gives.any _).bind fun _ _ => (cond_full left hleft).bind fun _ hl => ?_
    exact (cond_full right hright).bind fun _ hr => .pure ⟨hl, hr⟩
  | .comparison left operation right, ⟨hleft, hright⟩ => by
    simp only [cond]
    refine (Gives.any _).bind fun _ _ => (expr_full left hleft).bind fun _ hl => ?_
    exact (expr_full right hright).bind fun _ hr => .pure ⟨hl, hr⟩
  | .between value lower upper negated, ⟨hvalue, hlower, hupper⟩ => by
    simp only [cond]
    refine (expr_full value hvalue).bind fun _ hv => (expr_full lower hlower).bind fun _ hl => ?_
    exact (expr_full upper hupper).bind fun _ hu => .pure ⟨hv, hl, hu⟩
  | .isNull value negated, hvalue => by
    simp only [cond]
    exact (expr_full value hvalue).bind fun _ h => .pure h
  | .member value source negated, ⟨hvalue, hsource⟩ => by
    simp only [cond]
    refine (expr_full value hvalue).bind fun _ hv => ?_
    exact (memberSource_full source hsource).bind fun _ hs => .pure ⟨hv, hs⟩
  | .existence lookup negated, _ => by
    simp only [cond]
    exact (Gives.any _).bind fun _ _ => .pure trivial
  | .aliased lookup, _ => by
    simp only [cond]
    exact (Gives.any _).bind fun _ _ => .pure trivial

/-- A list that tests for membership keeps its items, and so one at least. -/
theorem memberSource_full : ∀ s : Input.MemberSource, s.Full →
    Gives Sql.MemberSource.Full (memberSource look s)
  | .list items, ⟨hne, hitems⟩ => by
    simp only [memberSource]
    refine (exprList_full items hitems).bind fun _ hrs => .pure ?_
    exact ⟨ne_nil_of_length hrs.1 hne, hrs.2⟩
  | .query lookup, _ => by
    simp only [memberSource]
    exact (Gives.any _).bind fun _ _ => .pure trivial

/-- Values are resolved one by one, and none is lost. -/
theorem exprList_full : ∀ es : List Input.Expr, Input.fullExprs es →
    Gives (fun rs => rs.length = es.length ∧ Sql.fullExprs rs) (exprList look es)
  | [], _ => by
    simp only [exprList]
    exact .pure ⟨rfl, trivial⟩
  | e :: es, ⟨he, hes⟩ => by
    simp only [exprList]
    refine (expr_full e he).bind fun _ hr => (exprList_full es hes).bind fun _ hrs => .pure ?_
    exact ⟨congrArg (· + 1) hrs.1, hr, hrs.2⟩

theorem argList_full (function : SqlFunction) (sole : Bool) : ∀ as : List Input.Arg,
    Input.fullArgs as → Gives Sql.fullArgs (argList look function sole as)
  | [], _ => by
    simp only [argList]
    exact .pure trivial
  | a :: as, ⟨ha, has⟩ => by
    simp only [argList]
    refine (arg_full function sole a ha).bind fun _ hr => ?_
    exact (argList_full function sole as has).bind fun _ hrs => .pure ⟨hr, hrs⟩

theorem branchList_full : ∀ bs : List Input.Branch, Input.fullBranches bs →
    Gives (fun rs => rs.length = bs.length ∧ Sql.fullBranches rs) (branchList look bs)
  | [], _ => by
    simp only [branchList]
    exact .pure ⟨rfl, trivial⟩
  | b :: bs, ⟨hb, hbs⟩ => by
    simp only [branchList]
    refine (branch_full b hb).bind fun _ hr => (branchList_full bs hbs).bind fun _ hrs => .pure ?_
    exact ⟨congrArg (· + 1) hrs.1, hr, hrs.2⟩

end

/-! ## Resolving keeps clauses -/

theorem join_full {j : Input.Join} (h : j.condition.Full) :
    Gives (fun r : Sql.Join => r.condition.Full) (join look j) := by
  refine (Gives.any _).bind fun kind _ => (Gives.any _).bind fun source _ => ?_
  refine (cond_full j.condition h).bind fun condition hcondition => ?_
  exact (Gives.any _).bind fun _ _ => .pure hcondition

theorem filter_full {c : Input.Cond} (h : c.Full) : Gives Sql.Cond.Full (filter look c) :=
  (cond_full c h).bind fun _ hcondition => (Gives.any _).bind fun _ _ => .pure hcondition

/-- A grouping keeps its items. -/
theorem groups_full : ∀ es : List Input.Expr, Input.fullExprs es →
    Gives (fun rs => rs.length = es.length ∧ Sql.fullExprs rs) (groups look es)
  | [], _ => .pure ⟨rfl, trivial⟩
  | e :: es, ⟨he, hes⟩ => by
    refine (expr_full e he).bind fun _ hr => (Gives.any _).bind fun _ _ => ?_
    refine (groups_full es hes).bind fun _ hrs => .pure ?_
    exact ⟨congrArg (· + 1) hrs.1, hr, hrs.2⟩

/-- An order keeps its items. -/
theorem order_full {items : List Input.OrderItem} (h : ∀ item ∈ items, item.operand.Full) :
    Gives (fun rs => rs.length = items.length ∧ ∀ r ∈ rs, r.operand.Full) (order look items) := by
  induction items with
  | nil => exact .pure ⟨rfl, fun _ hr => absurd hr List.not_mem_nil⟩
  | cons i is ih =>
    obtain ⟨hi, his⟩ := List.forall_mem_cons.mp h
    refine (Gives.any _).bind fun _ _ => (expr_full i.operand hi).bind fun _ hr => ?_
    refine (ih his).bind fun _ hrs => .pure ?_
    exact ⟨congrArg (· + 1) hrs.1, List.forall_mem_cons.mpr ⟨hr, hrs.2⟩⟩

/-- As many columns are resolved as were asked for, all of them if all were. -/
theorem columns_full {c : Input.Columns} {r : Sql.Columns} (hcount : SameCount c r) (h : c.Full) :
    r ≠ .list [] := by
  rintro rfl
  cases c with
  | all => exact hcount
  | list items =>
    have hlength : ([] : List Sql.SelectItem).length = items.length := hcount
    exact h (congrArg Input.Columns.list (List.eq_nil_of_length_eq_zero hlength.symm))

/-- The head of a query keeps the number of its columns. -/
theorem select_full {s : Input.Select} (h : s.Full) :
    Gives (fun r : Sql.Select => SameCount s.columns r.columns ∧ ∀ j ∈ r.join, j.condition.Full)
      (select look s) := by
  refine (Gives.any _).bind fun source _ => ?_
  refine (Gives.optional fun j hj => join_full (h.join j hj)).bind fun join hjoin => ?_
  exact (columns_sameCount s.columns).bind fun columns hcount => .pure ⟨hcount, hjoin⟩

/-- A query is full if what it is resolved from is, and has as many columns. -/
theorem query_full {input : Input.Query} (h : input.Full) :
    Gives (fun q : Sql.Query => q.Full ∧ SameCount input.select.columns q.select.columns)
      (query look input) := by
  have hgroups : ∀ es ∈ input.groups, Gives (fun rs => rs ≠ [] ∧ Sql.fullExprs rs) (groups look es) := by
    intro es hes
    obtain ⟨hne, hfull⟩ := h.groups es hes
    exact (groups_full es hfull).imp fun _ hrs => ⟨ne_nil_of_length hrs.1 hne, hrs.2⟩
  have horder : ∀ is ∈ input.order,
      Gives (fun rs => rs ≠ [] ∧ ∀ r ∈ rs, r.operand.Full) (order look is) := by
    intro is his
    obtain ⟨hne, hfull⟩ := h.order is his
    exact (order_full hfull).imp fun _ hrs => ⟨ne_nil_of_length hrs.1 hne, hrs.2⟩
  refine (select_full h.select).bind fun select hselect => ?_
  refine (Gives.optional fun c hc => filter_full (h.filter c hc)).bind fun filter hfilter => ?_
  refine (Gives.optional hgroups).bind fun groups hgroups => ?_
  refine (Gives.optional fun c hc => cond_full c (h.having c hc)).bind fun having hhaving => ?_
  refine (Gives.optional horder).bind fun order horder => .pure ⟨?_, hselect.1⟩
  exact ⟨columns_full hselect.1 h.select.columns, hselect.2, hfilter, hgroups, hhaving, horder⟩

end Resolve

/-! ## Counting columns -/

/-- Columns are counted right as long as the count fits. -/
theorem Sql.Columns.count_of_sameCount {c : Input.Columns} {r : Sql.Columns}
    (hcount : Resolve.SameCount c r) (hfull : c.Full) (hsize : (c.length : Int) ≤ Int64.maxValue.toInt) :
    r.count = -1 ∨ 1 ≤ r.count := by
  cases r with
  | all => exact .inl rfl
  | list resolved =>
    cases c with
    | all => exact hcount.elim
    | list items =>
      right
      have hlength : resolved.length = items.length := hcount
      have hne : items.length ≠ 0 := fun hzero =>
        hfull (congrArg Input.Columns.list (List.eq_nil_of_length_eq_zero hzero))
      have hmax : Int64.maxValue.toInt = 9223372036854775807 := rfl
      have hfits : (items.length : Int) ≤ Int64.maxValue.toInt := hsize
      -- the count does not wrap, for the length is below the greatest word
      have hint : (Int64.ofNat resolved.length).toInt = resolved.length :=
        Int64.toInt_ofNat_of_lt (by omega)
      have hone : (1 : Int64).toInt = 1 := rfl
      rw [Columns.count, Int64.le_iff_toInt_le]
      omega

namespace Catalog

/-- **No list is compiled empty.**  Whatever a text is decoded as, in whatever form it is written: an alias
    request or a query has no conditional without branches, no membership test among nothing, no
    grouping, no order and no select list of no items.  Nor has, in any catalog whatsoever, the resolved
    query that is compiled; and its number of columns is -1 or at least 1, if the length of the text can
    be counted in such a number. -/
theorem compiled_lists_nonempty (source : Doc.Source) :
    (∀ request, Doc.decode Input.AliasRequest.ofDoc source = .ok request → request.target.Full) ∧
    ∀ input, Doc.decode Input.Query.ofDoc source = .ok input → input.Full ∧
      ∀ (c : Catalog) (owner : Owner) (compiled : Sql.Compiled),
        ((compile owner input).run c).1 = .ok compiled →
          (∃ q : Sql.Query,
            ((Resolve.query (Cache.lookups c.backing owner) input).run c.traffic).1 = .ok q ∧
            q.Full ∧ compiled = q.compiled) ∧
          ((source.length : Int) ≤ Int64.maxValue.toInt →
            compiled.columnCount = -1 ∨ 1 ≤ compiled.columnCount) := by
  constructor
  · intro request hdecode
    exact (Decoded.Yields.decode (Input.AliasRequest.ofDoc_full _) request hdecode).1
  · intro input hdecode
    -- the columns are among the values of the document, and these among its characters
    obtain ⟨⟨hfull, hlength⟩, hvalues⟩ :=
      Decoded.Yields.decode (Input.Query.ofDoc_full _) input hdecode
    refine ⟨hfull, fun c owner compiled hcompile => ?_⟩
    rw [compile, resolving, fetching_run, Resolve.compile] at hcompile
    obtain ⟨q, t, hq, hcompiled⟩ := run_bind_eq_ok_iff.mp hcompile
    have hquery := congrArg Prod.fst hq
    obtain ⟨hqfull, hcount⟩ := Resolve.query_full hfull c.traffic q hquery
    have hcompiled : q.compiled = compiled := Except.ok.inj hcompiled
    subst hcompiled
    refine ⟨⟨q, hquery, hqfull, rfl⟩, fun hsize => ?_⟩
    exact Sql.Columns.count_of_sameCount hcount hfull.select.columns (by omega)

/-! ## A query with each of the lists -/

/-- The text of a query, in pieces: arrays throughout, with an object for the order, and each of the
    lists has an item. -/
def listedText : List String :=
  ["[[[[\"aliased\",null,", "\"total\"]],[\"aliased\",", "1,null]],[[\"in\",", "[\"case\",[[[\"is_null\",",
    "[\"col\",\"orders\",", "\"total\"]],[\"literal\",", "0]]],[\"literal\",7]],", "[[\"literal\",1]]]],",
    "[[[\"col\",\"orders\",", "\"id\"]]],null,", "\x7b\"items\":[[[\"col\",", "\"orders\",\"id\"]]]\x7d]"]

/-- The text, character by character. -/
def listedSource : Doc.Source := listedText.flatMap Doc.Source.ofText

/-- The text is decoded and compiled, with an item in each of its lists. -/
theorem compiled_lists_nonempty_listed :
    ∃ input compiled, ∃ q : Sql.Query, Doc.decode Input.Query.ofDoc listedSource = .ok input ∧
      ((compile 1 input).run Sample.catalog).1 = .ok compiled ∧
      (listedSource.length : Int) ≤ Int64.maxValue.toInt ∧
      input.Full ∧ q.Full ∧ compiled = q.compiled ∧
      (compiled.columnCount = -1 ∨ 1 ≤ compiled.columnCount) := by
  have hsome : ((Doc.decode Input.Query.ofDoc listedSource).toOption.bind fun input =>
      ((compile 1 input).run Sample.catalog).1.toOption).isSome = true := by decide +kernel
  obtain ⟨compiled, hsome⟩ := Option.isSome_iff_exists.mp hsome
  obtain ⟨input, hinput, hcompiled⟩ := Option.bind_eq_some_iff.mp hsome
  have hdecode := eq_ok_of_toOption hinput
  have hcompile := eq_ok_of_toOption hcompiled
  have hsize : (listedSource.length : Int) ≤ Int64.maxValue.toInt := by decide +kernel
  obtain ⟨hfull, hrest⟩ := (compiled_lists_nonempty listedSource).2 input hdecode
  obtain ⟨⟨q, -, hq, heq⟩, hcount⟩ := hrest Sample.catalog 1 compiled hcompile
  exact ⟨input, compiled, q, hdecode, hcompile, hsize, hfull, hq, heq, hcount hsize⟩

end Catalog

end QueryCatalog
