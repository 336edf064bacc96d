/-
  One walk, seen from two sides.

  Resolving is the same program over any lookups.  So whatever two sets of lookups agree on, the walks
  over them agree on: if their monads are related by a relation that is kept by `pure`, by `bind` and
  by failure (`Agreement`), and lookups are related, then so is everything that is resolved.  The
  relation carries a property of the result.  Here that is `Uses`: the entities at the leaves of a
  resolved tree are known ones, and each has passed the check of the place where it stands.

  The two walks need not be over one input: it is enough that the inputs are alike, and that keywords
  and references which may stand for each other are related (`Carries`).  `expr_alike` and its
  companions are the induction over the trees; `compile_alike` is what it is for, and
  `query_agrees`, `compile_agrees` and `build_agrees` are the case of one input.  Two walks over
  the cache, or one over the cache and one straight over the store, are instances.
-/
import QueryCatalog.AliasTarget
import QueryCatalog.Proofs.InputLikeness

namespace QueryCatalog

/-- What is known of the entities that lookups give. -/
structure Known where
  aliased : Alias → Prop
  query : StoredQuery → Prop

namespace Known

/-- A known alias that may stand for a value or a condition. -/
def Operand (k : Known) (target : Alias) : Prop := k.aliased target ∧ target.body.isTable = false

/-- A known alias that may stand for a table. -/
def Table (k : Known) (target : Alias) : Prop := k.aliased target ∧ target.body.isTable = true

/-- A known query with its statement as a single value. -/
def Scalar (k : Known) (s : Sql.ScalarSubquery) : Prop :=
  k.query s.query ∧ s.query.body.scalar = .ok s.sql

/-- A known query that may be the source of a membership test. -/
def Member (k : Known) (query : StoredQuery) : Prop := k.query query ∧ query.body.columnCount = 1

end Known

namespace Sql

/-! ## The leaves of resolved trees -/

mutual

/-- The value is built over known entities. -/
def Expr.Uses (k : Known) : Expr → Prop
  | .literal _ => True
  | .binary left _ right => left.Uses k ∧ right.Uses k
  | .call _ args => usesArgs k args
  | .interval _ _ => True
  | .conditional branches otherwise => usesBranches k branches ∧ otherwise.Uses k
  | .column _ _ => True
  | .aliased target => k.Operand target
  | .subquery subquery => k.Scalar subquery

/-- The argument is built over known entities. -/
def Arg.Uses (k : Known) : Arg → Prop
  | .star => True
  | .expr value => value.Uses k

/-- The branch is built over known entities. -/
def Branch.Uses (k : Known) : Branch → Prop
  | .mk condition result => condition.Uses k ∧ result.Uses k

/-- The truth value is built over known entities. -/
def Cond.Uses (k : Known) : Cond → Prop
  | .negation operand => operand.Uses k
  | .connective left _ right => left.Uses k ∧ right.Uses k
  | .comparison left _ right => left.Uses k ∧ right.Uses k
  | .between value lower upper _ => value.Uses k ∧ lower.Uses k ∧ upper.Uses k
  | .isNull value _ => value.Uses k
  | .member value source _ => value.Uses k ∧ source.Uses k
  | .existence query _ => k.query query
  | .aliased target => k.Operand target

/-- The source is built over known entities. -/
def MemberSource.Uses (k : Known) : MemberSource → Prop
  | .list items => usesExprs k items
  | .query query => k.Member query

/-- Some values are built over known entities. -/
def usesExprs (k : Known) : List Expr → Prop
  | [] => True
  | e :: es => e.Uses k ∧ usesExprs k es

/-- Some arguments are built over known entities. -/
def usesArgs (k : Known) : List Arg → Prop
  | [] => True
  | a :: as => a.Uses k ∧ usesArgs k as

/-- Some branches are built over known entities. -/
def usesBranches (k : Known) : List Branch → Prop
  | [] => True
  | b :: bs => b.Uses k ∧ usesBranches k bs

end

/-- The source is a known entity. -/
def Source.Uses (k : Known) : Source → Prop
  | .table target => k.Table target
  | .subquery query => k.query query

/-- The item is a known entity. -/
def SelectItem.Uses (k : Known) : SelectItem → Prop
  | .aliased target => k.Operand target
  | .subquery s => k.Scalar s

/-- The columns are known entities. -/
def Columns.Uses (k : Known) : Columns → Prop
  | .all => True
  | .list items => ∀ item ∈ items, item.Uses k

/-- The join is built over known entities. -/
def Join.Uses (k : Known) (j : Join) : Prop := j.source.Uses k ∧ j.condition.Uses k

/-- The select list and the sources are built over known entities. -/
def Select.Uses (k : Known) (s : Select) : Prop :=
  s.source.Uses k ∧ (∀ j ∈ s.join, j.Uses k) ∧ s.columns.Uses k

/-- The clauses of the query are built over known entities. -/
structure Query.Uses (k : Known) (q : Query) : Prop where
  select : q.select.Uses k
  filter : ∀ condition ∈ q.filter, condition.Uses k
  groups : ∀ items ∈ q.groups, usesExprs k items
  having : ∀ condition ∈ q.having, condition.Uses k
  order : ∀ items ∈ q.order, ∀ item ∈ items, item.operand.Uses k

end Sql

/-! ## Related computations -/

/-- A relation between the computations of two monads, with a property of the results, that is kept by
    all that a walk is made of. -/
structure Agreement (m n : Type → Type) [Monad m] [MonadExceptOf Error m] [Monad n]
    [MonadExceptOf Error n] where
  holds : {α : Type} → (α → Prop) → m α → n α → Prop
  pure : ∀ {α : Type} {P : α → Prop} {a : α}, P a → holds P (Pure.pure a) (Pure.pure a)
  bind : ∀ {α β : Type} {P : α → Prop} {Q : β → Prop} {x : m α} {y : n α} {f : α → m β} {g : α → n β},
    holds P x y → (∀ a, P a → holds Q (f a) (g a)) → holds Q (x >>= f) (y >>= g)
  fail : ∀ {α : Type} {P : α → Prop} (e : Error), holds P (Resolve.fail e) (Resolve.fail e)

variable {m n : Type → Type} [Monad m] [MonadExceptOf Error m] [Monad n] [MonadExceptOf Error n]

/-- Lookups that are related, and give known entities. -/
structure Agreement.Between (R : Agreement m n) (k : Known) (look : Lookups m) (look' : Lookups n) :
    Prop where
  aliased : ∀ lookup, R.holds k.aliased (look.aliased lookup) (look'.aliased lookup)
  query : ∀ lookup, R.holds k.query (look.query lookup) (look'.query lookup)

/-- Keywords and references that may stand for each other lead to related computations, and references
    to known entities. -/
structure Agreement.Carries (R : Agreement m n) (k : Known) (r : Input.Likeness) (look : Lookups m)
    (look' : Lookups n) : Prop where
  keyword : ∀ (κ : Type) [Keyword κ] {s s' : String}, r.keyword s s' →
    R.holds (fun _ => True) (Resolve.keyword κ s) (Resolve.keyword κ s')
  aliased : ∀ {lookup lookup' : Lookup}, r.aliased lookup lookup' →
    R.holds k.aliased (look.aliased lookup) (look'.aliased lookup')
  query : ∀ {lookup lookup' : Lookup}, r.query lookup lookup' →
    R.holds k.query (look.query lookup) (look'.query lookup')

namespace Resolve

variable (R : Agreement m n)

/-- A result that is passed on is the same on both sides. -/
theorem passing_agrees {α : Type} (result : Except Error α) :
    R.holds (fun a => result = .ok a) (passing result) (passing result) := by
  cases result with
  | ok a => exact R.pure rfl
  | error e => exact R.fail e

/-- A keyword is known on both sides or on neither. -/
theorem keyword_agrees (κ : Type) [Keyword κ] (s : String) :
    R.holds (fun _ => True) (keyword κ s : m κ) (keyword κ s) := by
  simp only [keyword]
  cases Keyword.parse κ s with
  | ok k => exact R.pure trivial
  | error e => exact R.fail _

/-- The check of a clause is the same on both sides. -/
theorem checkPlacement_agrees (clause : Clause) (isAggregate : Bool) :
    R.holds (fun _ => True) (checkPlacement clause isAggregate : m Unit)
      (checkPlacement clause isAggregate) := by
  simp only [checkPlacement]
  split
  · exact R.fail _
  · exact R.pure trivial

end Resolve

/-- Where lookups are related, the same input leads to related computations. -/
theorem Agreement.Between.carries {R : Agreement m n} {look : Lookups m} {look' : Lookups n}
    {k : Known} (hlook : R.Between k look look') : R.Carries k .same look look' where
  keyword κ _ _ _ heq := heq ▸ Resolve.keyword_agrees R κ _
  aliased heq := heq ▸ hlook.aliased _
  query heq := heq ▸ hlook.query _

namespace Resolve

variable {R : Agreement m n} {look : Lookups m} {look' : Lookups n} {k : Known}

section Alike

variable {r : Input.Likeness} (hlook : R.Carries k r look look')
include hlook

/-! ## References -/

/-- Looking up an alias for an operand: the lookups agree by assumption, and the check behind them is
    the same. -/
theorem operandAlias_alike {lookup lookup' : Lookup} (h : r.aliased lookup lookup') :
    R.holds k.Operand (operandAlias look lookup) (operandAlias look' lookup') := by
  refine R.bind (hlook.aliased h) fun target htarget => ?_
  cases hkind : target.body.isTable with
  | true => exact R.fail _
  | false => exact R.pure ⟨htarget, hkind⟩

theorem scalarSubquery_alike {lookup lookup' : Lookup} (h : r.query lookup lookup') :
    R.holds k.Scalar (scalarSubquery look lookup) (scalarSubquery look' lookup') :=
  R.bind (hlook.query h) fun query hknown =>
    R.bind (passing_agrees R query.body.scalar) fun _ hsql => R.pure ⟨hknown, hsql⟩

theorem memberQuery_alike {lookup lookup' : Lookup} (h : r.query lookup lookup') :
    R.holds k.Member (memberQuery look lookup) (memberQuery look' lookup') := by
  refine R.bind (hlook.query h) fun query hknown => ?_
  split
  · exact R.pure ⟨hknown, ‹_›⟩
  · exact R.fail _

/-! ## Trees -/

-- inside the induction the hypothesis is used by the calls of the other cases only
set_option linter.unusedSectionVars false

mutual

/-- Values that are alike are resolved alike, to values whose entities are known.  The induction is on
    the first tree, together with its arguments, branches and conditions. -/
theorem expr_alike : ∀ (e : Input.Expr) {e' : Input.Expr}, e.Like r e' →
    R.holds (Sql.Expr.Uses k) (expr look e) (expr look' e')
  | .literal value, _, h => by
    cases show _ = Input.Expr.literal value from h
    simp only [expr]
    exact R.pure trivial
  | .binary left operation right, _, h => by
    obtain ⟨left', operation', right', rfl, hoperation, hleft, hright⟩ := h
    simp only [expr]
    exact R.bind (hlook.keyword Arithmetic hoperation) fun _ _ =>
      R.bind (expr_alike left hleft) fun _ hleft =>
        R.bind (expr_alike right hright) fun _ hright => R.pure ⟨hleft, hright⟩
  | .call function args, _, h => by
    obtain ⟨function', args', rfl, hfunction, hargs⟩ := h
    simp only [expr, Input.length_of_likeArgs hargs]
    exact R.bind (hlook.keyword SqlFunction hfunction) fun f _ =>
      R.bind (argList_alike f _ args hargs) fun _ hargs => R.pure hargs
  | .interval value unit, _, h => by
    obtain ⟨unit', rfl, hunit⟩ := h
    simp only [expr]
    exact R.bind (hlook.keyword DateUnit hunit) fun _ _ => R.pure trivial
  | .conditional branches otherwise, _, h => by
    obtain ⟨branches', otherwise', rfl, hbranches, hotherwise⟩ := h
    simp only [expr]
    exact R.bind (branchList_alike branches hbranches) fun _ hbranches =>
      R.bind (expr_alike otherwise hotherwise) fun _ hotherwise => R.pure ⟨hbranches, hotherwise⟩
  | .table name, _, h => by
    cases show _ = Input.Expr.table name from h
    simp only [expr]
    exact R.fail _
  | .column table column, _, h => by
    cases show _ = Input.Expr.column table column from h
    simp only [expr]
    exact R.pure trivial
  | .aliased lookup, _, h => by
    obtain ⟨lookup', rfl, hlookup⟩ := h
    simp only [expr]
    exact R.bind (operandAlias_alike hlook hlookup) fun _ htarget => R.pure htarget
  | .subquery lookup, _, h => by
    obtain ⟨lookup', rfl, hlookup⟩ := h
    simp only [expr]
    exact R.bind (scalarSubquery_alike hlook hlookup) fun _ hscalar => R.pure hscalar
termination_by structural x => x

/-- Arguments that are alike are resolved alike, for one function and one number of them. -/
theorem arg_alike (function : SqlFunction) (sole : Bool) :
    ∀ (a : Input.Arg) {a' : Input.Arg}, a.Like r a' →
      R.holds (Sql.Arg.Uses k) (arg look function sole a) (arg look' function sole a')
  | .star, _, h => by
    cases show _ = Input.Arg.star from h
    simp only [arg]
    split
    · exact R.pure trivial
    · exact R.fail _
  | .expr value, _, h => by
    obtain ⟨value', rfl, hvalue⟩ := h
    simp only [arg]
    exact R.bind (expr_alike value hvalue) fun _ hvalue => R.pure hvalue
termination_by structural x => x

/-- Branches that are alike are resolved alike, the condition first. -/
theorem branch_alike : ∀ (b : Input.Branch) {b' : Input.Branch}, b.Like r b' →
    R.holds (Sql.Branch.Uses k) (branch look b) (branch look' b')
  | .mk condition result, _, h => by
    obtain ⟨condition', result', rfl, hcondition, hresult⟩ := h
    simp only [branch]
    exact R.bind (cond_alike condition hcondition) fun _ hcondition =>
      R.bind (expr_alike result hresult) fun _ hresult => R.pure ⟨hcondition, hresult⟩
termination_by structural x => x

/-- Conditions that are alike are resolved alike. -/
theorem cond_alike : ∀ (c : Input.Cond) {c' : Input.Cond}, c.Like r c' →
    R.holds (Sql.Cond.Uses k) (cond look c) (cond look' c')
  | .negation operand, _, h => by
    obtain ⟨operand', rfl, hoperand⟩ := h
    simp only [cond]
    exact R.bind (cond_alike operand hoperand) fun _ hoperand => R.pure hoperand
  | .connective left operation right, _, h => by
    obtain ⟨left', operation', right', rfl, hoperation, hleft, hright⟩ := h
    simp only [cond]
    exact R.bind (hlook.keyword Connective hoperation) fun _ _ =>
      R.bind (cond_alike left hleft) fun _ hleft =>
        R.bind (cond_alike right hright) fun _ hright => R.pure ⟨hleft, hright⟩
  | .comparison left operation right, _, h => by
    obtain ⟨left', operation', right', rfl, hoperation, hleft, hright⟩ := h
    simp only [cond]
    exact R.bind (hlook.keyword Comparison hoperation) fun _ _ =>
      R.bind (expr_alike left hleft) fun _ hleft =>
        R.bind (expr_alike right hright) fun _ hright => R.pure ⟨hleft, hright⟩
  | .between value lower upper negated, _, h => by
    obtain ⟨value', lower', upper', rfl, hvalue, hlower, hupper⟩ := h
    simp only [cond]
    exact R.bind (expr_alike value hvalue) fun _ hvalue =>
      R.bind (expr_alike lower hlower) fun _ hlower =>
        R.bind (expr_alike upper hupper) fun _ hupper => R.pure ⟨hvalue, hlower, hupper⟩
  | .isNull value negated, _, h => by
    obtain ⟨value', rfl, hvalue⟩ := h
    simp only [cond]
    exact R.bind (expr_alike value hvalue) fun _ hvalue => R.pure hvalue
  | .member value source negated, _, h => by
    obtain ⟨value', source', rfl, hvalue, hsource⟩ := h
    simp only [cond]
    exact R.bind (expr_alike value hvalue) fun _ hvalue =>
      R.bind (memberSource_alike source hsource) fun _ hsource => R.pure ⟨hvalue, hsource⟩
  | .existence lookup negated, _, h => by
    obtain ⟨lookup', rfl, hlookup⟩ := h
    simp only [cond]
    exact R.bind (hlook.query hlookup) fun _ hknown => R.pure hknown
  | .aliased lookup, _, h => by
    obtain ⟨lookup', rfl, hlookup⟩ := h
    simp only [cond]
    exact R.bind (operandAlias_alike hlook hlookup) fun _ htarget => R.pure htarget
termination_by structural x => x

/-- Sources of membership tests that are alike are resolved alike. -/
theorem memberSource_alike : ∀ (s : Input.MemberSource) {s' : Input.MemberSource}, s.Like r s' →
    R.holds (Sql.MemberSource.Uses k) (memberSource look s) (memberSource look' s')
  | .list items, _, h => by
    obtain ⟨items', rfl, hitems⟩ := h
    simp only [memberSource]
    exact R.bind (exprList_alike items hitems) fun _ hitems => R.pure hitems
  | .query lookup, _, h => by
    obtain ⟨lookup', rfl, hlookup⟩ := h
    simp only [memberSource]
    exact R.bind (memberQuery_alike hlook hlookup) fun _ hmember => R.pure hmember
termination_by structural x => x

theorem exprList_alike : ∀ (es : List Input.Expr) {es' : List Input.Expr}, Input.likeExprs r es es' →
    R.holds (Sql.usesExprs k) (exprList look es) (exprList look' es')
  | [], _, h => by
    cases show _ = [] from h
    simp only [exprList]
    exact R.pure trivial
  | e :: es, _, h => by
    obtain ⟨e', es', rfl, he, hes⟩ := h
    simp only [exprList]
    exact R.bind (expr_alike e he) fun _ he =>
      R.bind (exprList_alike es hes) fun _ hes => R.pure ⟨he, hes⟩
termination_by structural x => x

theorem argList_alike (function : SqlFunction) (sole : Bool) :
    ∀ (as : List Input.Arg) {as' : List Input.Arg}, Input.likeArgs r as as' →
      R.holds (Sql.usesArgs k) (argList look function sole as) (argList look' function sole as')
  | [], _, h => by
    cases show _ = [] from h
    simp only [argList]
    exact R.pure trivial
  | a :: as, _, h => by
    obtain ⟨a', as', rfl, ha, has⟩ := h
    simp only [argList]
    exact R.bind (arg_alike function sole a ha) fun _ ha =>
      R.bind (argList_alike function sole as has) fun _ has => R.pure ⟨ha, has⟩
termination_by structural x => x

theorem branchList_alike : ∀ (bs : List Input.Branch) {bs' : List Input.Branch},
    Input.likeBranches r bs bs' →
      R.holds (Sql.usesBranches k) (branchList look bs) (branchList look' bs')
  | [], _, h => by
    cases show _ = [] from h
    simp only [branchList]
    exact R.pure trivial
  | b :: bs, _, h => by
    obtain ⟨b', bs', rfl, hb, hbs⟩ := h
    simp only [branchList]
    exact R.bind (branch_alike b hb) fun _ hb =>
      R.bind (branchList_alike bs hbs) fun _ hbs => R.pure ⟨hb, hbs⟩
termination_by structural x => x

end

/-! ## Clauses -/

/-- Sources of rows that are alike are looked up alike, and checked alike. -/
theorem source_alike {s s' : Input.Reference} (h : s.Like r s') :
    R.holds (Sql.Source.Uses k) (source look s) (source look' s') := by
  cases s with
  | aliased lookup =>
    obtain ⟨lookup', rfl, hlookup⟩ := h
    simp only [source]
    refine R.bind (hlook.aliased hlookup) fun target htarget => ?_
    cases hkind : target.body.isTable with
    | true => exact R.pure ⟨htarget, hkind⟩
    | false => exact R.fail _
  | subquery lookup =>
    obtain ⟨lookup', rfl, hlookup⟩ := h
    exact R.bind (hlook.query hlookup) fun _ hknown => R.pure hknown

/-- Items of a select list that are alike are looked up alike. -/
theorem selectItem_alike {i i' : Input.Reference} (h : i.Like r i') :
    R.holds (Sql.SelectItem.Uses k) (selectItem look i) (selectItem look' i') := by
  cases i with
  | aliased lookup =>
    obtain ⟨lookup', rfl, hlookup⟩ := h
    exact R.bind (operandAlias_alike hlook hlookup) fun _ h => R.pure h
  | subquery lookup =>
    obtain ⟨lookup', rfl, hlookup⟩ := h
    exact R.bind (scalarSubquery_alike hlook hlookup) fun _ h => R.pure h

theorem selectItems_alike {is is' : List Input.Reference}
    (h : List.Forall₂ (Input.Reference.Like r) is is') :
    R.holds (fun items => ∀ item ∈ items, Sql.SelectItem.Uses k item) (selectItems look is)
      (selectItems look' is') := by
  induction h with
  | nil => exact R.pure fun _ h => absurd h List.not_mem_nil
  | cons hi _ ih =>
    exact R.bind (selectItem_alike hlook hi) fun _ hi =>
      R.bind ih fun _ his => R.pure (List.forall_mem_cons.mpr ⟨hi, his⟩)

/-- Select lists that are alike are resolved alike. -/
theorem columns_alike {c c' : Input.Columns} (h : c.Like r c') :
    R.holds (Sql.Columns.Uses k) (columns look c) (columns look' c') := by
  cases c with
  | all =>
    cases show _ = Input.Columns.all from h
    exact R.pure trivial
  | list items =>
    obtain ⟨items', rfl, hitems⟩ := h
    exact R.bind (selectItems_alike hlook hitems) fun _ hitems => R.pure hitems

/-- Joins that are alike are resolved alike, in the order kind, source, condition, check. -/
theorem join_alike {j j' : Input.Join} (h : j.Like r j') :
    R.holds (Sql.Join.Uses k) (join look j) (join look' j') :=
  R.bind (hlook.keyword JoinKind h.kind) fun _ _ =>
    R.bind (source_alike hlook h.source) fun _ hsource =>
      R.bind (cond_alike hlook j.condition h.condition) fun condition hcondition =>
        R.bind (checkPlacement_agrees R .join condition.isAggregate) fun _ _ =>
          R.pure ⟨hsource, hcondition⟩

omit hlook in
/-- Clauses that may be absent are so on both sides or on neither. -/
theorem optional_alike {α β : Type} {L : α → α → Prop} {P : β → Prop} {f : α → m β} {g : α → n β}
    {x x' : Option α} (h : Option.Rel L x x') (hf : ∀ a a', L a a' → R.holds P (f a) (g a')) :
    R.holds (fun b => ∀ y ∈ b, P y) (optional f x) (optional g x') := by
  cases h with
  | none => exact R.pure fun _ h => absurd h (Option.not_mem_none _)
  | some ha => exact R.bind (hf _ _ ha) fun b hb => R.pure fun y hy => Option.mem_some.mp hy ▸ hb

/-- The sources come first, then the select list. -/
theorem select_alike {s s' : Input.Select} (h : s.Like r s') :
    R.holds (Sql.Select.Uses k) (select look s) (select look' s') := by
  have hjoin := optional_alike h.join fun _ _ => join_alike hlook
  exact R.bind (source_alike hlook h.source) fun _ hsource =>
    R.bind hjoin fun _ hjoin =>
      R.bind (columns_alike hlook h.columns) fun _ hcolumns => R.pure ⟨hsource, hjoin, hcolumns⟩

/-- Filters that are alike are resolved alike, and checked alike. -/
theorem filter_alike {c c' : Input.Cond} (h : c.Like r c') :
    R.holds (Sql.Cond.Uses k) (filter look c) (filter look' c') :=
  R.bind (cond_alike hlook c h) fun condition hcondition =>
    R.bind (checkPlacement_agrees R .filter condition.isAggregate) fun _ _ => R.pure hcondition

/-- Groupings that are alike are resolved alike, each item checked before the next. -/
theorem groups_alike {es es' : List Input.Expr} (h : Input.likeExprs r es es') :
    R.holds (Sql.usesExprs k) (groups look es) (groups look' es') := by
  induction es generalizing es' with
  | nil =>
    cases show _ = [] from h
    exact R.pure trivial
  | cons e es ih =>
    obtain ⟨e', es', rfl, he, hes⟩ := h
    exact R.bind (expr_alike hlook e he) fun e' he =>
      R.bind (checkPlacement_agrees R .groups e'.isAggregate) fun _ _ =>
        R.bind (ih hes) fun _ hes => R.pure ⟨he, hes⟩

/-- Orders that are alike are resolved alike, each direction before its operand. -/
theorem order_alike {is is' : List Input.OrderItem}
    (h : List.Forall₂ (Input.OrderItem.Like r) is is') :
    R.holds (fun items => ∀ item ∈ items, item.operand.Uses k) (order look is) (order look' is') := by
  induction h with
  | nil => exact R.pure fun _ h => absurd h List.not_mem_nil
  | cons hi _ ih =>
    exact R.bind (hlook.keyword Direction hi.direction) fun _ _ =>
      R.bind (expr_alike hlook _ hi.operand) fun _ hoperand =>
        R.bind ih fun _ his => R.pure (List.forall_mem_cons.mpr ⟨hoperand, his⟩)

/-- Queries that are alike are resolved alike; the limit is the one that was asked for. -/
theorem query_alike {input input' : Input.Query} (h : input.Like r input') :
    R.holds (fun q => q.Uses k ∧ q.limit = input.limit) (query look input) (query look' input') := by
  have hselect := select_alike hlook h.select
  have hfilter := optional_alike h.filter fun _ _ => filter_alike hlook
  have hgroups := optional_alike h.groups fun _ _ => groups_alike hlook
  have hhaving := optional_alike h.having fun c _ => cond_alike hlook c
  have horder := optional_alike h.order fun _ _ => order_alike hlook
  rw [query, query, ← h.limit]
  exact R.bind hselect fun _ hselect => R.bind hfilter fun _ hfilter =>
    R.bind hgroups fun _ hgroups => R.bind hhaving fun _ hhaving => R.bind horder fun _ horder =>
      R.pure ⟨⟨hselect, hfilter, hgroups, hhaving, horder⟩, rfl⟩

/-- Queries that are alike are compiled alike. -/
theorem compile_alike {input input' : Input.Query} (h : input.Like r input') :
    R.holds (fun compiled => ∃ q : Sql.Query, q.Uses k ∧ q.limit = input.limit ∧ compiled = q.compiled)
      (compile look input) (compile look' input') :=
  R.bind (query_alike hlook h) fun q hq => R.pure ⟨q, hq.1, hq.2, rfl⟩

end Alike

/-! ## One input -/

section Agrees

variable (hlook : R.Between k look look')
include hlook

/-- One value over two kinds of lookups. -/
theorem expr_agrees (e : Input.Expr) :
    R.holds (Sql.Expr.Uses k) (expr look e) (expr look' e) :=
  expr_alike hlook.carries e (e.like_refl Input.Likeness.same_isReflexive)

/-- One condition over two kinds of lookups. -/
theorem cond_agrees (c : Input.Cond) :
    R.holds (Sql.Cond.Uses k) (cond look c) (cond look' c) :=
  cond_alike hlook.carries c (c.like_refl Input.Likeness.same_isReflexive)

theorem source_agrees (s : Input.Reference) :
    R.holds (Sql.Source.Uses k) (source look s) (source look' s) :=
  source_alike hlook.carries (s.like_refl Input.Likeness.same_isReflexive)

omit hlook in
theorem optional_agrees {α β : Type} {P : β → Prop} {f : α → m β} {g : α → n β}
    (h : ∀ a, R.holds P (f a) (g a)) (a : Option α) :
    R.holds (fun b => ∀ x ∈ b, P x) (optional f a) (optional g a) :=
  optional_alike (Input.optional_refl (fun _ => rfl) a) fun a _ heq => heq ▸ h a

theorem select_agrees (s : Input.Select) :
    R.holds (Sql.Select.Uses k) (select look s) (select look' s) :=
  select_alike hlook.carries (s.like_refl Input.Likeness.same_isReflexive)

theorem filter_agrees (c : Input.Cond) :
    R.holds (Sql.Cond.Uses k) (filter look c) (filter look' c) :=
  filter_alike hlook.carries (c.like_refl Input.Likeness.same_isReflexive)

theorem groups_agrees (es : List Input.Expr) :
    R.holds (Sql.usesExprs k) (groups look es) (groups look' es) :=
  groups_alike hlook.carries (Input.likeExprs_refl Input.Likeness.same_isReflexive es)

/-- A query is resolved alike; its limit is the one that was asked for. -/
theorem query_agrees (input : Input.Query) :
    R.holds (fun q => q.Uses k ∧ q.limit = input.limit) (query look input) (query look' input) :=
  query_alike hlook.carries (input.like_refl Input.Likeness.same_isReflexive)

/-- A query is compiled alike. -/
theorem compile_agrees (input : Input.Query) :
    R.holds (fun compiled => ∃ q : Sql.Query, q.Uses k ∧ q.limit = input.limit ∧ compiled = q.compiled)
      (compile look input) (compile look' input) :=
  compile_alike hlook.carries (input.like_refl Input.Likeness.same_isReflexive)

end Agrees

end Resolve

/-! ## Alias bodies -/

/-- How the body of an alias comes about: from a table, or from a tree over known entities, all of whose
    own columns have been checked. -/
inductive AliasTarget.Built (access : TableAccess) (k : Known) (owner : Owner) (name : String) :
    AliasBody → Prop
  | table {table : String} (hcheck : access.checkTable table = .ok ()) :
    Built access k owner name ⟨owner, name, Text.quotedName table, true, false⟩
  | expr {value : Sql.Expr} (huses : value.Uses k)
    (hcheck : access.checkColumns value.columns = .ok ()) :
    Built access k owner name ⟨owner, name, value.render, false, value.isAggregate⟩
  | cond {condition : Sql.Cond} (huses : condition.Uses k)
    (hcheck : access.checkColumns condition.columns = .ok ()) :
    Built access k owner name ⟨owner, name, condition.render, false, condition.isAggregate⟩

/-- An alias belongs to the owner for whom it was built. -/
theorem AliasTarget.Built.owner_eq {access : TableAccess} {k : Known} {owner : Owner} {name : String}
    {body : AliasBody} (h : Built access k owner name body) : Body.owner body = owner := by
  cases h <;> rfl

/-- The body of an alias is built alike. -/
theorem AliasTarget.build_agrees {R : Agreement m n} {k : Known} {look : Lookups m}
    {look' : Lookups n} (hlook : R.Between k look look') (access : TableAccess) (owner : Owner)
    (request : Input.AliasRequest) :
    R.holds (Built access k owner request.name) (build access look owner request)
      (build access look' owner request) := by
  simp only [build]
  split
  · exact R.bind (Resolve.passing_agrees R _) fun _ hcheck => R.pure (.table hcheck)
  · exact R.bind (Resolve.expr_agrees hlook _) fun resolved huses =>
      R.bind (Resolve.passing_agrees R (access.checkColumns resolved.columns)) fun _ hcheck =>
        R.pure (.expr huses hcheck)
  · exact R.bind (Resolve.cond_agrees hlook _) fun resolved huses =>
      R.bind (Resolve.passing_agrees R (access.checkColumns resolved.columns)) fun _ hcheck =>
        R.pure (.cond huses hcheck)

end QueryCatalog
