/-
  Where a query is refused for an aggregate.

  Three clauses must not have an aggregate, and each is checked as soon as it is resolved.  A walk over a
  tree, a source or a select list never complains about the place of an aggregate (`Lenient`); only
  the three checks do.  So a query that is refused for an aggregate is refused at one of the checked trees,
  all that comes before it having been resolved (`Reaches`, `query_misplaces_iff`), and whatever a
  clause is resolved to has passed its check (`Gives`).
-/
import QueryCatalog.Proofs.Expansion

namespace QueryCatalog

/-! ## Walks that do not check -/

/-- The computation fails since an aggregate stands in a clause. -/
def Misplaces {α : Type} (x : Cache.Fetching α) (t : Cache.Traffic) (clause : Clause) : Prop :=
  (x.run t).1 = .error (.misplacedAggregate clause)

/-- The computation never complains about the place of an aggregate. -/
def Lenient {α : Type} (x : Cache.Fetching α) : Prop := ∀ t clause, ¬ Misplaces x t clause

section Bind

variable {α β : Type} {x : Cache.Fetching α} {f : α → Cache.Fetching β} {t : Cache.Traffic}
  {clause : Clause}

/-- A walk of two parts fails by a misplaced aggregate in the first part, or in the second, started
    where the first has ended. -/
theorem misplaces_bind_iff :
    Misplaces (x >>= f) t clause ↔
      Misplaces x t clause ∨ ∃ a t', x.run t = (.ok a, t') ∧ Misplaces (f a) t' clause :=
  run_bind_eq_error_iff

namespace Lenient

/-- What is given outright does not fail. -/
theorem pure (a : α) : Lenient (Pure.pure a) := by
  intro t clause h
  cases h

/-- A walk whose parts never blame an aggregate does not do so either. -/
theorem bind (hx : Lenient x) (hf : ∀ a, Lenient (f a)) : Lenient (x >>= f) := by
  intro t clause h
  rcases misplaces_bind_iff.mp h with h | ⟨a, t', -, h⟩
  · exact hx t clause h
  · exact hf a t' clause h

/-- Another failure is not blamed on an aggregate. -/
theorem fail {e : Error} (he : ∀ clause, e ≠ .misplacedAggregate clause) :
    Lenient (Resolve.fail e : Cache.Fetching α) := by
  intro t clause h
  exact he clause (Except.error.inj h)

/-- Nor is a result that is passed on, unless it is that failure. -/
theorem passing {r : Except Error α} (hr : ∀ clause, r ≠ .error (.misplacedAggregate clause)) :
    Lenient (Resolve.passing r : Cache.Fetching α) := by
  cases r with
  | ok a => exact .pure a
  | error e => exact .fail fun clause he => hr clause (congrArg Except.error he)

/-- Behind a step that does not check, the complaint comes from what follows. -/
theorem misplaces_bind_iff (hx : Lenient x) :
    Misplaces (x >>= f) t clause ↔ ∃ a t', x.run t = (.ok a, t') ∧ Misplaces (f a) t' clause := by
  rw [QueryCatalog.misplaces_bind_iff]
  exact or_iff_right (hx t clause)

/-- Before steps that do not check, the complaint comes from what precedes. -/
theorem misplaces_iff (hf : ∀ a, Lenient (f a)) :
    Misplaces (x >>= f) t clause ↔ Misplaces x t clause := by
  rw [QueryCatalog.misplaces_bind_iff]
  refine or_iff_left ?_
  rintro ⟨a, t', -, h⟩
  exact hf a t' clause h

end Lenient

end Bind

/-- A fetch fails for want of an entity or because a record would expire too late; the services are in
    reach. -/
theorem Cache.lenient_fetch {β : Type} [Cached β] {b : Backing} (hup : b.down = [])
    (table : Table β) (owner : Owner) (lookup : Lookup) : Lenient (fetch b table owner lookup) := by
  intro t clause h
  have hcases := fetch_cases hup table owner lookup t
  rw [Misplaces] at h
  generalize (fetch b table owner lookup).run t = r at h hcases
  cases hcases with
  | hit _ => cases h
  | missing _ _ => cases h
  | overflow _ _ _ => cases h
  | loaded _ _ _ _ => cases h

/-- Scalarizing fails by the columns or by the rows of a query. -/
theorem QueryBody.scalar_ne_misplaced (q : QueryBody) (clause : Clause) :
    q.scalar ≠ .error (.misplacedAggregate clause) := by
  intro h
  rw [scalar] at h
  repeat' split at h
  all_goals cases h

/-- Lookups that never complain about the place of an aggregate. -/
structure Lookups.Lenient (look : Lookups Cache.Fetching) : Prop where
  aliased : ∀ lookup, QueryCatalog.Lenient (look.aliased lookup)
  query : ∀ lookup, QueryCatalog.Lenient (look.query lookup)

/-- The lookups of an owner are fetches, and so none of them blames an aggregate. -/
theorem Cache.lenient_lookups {b : Backing} (hup : b.down = []) (owner : Owner) :
    (lookups b owner).Lenient where
  aliased lookup := lenient_fetch hup b.store.aliases owner lookup
  query lookup := lenient_fetch hup b.store.queries owner lookup

namespace Resolve

variable {look : Lookups Cache.Fetching}

/-- An unknown keyword is a failure of its own. -/
theorem lenient_keyword (κ : Type) [Keyword κ] (s : String) :
    Lenient (keyword κ s : Cache.Fetching κ) := by
  rw [keyword]
  cases Keyword.parse κ s with
  | ok k => exact .pure k
  | error e => exact .fail fun _ h => by cases h

section Walks

variable (hlook : look.Lenient)
include hlook

/-- An alias of a table in the place of an operand is a failure of its own. -/
theorem lenient_operandAlias (lookup : Lookup) : Lenient (operandAlias look lookup) := by
  refine (hlook.aliased lookup).bind fun target => ?_
  cases target.body.isTable with
  | true => exact .fail fun _ h => by cases h
  | false => exact .pure target

/-- A query that has no single value is a failure of its own. -/
theorem lenient_scalarSubquery (lookup : Lookup) : Lenient (scalarSubquery look lookup) := by
  refine (hlook.query lookup).bind fun query => ?_
  exact (Lenient.passing query.body.scalar_ne_misplaced).bind fun _ => .pure _

/-- So is a query of more columns than one in a membership test. -/
theorem lenient_memberQuery (lookup : Lookup) : Lenient (memberQuery look lookup) := by
  refine (hlook.query lookup).bind fun query => ?_
  split
  · exact .pure query
  · exact .fail fun _ h => by cases h

-- inside the induction the hypothesis is used by the calls of the other cases only
set_option linter.unusedSectionVars false

mutual

/-- Resolving a value blames no aggregate: the check is made by the clauses and nowhere below them.
    The induction is on the tree, together with its arguments, branches and conditions. -/
theorem lenient_expr : ∀ e : Input.Expr, Lenient (expr look e)
  | .literal _ => by
    rw [expr]
    exact .pure _
  | .binary left operation right => by
    rw [expr]
    refine (lenient_keyword Arithmetic operation).bind fun _ => ?_
    exact (lenient_expr left).bind fun _ => (lenient_expr right).bind fun _ => .pure _
  | .call function args => by
    rw [expr]
    refine (lenient_keyword SqlFunction function).bind fun f => ?_
    exact (lenient_argList f _ args).bind fun _ => .pure _
  | .interval _ unit => by
    rw [expr]
    exact (lenient_keyword DateUnit unit).bind fun _ => .pure _
  | .conditional branches otherwise => by
    rw [expr]
    exact (lenient_branchList branches).bind fun _ => (lenient_expr otherwise).bind fun _ => .pure _
  | .table _ => by
    rw [expr]
    -- a table is refused here, but not as an aggregate
    exact .fail fun _ h => by cases h
  | .column _ _ => by
    rw [expr]
    exact .pure _
  | .aliased lookup => by
    rw [expr]
    exact (lenient_operandAlias hlook lookup).bind fun _ => .pure _
  | .subquery lookup => by
    rw [expr]
    exact (lenient_scalarSubquery hlook lookup).bind fun _ => .pure _

/-- An argument is refused for being the mark for all columns, if at all. -/
theorem lenient_arg (function : SqlFunction) (sole : Bool) :
    ∀ a : Input.Arg, Lenient (arg look function sole a)
  | .star => by
    rw [arg]
    split
    · exact .pure _
    · exact .fail fun _ h => by cases h
  | .expr value => by
    rw [arg]
    exact (lenient_expr value).bind fun _ => .pure _

theorem lenient_branch : ∀ b : Input.Branch, Lenient (branch look b)
  | .mk condition result => by
    rw [branch]
    exact (lenient_cond condition).bind fun _ => (lenient_expr result).bind fun _ => .pure _

/-- Resolving a condition blames no aggregate. -/
theorem lenient_cond : ∀ c : Input.Cond, Lenient (cond look c)
  | .negation operand => by
    rw [cond]
    exact (lenient_cond operand).bind fun _ => .pure _
  | .connective left operation right => by
    rw [cond]
    refine (lenient_keyword Connective operation).bind fun _ => ?_
    exact (lenient_cond left).bind fun _ => (lenient_cond right).bind fun _ => .pure _
  | .comparison left operation right => by
    rw [cond]
    refine (lenient_keyword Comparison operation).bind fun _ => ?_
    exact (lenient_expr left).bind fun _ => (lenient_expr right).bind fun _ => .pure _
  | .between value lower upper _ => by
    rw [cond]
    refine (lenient_expr value).bind fun _ => ?_
    exact (lenient_expr lower).bind fun _ => (lenient_expr upper).bind fun _ => .pure _
  | .isNull value _ => by
    rw [cond]
    exact (lenient_expr value).bind fun _ => .pure _
  | .member value source _ => by
    rw [cond]
    exact (lenient_expr value).bind fun _ => (lenient_memberSource source).bind fun _ => .pure _
  | .existence lookup _ => by
    rw [cond]
    exact (hlook.query lookup).bind fun _ => .pure _
  | .aliased lookup => by
    rw [cond]
    exact (lenient_operandAlias hlook lookup).bind fun _ => .pure _

/-- The source of a membership test, listed or looked up. -/
theorem lenient_memberSource : ∀ s : Input.MemberSource, Lenient (memberSource look s)
  | .list items => by
    rw [memberSource]
    exact (lenient_exprList items).bind fun _ => .pure _
  | .query lookup => by
    rw [memberSource]
    exact (lenient_memberQuery hlook lookup).bind fun _ => .pure _

theorem lenient_exprList : ∀ es : List Input.Expr, Lenient (exprList look es)
  | [] => by
    rw [exprList]
    exact .pure _
  | e :: es => by
    rw [exprList]
    exact (lenient_expr e).bind fun _ => (lenient_exprList es).bind fun _ => .pure _

theorem lenient_argList (function : SqlFunction) (sole : Bool) :
    ∀ as : List Input.Arg, Lenient (argList look function sole as)
  | [] => by
    rw [argList]
    exact .pure _
  | a :: as => by
    rw [argList]
    exact (lenient_arg function sole a).bind fun _ =>
      (lenient_argList function sole as).bind fun _ => .pure _

theorem lenient_branchList : ∀ bs : List Input.Branch, Lenient (branchList look bs)
  | [] => by
    rw [branchList]
    exact .pure _
  | b :: bs => by
    rw [branchList]
    exact (lenient_branch b).bind fun _ => (lenient_branchList bs).bind fun _ => .pure _

end

/-- A source of rows is looked up and nothing else. -/
theorem lenient_source (s : Input.Reference) : Lenient (source look s) := by
  cases s with
  | aliased lookup =>
    refine (hlook.aliased lookup).bind fun target => ?_
    cases target.body.isTable with
    | true => exact .pure _
    | false => exact .fail fun _ h => by cases h
  | subquery lookup => exact (hlook.query lookup).bind fun _ => .pure _

/-- The items of a select list, where aggregates may stand. -/
theorem lenient_selectItems (is : List Input.Reference) : Lenient (selectItems look is) := by
  induction is with
  | nil => exact .pure _
  | cons i is ih =>
    have hitem : Lenient (selectItem look i) := by
      cases i with
      | aliased lookup => exact (lenient_operandAlias hlook lookup).bind fun _ => .pure _
      | subquery lookup => exact (lenient_scalarSubquery hlook lookup).bind fun _ => .pure _
    exact hitem.bind fun _ => ih.bind fun _ => .pure _

theorem lenient_columns (c : Input.Columns) : Lenient (columns look c) := by
  cases c with
  | all => exact .pure _
  | list items => exact (lenient_selectItems hlook items).bind fun _ => .pure _

/-- An order, where aggregates may stand as well. -/
theorem lenient_order (is : List Input.OrderItem) : Lenient (order look is) := by
  induction is with
  | nil => exact .pure _
  | cons i is ih =>
    refine (lenient_keyword Direction i.direction).bind fun _ => ?_
    exact (lenient_expr hlook i.operand).bind fun _ => ih.bind fun _ => .pure _

omit hlook in
/-- A clause that is absent fails in no way. -/
theorem lenient_optional {α β : Type} {f : α → Cache.Fetching β} (hf : ∀ a, Lenient (f a))
    (a : Option α) : Lenient (optional f a) := by
  cases a with
  | none => exact .pure _
  | some a => exact (hf a).bind fun _ => .pure _

end Walks

/-! ## The three checks -/

/-- Resolving a query comes, in one of the clauses that are checked, to a tree: all that stands before it
    has been resolved, and so has the tree itself. -/
inductive Reaches (look : Lookups Cache.Fetching) (t : Cache.Traffic) (input : Input.Query) :
    Clause → Sql.Phrase → Prop
  | join {j : Input.Join} {first second : Sql.Source} {kind : JoinKind} {tree : Sql.Cond}
    {t₁ t₂ t₃ t₄ : Cache.Traffic} (hjoin : input.select.join = some j)
    (hfirst : (source look input.select.source).run t = (.ok first, t₁))
    (hkind : (keyword JoinKind j.kind : Cache.Fetching JoinKind).run t₁ = (.ok kind, t₂))
    (hsecond : (source look j.source).run t₂ = (.ok second, t₃))
    (htree : (cond look j.condition).run t₃ = (.ok tree, t₄)) :
    Reaches look t input .join (.cond tree)
  | filter {condition : Input.Cond} {s : Sql.Select} {tree : Sql.Cond} {t₁ t₂ : Cache.Traffic}
    (hfilter : input.filter = some condition)
    (hselect : (select look input.select).run t = (.ok s, t₁))
    (htree : (cond look condition).run t₁ = (.ok tree, t₂)) :
    Reaches look t input .filter (.cond tree)
  | groups {before after : List Input.Expr} {item : Input.Expr} {s : Sql.Select}
    {f : Option Sql.Cond} {es : List Sql.Expr} {tree : Sql.Expr} {t₁ t₂ t₃ t₄ : Cache.Traffic}
    (hgroups : input.groups = some (before ++ item :: after))
    (hselect : (select look input.select).run t = (.ok s, t₁))
    (hfilter : (optional (Resolve.filter look) input.filter).run t₁ = (.ok f, t₂))
    (hbefore : (Resolve.groups look before).run t₂ = (.ok es, t₃))
    (htree : (expr look item).run t₃ = (.ok tree, t₄)) :
    Reaches look t input .groups (.expr tree)

/-- A tree that is reached is built over what can be fetched. -/
theorem Reaches.uses {b : Cache.Backing} {owner : Owner} {t : Cache.Traffic} {input : Input.Query}
    {clause : Clause} {p : Sql.Phrase} {k : Known} (hk : Cache.Fetchable b owner t k)
    (h : Reaches (Cache.lookups b owner) t input clause p) : p.Uses k := by
  have hlook := Cache.lookups_between hk
  -- each step leaves traffic from which the next one fetches on
  have hstep : ∀ {α : Type} {P : α → Prop} {x : Cache.Fetching α} {u u' : Cache.Traffic} {a : α},
      (Cache.sameUnder fun u u' => u = u' ∧ Cache.Walked b owner t u).holds P x x →
      Cache.Walked b owner t u → x.run u = (.ok a, u') → Cache.Walked b owner t u' ∧ P a := by
    intro α P x u u' a hx hu hrun
    obtain ⟨-, ⟨-, hleft⟩, hP⟩ := hx u u ⟨rfl, hu⟩
    rw [hrun] at hleft hP
    exact ⟨hleft, hP a rfl⟩
  cases h with
  | join _ hfirst hkind hsecond htree =>
    obtain ⟨hwalked, -⟩ := hstep (source_agrees hlook _) .refl hfirst
    obtain ⟨hwalked, -⟩ := hstep (keyword_agrees _ JoinKind _) hwalked hkind
    obtain ⟨hwalked, -⟩ := hstep (source_agrees hlook _) hwalked hsecond
    exact (hstep (cond_agrees hlook _) hwalked htree).2
  | filter _ hselect htree =>
    obtain ⟨hwalked, -⟩ := hstep (select_agrees hlook _) .refl hselect
    exact (hstep (cond_agrees hlook _) hwalked htree).2
  | groups _ hselect hfilter hbefore htree =>
    obtain ⟨hwalked, -⟩ := hstep (select_agrees hlook _) .refl hselect
    obtain ⟨hwalked, -⟩ := hstep (optional_agrees (filter_agrees hlook) _) hwalked hfilter
    obtain ⟨hwalked, -⟩ := hstep (groups_agrees hlook _) hwalked hbefore
    exact (hstep (expr_agrees hlook _) hwalked htree).2

/-- The check fails exactly if there is an aggregate, and names the clause in which it was made. -/
theorem checkPlacement_misplaces_iff {place clause : Clause} (hplace : place.allowsAggregates = false)
    (isAggregate : Bool) (t : Cache.Traffic) :
    Misplaces (checkPlacement place isAggregate) t clause ↔ clause = place ∧ isAggregate = true := by
  rw [checkPlacement, hplace]
  cases isAggregate with
  | true =>
    constructor
    · intro h
      have heq : Error.misplacedAggregate place = .misplacedAggregate clause := Except.error.inj h
      exact ⟨(Error.misplacedAggregate.inj heq).symm, rfl⟩
    · rintro ⟨rfl, -⟩
      rfl
  | false =>
    constructor
    · intro h
      cases h
    · rintro ⟨-, h⟩
      cases h

section Checks

variable (hlook : look.Lenient) {t : Cache.Traffic} {clause : Clause}
include hlook

/-- A join fails so exactly if its condition is reached, that is kind and source have been resolved,
    and holds an aggregate. -/
theorem join_misplaces_iff (j : Input.Join) :
    Misplaces (join look j) t clause ↔ clause = .join ∧
      ∃ kind second tree t₁ t₂ t₃,
        (keyword JoinKind j.kind : Cache.Fetching JoinKind).run t = (.ok kind, t₁) ∧
        (source look j.source).run t₁ = (.ok second, t₂) ∧
        (cond look j.condition).run t₂ = (.ok tree, t₃) ∧ tree.isAggregate = true := by
  simp only [join, (lenient_keyword JoinKind j.kind).misplaces_bind_iff,
    (lenient_source hlook j.source).misplaces_bind_iff,
    (lenient_cond hlook j.condition).misplaces_bind_iff, Lenient.misplaces_iff fun _ => .pure _,
    checkPlacement_misplaces_iff (show Clause.allowsAggregates .join = false from rfl)]
  constructor
  · rintro ⟨kind, t₁, hkind, second, t₂, hsecond, tree, t₃, htree, hclause, haggregate⟩
    exact ⟨hclause, kind, second, tree, t₁, t₂, t₃, hkind, hsecond, htree, haggregate⟩
  · rintro ⟨hclause, kind, second, tree, t₁, t₂, t₃, hkind, hsecond, htree, haggregate⟩
    exact ⟨kind, t₁, hkind, second, t₂, hsecond, tree, t₃, htree, hclause, haggregate⟩

/-- A filter fails so exactly if its condition can be resolved and holds an aggregate. -/
theorem filter_misplaces_iff (c : Input.Cond) :
    Misplaces (filter look c) t clause ↔ clause = .filter ∧
      ∃ tree t₁, (cond look c).run t = (.ok tree, t₁) ∧ tree.isAggregate = true := by
  simp only [filter, (lenient_cond hlook c).misplaces_bind_iff,
    Lenient.misplaces_iff fun _ => .pure _,
    checkPlacement_misplaces_iff (show Clause.allowsAggregates .filter = false from rfl)]
  constructor
  · rintro ⟨tree, t₁, htree, hclause, haggregate⟩
    exact ⟨hclause, tree, t₁, htree, haggregate⟩
  · rintro ⟨hclause, tree, t₁, htree, haggregate⟩
    exact ⟨tree, t₁, htree, hclause, haggregate⟩

/-- A grouping is refused at its first aggregate, behind items that have passed. -/
theorem groups_misplaces_iff (es : List Input.Expr) :
    Misplaces (groups look es) t clause ↔ clause = .groups ∧
      ∃ before item after rs tree t₁ t₂, es = before ++ item :: after ∧
        (groups look before).run t = (.ok rs, t₁) ∧
        (expr look item).run t₁ = (.ok tree, t₂) ∧ tree.isAggregate = true := by
  induction es generalizing t with
  | nil =>
    constructor
    · intro h
      cases h
    · rintro ⟨-, before, item, after, -, -, -, -, heq, -⟩
      cases before <;> cases heq
  | cons e es ih =>
    -- an item is resolved and then checked, before the next one is looked at
    have hcons : Misplaces (groups look (e :: es)) t clause ↔
        ∃ r t₁, (expr look e).run t = (.ok r, t₁) ∧
          ((clause = .groups ∧ r.isAggregate = true) ∨
            ∃ u t₂, (checkPlacement .groups r.isAggregate : Cache.Fetching Unit).run t₁ =
              (.ok u, t₂) ∧ Misplaces (groups look es) t₂ clause) := by
      simp only [groups, (lenient_expr hlook e).misplaces_bind_iff, misplaces_bind_iff,
        checkPlacement_misplaces_iff (show Clause.allowsAggregates .groups = false from rfl),
        Lenient.misplaces_iff fun _ => .pure _]
    rw [hcons]
    constructor
    · rintro ⟨r, t₁, hr, ⟨hclause, haggregate⟩ | ⟨u, t₂, hcheck, hrest⟩⟩
      · exact ⟨hclause, [], e, es, [], r, t, t₁, rfl, rfl, hr, haggregate⟩
      · obtain ⟨hclause, before, item, after, rs, tree, t₃, t₄, rfl, hbefore, htree, haggregate⟩ :=
          ih.mp hrest
        refine ⟨hclause, e :: before, item, after, r :: rs, tree, t₃, t₄, rfl, ?_, htree,
          haggregate⟩
        rw [groups, run_bind_ok hr, run_bind_ok hcheck, run_bind_ok hbefore]
        rfl
    · rintro ⟨hclause, before, item, after, rs, tree, t₁, t₂, heq, hbefore, htree, haggregate⟩
      cases before with
      | nil =>
        obtain ⟨rfl, rfl⟩ := List.cons.inj heq
        obtain ⟨-, rfl⟩ := Prod.mk.inj hbefore
        exact ⟨tree, t₂, htree, .inl ⟨hclause, haggregate⟩⟩
      | cons first before =>
        obtain ⟨rfl, rfl⟩ := List.cons.inj heq
        obtain ⟨r, u₁, hr, h⟩ := run_bind_eq_ok_iff.mp (congrArg Prod.fst hbefore)
        obtain ⟨u, u₂, hcheck, h⟩ := run_bind_eq_ok_iff.mp h
        obtain ⟨rs', u₃, hrest, h⟩ := run_bind_eq_ok_iff.mp h
        rw [groups, run_bind_ok hr, run_bind_ok hcheck, run_bind_ok hrest] at hbefore
        obtain ⟨-, rfl⟩ := Prod.mk.inj hbefore
        have hinner := ih.mpr
          ⟨hclause, before, item, after, rs', tree, u₃, t₂, rfl, hrest, htree, haggregate⟩
        exact ⟨r, u₁, hr, .inr ⟨u, u₂, hcheck, hinner⟩⟩

omit hlook in
/-- A clause that may be absent fails so only if it is there. -/
theorem optional_misplaces_iff {α β : Type} {f : α → Cache.Fetching β} (a : Option α) :
    Misplaces (optional f a) t clause ↔ ∃ x, a = some x ∧ Misplaces (f x) t clause := by
  cases a with
  | none =>
    constructor
    · intro h
      cases h
    · rintro ⟨x, heq, -⟩
      cases heq
  | some x =>
    rw [optional, Lenient.misplaces_iff fun _ => .pure _]
    constructor
    · intro h
      exact ⟨x, rfl, h⟩
    · rintro ⟨y, heq, h⟩
      rw [Option.some.inj heq]
      exact h

/-- Of the select list with its sources only the join can fail so, and it comes second. -/
theorem select_misplaces_iff (s : Input.Select) :
    Misplaces (select look s) t clause ↔
      ∃ first t₁ j, (source look s.source).run t = (.ok first, t₁) ∧ s.join = some j ∧
        Misplaces (join look j) t₁ clause := by
  have hcolumns : ∀ first join, Lenient (columns look s.columns >>= fun columns =>
      (Pure.pure ⟨columns, first, join⟩ : Cache.Fetching Sql.Select)) :=
    fun _ _ => (lenient_columns hlook s.columns).bind fun _ => .pure _
  simp only [select, (lenient_source hlook s.source).misplaces_bind_iff,
    Lenient.misplaces_iff (hcolumns _), optional_misplaces_iff]
  constructor
  · rintro ⟨first, t₁, hfirst, j, hj, h⟩
    exact ⟨first, t₁, j, hfirst, hj, h⟩
  · rintro ⟨first, t₁, j, hfirst, hj, h⟩
    exact ⟨first, t₁, hfirst, j, hj, h⟩

/-- A query is refused in its sources, in its filter, or in its grouping. -/
theorem query_misplaces_cases (input : Input.Query) :
    Misplaces (query look input) t clause ↔
      Misplaces (select look input.select) t clause ∨
      ∃ s t₁, (select look input.select).run t = (.ok s, t₁) ∧
        (Misplaces (optional (filter look) input.filter) t₁ clause ∨
          ∃ f t₂, (optional (filter look) input.filter).run t₁ = (.ok f, t₂) ∧
            Misplaces (optional (groups look) input.groups) t₂ clause) := by
  have hrest : ∀ s f g, Lenient (optional (having look) input.having >>= fun having =>
      optional (order look) input.order >>= fun order =>
        (Pure.pure ⟨s, f, g, having, order, input.limit⟩ : Cache.Fetching Sql.Query)) :=
    fun _ _ _ => (lenient_optional (lenient_cond hlook) input.having).bind fun _ =>
      (lenient_optional (lenient_order hlook) input.order).bind fun _ => .pure _
  rw [query, misplaces_bind_iff]
  simp only [misplaces_bind_iff (x := optional (filter look) input.filter),
    Lenient.misplaces_iff (hrest _ _)]

/-- A query is refused for an aggregate exactly if a checked tree is reached that is one. -/
theorem query_misplaces_iff (input : Input.Query) :
    Misplaces (query look input) t clause ↔
      ∃ p, Reaches look t input clause p ∧ p.isAggregate = true := by
  rw [query_misplaces_cases hlook]
  constructor
  · -- the three clauses that are checked, in the order in which they are resolved
    rintro (h | ⟨s, t₁, hselect, h | ⟨f, t₂, hfilter, h⟩⟩)
    · obtain ⟨first, t₁, j, hfirst, hj, h⟩ := (select_misplaces_iff hlook _).mp h
      obtain ⟨rfl, kind, second, tree, t₂, t₃, t₄, hkind, hsecond, htree, haggregate⟩ :=
        (join_misplaces_iff hlook j).mp h
      exact ⟨.cond tree, .join hj hfirst hkind hsecond htree, haggregate⟩
    · obtain ⟨condition, hcondition, h⟩ := (optional_misplaces_iff _).mp h
      obtain ⟨rfl, tree, t₂, htree, haggregate⟩ := (filter_misplaces_iff hlook condition).mp h
      exact ⟨.cond tree, .filter hcondition hselect htree, haggregate⟩
    · obtain ⟨items, hitems, h⟩ := (optional_misplaces_iff _).mp h
      obtain ⟨rfl, before, item, after, rs, tree, t₃, t₄, rfl, hbefore, htree, haggregate⟩ :=
        (groups_misplaces_iff hlook items).mp h
      exact ⟨.expr tree, .groups hitems hselect hfilter hbefore htree, haggregate⟩
  · rintro ⟨p, hreaches, haggregate⟩
    -- a tree is reached only if all that comes before it is resolved
    cases hreaches with
    | join hj hfirst hkind hsecond htree =>
      have h := (join_misplaces_iff hlook _).mpr
        ⟨rfl, _, _, _, _, _, _, hkind, hsecond, htree, haggregate⟩
      exact .inl ((select_misplaces_iff hlook _).mpr ⟨_, _, _, hfirst, hj, h⟩)
    | filter hcondition hselect htree =>
      have h := (filter_misplaces_iff hlook _).mpr ⟨rfl, _, _, htree, haggregate⟩
      exact .inr ⟨_, _, hselect, .inl ((optional_misplaces_iff _).mpr ⟨_, hcondition, h⟩)⟩
    | @groups before after item _ _ _ _ _ _ _ _ hitems hselect hfilter hbefore htree =>
      have h := (groups_misplaces_iff hlook _).mpr
        ⟨rfl, before, item, after, _, _, _, _, rfl, hbefore, htree, haggregate⟩
      exact .inr ⟨_, _, hselect,
        .inr ⟨_, _, hfilter, (optional_misplaces_iff _).mpr ⟨_, hitems, h⟩⟩⟩

end Checks

/-! ## What has passed the checks -/

/-- Whatever the computation gives has a property. -/
def Gives {α : Type} (P : α → Prop) (x : Cache.Fetching α) : Prop :=
  ∀ t a, (x.run t).1 = .ok a → P a

namespace Gives

variable {α β : Type} {P : α → Prop} {Q : β → Prop} {x : Cache.Fetching α}
  {f : α → Cache.Fetching β}

theorem any (x : Cache.Fetching α) : Gives (fun _ => True) x := fun _ _ _ => trivial

/-- What is given outright has the property if it does. -/
theorem pure {a : α} (ha : P a) : Gives P (Pure.pure a) := by
  intro t b h
  rw [← Except.ok.inj h]
  exact ha

theorem bind (hx : Gives P x) (hf : ∀ a, P a → Gives Q (f a)) : Gives Q (x >>= f) := by
  intro t b h
  obtain ⟨a, t', hrun, h⟩ := run_bind_eq_ok_iff.mp h
  exact hf a (hx t a (congrArg Prod.fst hrun)) t' b h

theorem optional {a : Option α} (hf : ∀ x ∈ a, Gives Q (f x)) :
    Gives (fun b => ∀ y ∈ b, Q y) (Resolve.optional f a) := by
  cases a with
  | none => exact .pure fun _ h => absurd h (Option.not_mem_none _)
  | some a => exact (hf a rfl).bind fun b hb => .pure fun y hy => Option.mem_some.mp hy ▸ hb

end Gives

/-- Past the check there is no aggregate. -/
theorem checkPlacement_gives {place : Clause} (hplace : place.allowsAggregates = false)
    (isAggregate : Bool) : Gives (fun _ => isAggregate = false) (checkPlacement place isAggregate) := by
  intro t u h
  rw [checkPlacement, hplace] at h
  cases isAggregate with
  | true => cases h
  | false => rfl

/-- A resolved join has no aggregate in its condition. -/
theorem join_gives (j : Input.Join) :
    Gives (fun r : Sql.Join => r.isAggregate = false) (join look j) := by
  refine (Gives.any _).bind fun kind _ => (Gives.any _).bind fun second _ => ?_
  refine (Gives.any _).bind fun tree _ => ?_
  exact (checkPlacement_gives rfl tree.isAggregate).bind fun _ htree => .pure htree

/-- A resolved filter is no aggregate. -/
theorem filter_gives (c : Input.Cond) :
    Gives (fun r : Sql.Cond => r.isAggregate = false) (filter look c) := by
  refine (Gives.any _).bind fun tree _ => ?_
  exact (checkPlacement_gives rfl tree.isAggregate).bind fun _ htree => .pure htree

/-- A resolved grouping has none among its items, each of which was checked before the next was
    resolved. -/
theorem groups_gives (es : List Input.Expr) :
    Gives (fun rs => Sql.anyExpr rs = false) (groups look es) := by
  induction es with
  | nil => exact .pure rfl
  | cons e es ih =>
    refine (Gives.any _).bind fun tree _ => ?_
    refine (checkPlacement_gives rfl tree.isAggregate).bind fun _ htree => ?_
    refine ih.bind fun rs hrs => .pure ?_
    rw [Sql.anyExpr, htree, hrs]
    rfl

/-- Hence a resolved select list has none in its join; its own items may be aggregates. -/
theorem select_gives (s : Input.Select) :
    Gives (fun r : Sql.Select => ∀ j ∈ r.join, j.isAggregate = false) (select look s) := by
  refine (Gives.any _).bind fun first _ => ?_
  refine (Gives.optional fun j _ => join_gives j).bind fun join hjoin => ?_
  exact (Gives.any _).bind fun columns _ => .pure hjoin

end Resolve

end QueryCatalog
