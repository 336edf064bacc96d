/-
  Inputs that are alike.

  Two inputs are alike when they have the same shape, the same literals, tables, columns, flags and
  limits, and differ at most in their keywords and in their references.  Which texts and which lookups
  may stand for each other is left open (`Likeness`), so that one notion serves for keywords that are
  spelled in two ways and for entities that are pointed at in two ways.

  At each position the two inputs may differ or not: likeness is a relation of trees, and says
  nothing about how many of the positions differ.
-/
import Mathlib.Data.List.Forall2
import QueryCatalog.Input.Query

namespace QueryCatalog.Input

/-- Which keywords, which references to aliases and which references to stored queries may stand for
    each other. -/
structure Likeness where
  keyword : String → String → Prop
  aliased : Lookup → Lookup → Prop
  query : Lookup → Lookup → Prop

namespace Likeness

/-- Everything stands for itself only. -/
def same : Likeness := ⟨Eq, Eq, Eq⟩

/-- Everything stands for itself. -/
structure IsReflexive (r : Likeness) : Prop where
  keyword : ∀ s, r.keyword s s
  aliased : ∀ lookup, r.aliased lookup lookup
  query : ∀ lookup, r.query lookup lookup

/-- Equality is a likeness like any other, so that what holds for likenesses holds of one input twice. -/
theorem same_isReflexive : same.IsReflexive := ⟨fun _ => rfl, fun _ => rfl, fun _ => rfl⟩

end Likeness

/-! ## Trees -/

mutual

/-- The values are alike. -/
def Expr.Like (r : Likeness) : Expr → Expr → Prop
  | .literal value, x => x = .literal value
  | .binary left operation right, x => ∃ left' operation' right',
    x = .binary left' operation' right' ∧ r.keyword operation operation' ∧ left.Like r left' ∧
      right.Like r right'
  | .call function args, x => ∃ function' args', x = .call function' args' ∧
    r.keyword function function' ∧ likeArgs r args args'
  | .interval value unit, x => ∃ unit', x = .interval value unit' ∧ r.keyword unit unit'
  | .conditional branches otherwise, x => ∃ branches' otherwise',
    x = .conditional branches' otherwise' ∧ likeBranches r branches branches' ∧
      otherwise.Like r otherwise'
  | .table name, x => x = .table name
  | .column table column, x => x = .column table column
  | .aliased lookup, x => ∃ lookup', x = .aliased lookup' ∧ r.aliased lookup lookup'
  | .subquery lookup, x => ∃ lookup', x = .subquery lookup' ∧ r.query lookup lookup'
termination_by structural x => x

/-- The arguments are alike. -/
def Arg.Like (r : Likeness) : Arg → Arg → Prop
  | .star, x => x = .star
  | .expr value, x => ∃ value', x = .expr value' ∧ value.Like r value'
termination_by structural x => x

/-- The branches are alike. -/
def Branch.Like (r : Likeness) : Branch → Branch → Prop
  | .mk condition result, x => ∃ condition' result', x = .mk condition' result' ∧
    condition.Like r condition' ∧ result.Like r result'
termination_by structural x => x

/-- The truth values are alike. -/
def Cond.Like (r : Likeness) : Cond → Cond → Prop
  | .negation operand, x => ∃ operand', x = .negation operand' ∧ operand.Like r operand'
  | .connective left operation right, x => ∃ left' operation' right',
    x = .connective left' operation' right' ∧ r.keyword operation operation' ∧ left.Like r left' ∧
      right.Like r right'
  | .comparison left operation right, x => ∃ left' operation' right',
    x = .comparison left' operation' right' ∧ r.keyword operation operation' ∧ left.Like r left' ∧
      right.Like r right'
  | .between value lower upper negated, x => ∃ value' lower' upper',
    x = .between value' lower' upper' negated ∧ value.Like r value' ∧ lower.Like r lower' ∧
      upper.Like r upper'
  | .isNull value negated, x => ∃ value', x = .isNull value' negated ∧ value.Like r value'
  | .member value source negated, x => ∃ value' source', x = .member value' source' negated ∧
    value.Like r value' ∧ source.Like r source'
  | .existence lookup negated, x => ∃ lookup', x = .existence lookup' negated ∧ r.query lookup lookup'
  | .aliased lookup, x => ∃ lookup', x = .aliased lookup' ∧ r.aliased lookup lookup'
termination_by structural x => x

/-- The sources of the membership tests are alike. -/
def MemberSource.Like (r : Likeness) : MemberSource → MemberSource → Prop
  | .list items, x => ∃ items', x = .list items' ∧ likeExprs r items items'
  | .query lookup, x => ∃ lookup', x = .query lookup' ∧ r.query lookup lookup'
termination_by structural x => x

/-- Values that are alike, one by one. -/
def likeExprs (r : Likeness) : List Expr → List Expr → Prop
  | [], xs => xs = []
  | e :: es, xs => ∃ e' es', xs = e' :: es' ∧ e.Like r e' ∧ likeExprs r es es'
termination_by structural x => x

/-- Arguments that are alike, one by one. -/
def likeArgs (r : Likeness) : List Arg → List Arg → Prop
  | [], xs => xs = []
  | a :: as, xs => ∃ a' as', xs = a' :: as' ∧ a.Like r a' ∧ likeArgs r as as'
termination_by structural x => x

/-- Branches that are alike, one by one. -/
def likeBranches (r : Likeness) : List Branch → List Branch → Prop
  | [], xs => xs = []
  | b :: bs, xs => ∃ b' bs', xs = b' :: bs' ∧ b.Like r b' ∧ likeBranches r bs bs'
termination_by structural x => x

end

/-- Arguments that are alike are equally many; a function may ask for a number of them. -/
theorem length_of_likeArgs {r : Likeness} {as as' : List Arg} (h : likeArgs r as as') :
    as.length = as'.length := by
  induction as generalizing as' with
  | nil => rw [show as' = [] from h]
  | cons a as ih =>
    obtain ⟨a', as', rfl, -, has⟩ := h
    rw [List.length_cons, List.length_cons, ih has]

/-! ## Clauses -/

/-- The references are alike. -/
def Reference.Like (r : Likeness) : Reference → Reference → Prop
  | .aliased lookup, x => ∃ lookup', x = .aliased lookup' ∧ r.aliased lookup lookup'
  | .subquery lookup, x => ∃ lookup', x = .subquery lookup' ∧ r.query lookup lookup'

/-- The columns are alike. -/
def Columns.Like (r : Likeness) : Columns → Columns → Prop
  | .all, x => x = .all
  | .list items, x => ∃ items', x = .list items' ∧ List.Forall₂ (Reference.Like r) items items'

/-- The joins are alike. -/
structure Join.Like (r : Likeness) (j j' : Join) : Prop where
  source : j.source.Like r j'.source
  condition : j.condition.Like r j'.condition
  kind : r.keyword j.kind j'.kind

/-- The select lists and the sources are alike. -/
structure Select.Like (r : Likeness) (s s' : Select) : Prop where
  columns : s.columns.Like r s'.columns
  source : s.source.Like r s'.source
  join : Option.Rel (Join.Like r) s.join s'.join

/-- The items of the orders are alike. -/
structure OrderItem.Like (r : Likeness) (i i' : OrderItem) : Prop where
  operand : i.operand.Like r i'.operand
  direction : r.keyword i.direction i'.direction

/-- The queries are alike, clause by clause. -/
structure Query.Like (r : Likeness) (q q' : Query) : Prop where
  select : q.select.Like r q'.select
  filter : Option.Rel (Cond.Like r) q.filter q'.filter
  groups : Option.Rel (likeExprs r) q.groups q'.groups
  having : Option.Rel (Cond.Like r) q.having q'.having
  order : Option.Rel (List.Forall₂ (OrderItem.Like r)) q.order q'.order
  limit : q.limit = q'.limit

/-! ## An input is like itself -/

section Reflexive

variable {r : Likeness} (hr : r.IsReflexive)
include hr

-- inside the induction the hypothesis is used by the calls of the other cases only
set_option linter.unusedSectionVars false

mutual

/-- A value is like itself.  The induction is on the tree, one case for each constructor, and the lists
    below go with it. -/
theorem Expr.like_refl : ∀ e : Expr, e.Like r e
  | .literal _ => rfl
  | .binary left operation right =>
    ⟨left, operation, right, rfl, hr.keyword operation, left.like_refl, right.like_refl⟩
  | .call function args => ⟨function, args, rfl, hr.keyword function, likeArgs_refl args⟩
  | .interval _ unit => ⟨unit, rfl, hr.keyword unit⟩
  | .conditional branches otherwise =>
    ⟨branches, otherwise, rfl, likeBranches_refl branches, otherwise.like_refl⟩
  | .table _ => rfl
  | .column _ _ => rfl
  | .aliased lookup => ⟨lookup, rfl, hr.aliased lookup⟩
  | .subquery lookup => ⟨lookup, rfl, hr.query lookup⟩

theorem Arg.like_refl : ∀ a : Arg, a.Like r a
  | .star => rfl
  | .expr value => ⟨value, rfl, value.like_refl⟩

/-- A branch is like itself, by its condition and its result. -/
theorem Branch.like_refl : ∀ b : Branch, b.Like r b
  | .mk condition result => ⟨condition, result, rfl, condition.like_refl, result.like_refl⟩

/-- A truth value is like itself. -/
theorem Cond.like_refl : ∀ c : Cond, c.Like r c
  | .negation operand => ⟨operand, rfl, operand.like_refl⟩
  | .connective left operation right =>
    ⟨left, operation, right, rfl, hr.keyword operation, left.like_refl, right.like_refl⟩
  | .comparison left operation right =>
    ⟨left, operation, right, rfl, hr.keyword operation, left.like_refl, right.like_refl⟩
  | .between value lower upper _ =>
    ⟨value, lower, upper, rfl, value.like_refl, lower.like_refl, upper.like_refl⟩
  | .isNull value _ => ⟨value, rfl, value.like_refl⟩
  | .member value source _ => ⟨value, source, rfl, value.like_refl, source.like_refl⟩
  | .existence lookup _ => ⟨lookup, rfl, hr.query lookup⟩
  | .aliased lookup => ⟨lookup, rfl, hr.aliased lookup⟩

theorem MemberSource.like_refl : ∀ s : MemberSource, s.Like r s
  | .list items => ⟨items, rfl, likeExprs_refl items⟩
  | .query lookup => ⟨lookup, rfl, hr.query lookup⟩

/-- Values are like themselves, one by one. -/
theorem likeExprs_refl : ∀ es : List Expr, likeExprs r es es
  | [] => rfl
  | e :: es => ⟨e, es, rfl, e.like_refl, likeExprs_refl es⟩

theorem likeArgs_refl : ∀ as : List Arg, likeArgs r as as
  | [] => rfl
  | a :: as => ⟨a, as, rfl, a.like_refl, likeArgs_refl as⟩

theorem likeBranches_refl : ∀ bs : List Branch, likeBranches r bs bs
  | [] => rfl
  | b :: bs => ⟨b, bs, rfl, b.like_refl, likeBranches_refl bs⟩

end

/-- A reference is like itself; the likeness of lookups has to be reflexive for it. -/
theorem Reference.like_refl (x : Reference) : x.Like r x := by
  cases x with
  | aliased lookup => exact ⟨lookup, rfl, hr.aliased lookup⟩
  | subquery lookup => exact ⟨lookup, rfl, hr.query lookup⟩

/-- A select list is like itself, the mark for all columns included. -/
theorem Columns.like_refl (c : Columns) : c.Like r c := by
  cases c with
  | all => rfl
  | list items => exact ⟨items, rfl, List.forall₂_same.mpr fun x _ => x.like_refl hr⟩

theorem Join.like_refl (j : Join) : j.Like r j :=
  ⟨j.source.like_refl hr, j.condition.like_refl hr, hr.keyword j.kind⟩

theorem OrderItem.like_refl (i : OrderItem) : i.Like r i :=
  ⟨i.operand.like_refl hr, hr.keyword i.direction⟩

omit hr in
/-- A reflexive relation stays so over clauses that may be absent. -/
theorem optional_refl {α : Type} {R : α → α → Prop} (h : ∀ a, R a a) (x : Option α) :
    Option.Rel R x x := by
  cases x with
  | none => exact .none
  | some a => exact .some (h a)

theorem Select.like_refl (s : Select) : s.Like r s :=
  ⟨s.columns.like_refl hr, s.source.like_refl hr, optional_refl (Join.like_refl hr) s.join⟩

/-- A query is like itself, clause by clause. -/
theorem Query.like_refl (q : Query) : q.Like r q where
  select := q.select.like_refl hr
  filter := optional_refl (Cond.like_refl hr) q.filter
  groups := optional_refl (likeExprs_refl hr) q.groups
  having := optional_refl (Cond.like_refl hr) q.having
  order := optional_refl (fun _ => List.forall₂_same.mpr fun i _ => i.like_refl hr) q.order
  limit := rfl

end Reflexive

end QueryCatalog.Input
