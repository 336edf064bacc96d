/-
  Expressions and conditions as they are requested.

  Keywords are still texts and entities are still lookups; whether they mean anything is settled when
  the tree is resolved.  Expressions and conditions hold each other: a conditional expression has
  conditions in its branches, and a comparison has expressions on both sides.
-/
import QueryCatalog.Literal

namespace QueryCatalog.Input

mutual

/-- A requested value. -/
inductive Expr where
  | literal (value : Literal)
  | binary (left : Expr) (operation : String) (right : Expr)
  | call (function : String) (args : List Arg)
  | interval (value : Int64) (unit : String)
  | conditional (branches : List Branch) (otherwise : Expr)
  /-- A table.  It can only be the target of an alias. -/
  | table (name : String)
  | column (table column : String)
  | aliased (lookup : Lookup)
  | subquery (lookup : Lookup)

/-- An argument of a call. -/
inductive Arg where
  | star
  | expr (value : Expr)

/-- A branch of a conditional expression. -/
inductive Branch where
  | mk (condition : Cond) (result : Expr)

/-- A requested truth value. -/
inductive Cond where
  | negation (operand : Cond)
  | connective (left : Cond) (operation : String) (right : Cond)
  | comparison (left : Expr) (operation : String) (right : Expr)
  | between (value lower upper : Expr) (negated : Bool)
  | isNull (value : Expr) (negated : Bool)
  | member (value : Expr) (source : MemberSource) (negated : Bool)
  | existence (lookup : Lookup) (negated : Bool)
  | aliased (lookup : Lookup)

/-- Where a membership test looks. -/
inductive MemberSource where
  | list (items : List Expr)
  | query (lookup : Lookup)

end

instance : Inhabited Expr := ⟨.literal .null⟩

instance : Inhabited Cond := ⟨.aliased default⟩

end QueryCatalog.Input
