/-
  The written forms of requests.

  A query or an alias request is a tree of records, and each record has its own choice of form:
  an object, its members in any order and unknown ones between them, or an array.  `WrittenAs` relates a
  request to the documents that stand for it.  It goes down the tree, and says of each record which
  fields it has and what may be left out.

  `toDoc` writes a request in one form throughout and leaves nothing out, and so every request can be
  written in both forms (`Query.toDoc_written`, `AliasRequest.toDoc_written`).

  Some lists must not be empty: branches, the list of a membership test, groups, items of an order and
  of a select list.  A request is `Full` if none of them is.
-/
import QueryCatalog.Input.Decode
import QueryCatalog.Proofs.RecordForms

namespace QueryCatalog

open Doc (Form)

/-! ## Values -/

/-- The document of a literal. -/
def Literal.toDoc : Literal → Doc
  | .null => .null
  | .bool b => .bool b
  | .int i => .int i.toInt
  | .float x => .real x
  | .text s => .text s

/-- A field that may be left out where it has its default. -/
def Omissible (isDefault : Prop) (written : Doc → Prop) : Option Doc → Prop
  | none => isDefault
  | some doc => written doc

/-- A field that may be left out may be given as well. -/
theorem Omissible.given {isDefault : Prop} {written : Doc → Prop} {doc : Doc} (h : written doc) :
    Omissible isDefault written (some doc) := h

/-- A field that is `null` or left out where there is nothing to write. -/
def Optional {α : Type} (written : α → Doc → Prop) : Option α → Option Doc → Prop
  | none, value => Omissible True (· = .null) value
  | some a, value => ∃ doc, value = some doc ∧ written a doc

/-- A field that has to be in an array but may be left out of an object, where there is nothing to
    write. -/
def Doc.Lacks (doc : Doc) (value : Option Doc) : Prop :=
  value = some .null ∨ (value = none ∧ doc.isObject = true)

/-- The documents of a lookup: its number or its name is given and the other is not. -/
inductive Lookup.WrittenAs (kind : EntityKind) (tag : Option String) : Lookup → Doc → Prop
  | id {n : EntityId} {name : Option Doc} {doc : Doc}
    (hrecord : doc.IsRecord tag
      (plainFields [(kind.text ++ "_id", some (.int n.toNat)), (kind.text ++ "_name", name)]))
    (hname : doc.Lacks name) : WrittenAs kind tag (.id n) doc
  | name {number : Option Doc} {s : String} {doc : Doc}
    (hrecord : doc.IsRecord tag
      (plainFields [(kind.text ++ "_id", number), (kind.text ++ "_name", some (.text s))]))
    (hnumber : doc.Lacks number) : WrittenAs kind tag (.name s) doc

/-- A lookup in one form. -/
def Lookup.toDoc (form : Form) (kind : EntityKind) (tag : Option String) : Lookup → Doc
  | .id n => .ofRecord form tag
    (plainFields [(kind.text ++ "_id", .int n.toNat), (kind.text ++ "_name", .null)])
  | .name s => .ofRecord form tag
    (plainFields [(kind.text ++ "_id", .null), (kind.text ++ "_name", .text s)])

namespace Input

/-! ## Expressions and conditions -/

mutual

/-- The documents of an expression. -/
def Expr.WrittenAs : Expr → Doc → Prop
  | .literal value, doc =>
    doc.IsRecord (some "literal") (plainFields [("value", some value.toDoc)])
  | .binary left operation right, doc => ∃ l r,
    doc.IsRecord (some "op") (plainFields
      [("left", some l), ("operation", some (.text operation)), ("right", some r)]) ∧
    left.WrittenAs l ∧ right.WrittenAs r
  | .call function args, doc => ∃ list,
    doc.IsRecord (some "func") (plainFields [("func", some (.text function)), ("args", list)]) ∧
    Omissible (args = []) (fun doc => ∃ docs, doc = .array docs ∧ argsWrittenAs args docs) list
  | .interval value unit, doc =>
    doc.IsRecord (some "interval") (plainFields
      [("value", some (.int value.toInt)), ("unit", some (.text unit))])
  | .conditional branches otherwise, doc => ∃ docs o,
    doc.IsRecord (some "case") (plainFields [("cases", some (.array docs)), ("default", some o)]) ∧
    branchesWrittenAs branches docs ∧ otherwise.WrittenAs o
  | .table name, doc => doc.IsRecord (some "table") (plainFields [("table", some (.text name))])
  | .column table column, doc =>
    doc.IsRecord (some "col") (plainFields
      [("table", some (.text table)), ("column", some (.text column))])
  | .aliased lookup, doc => lookup.WrittenAs .aliased (some "aliased") doc
  | .subquery lookup, doc => lookup.WrittenAs .query (some "subquery") doc

/-- The documents of an argument. -/
def Arg.WrittenAs : Arg → Doc → Prop
  | .star, doc => doc = .text "*"
  | .expr value, doc => value.WrittenAs doc

/-- The documents of a branch. -/
def Branch.WrittenAs : Branch → Doc → Prop
  | .mk condition result, doc => ∃ c r,
    doc.IsRecord none (plainFields [("case", some c), ("then", some r)]) ∧
    condition.WrittenAs c ∧ result.WrittenAs r

/-- The documents of a condition. -/
def Cond.WrittenAs : Cond → Doc → Prop
  | .negation operand, doc => ∃ o,
    doc.IsRecord (some "not") (plainFields [("operand", some o)]) ∧ operand.WrittenAs o
  | .connective left operation right, doc => ∃ l r,
    doc.IsRecord (some "and_or") (plainFields
      [("left", some l), ("bool_op", some (.text operation)), ("right", some r)]) ∧
    left.WrittenAs l ∧ right.WrittenAs r
  | .comparison left operation right, doc => ∃ l r,
    doc.IsRecord (some "compare") (plainFields
      [("left", some l), ("operator", some (.text operation)), ("right", some r)]) ∧
    left.WrittenAs l ∧ right.WrittenAs r
  | .between value lower upper negated, doc => ∃ v l u flag,
    doc.IsRecord (some "between") (plainFields
      [("expr", some v), ("lower", some l), ("upper", some u), ("negate", flag)]) ∧
    value.WrittenAs v ∧ lower.WrittenAs l ∧ upper.WrittenAs u ∧
    Omissible (negated = false) (· = .bool negated) flag
  | .isNull value negated, doc => ∃ v flag,
    doc.IsRecord (some "is_null") (plainFields [("expr", some v), ("negate", flag)]) ∧
    value.WrittenAs v ∧ Omissible (negated = false) (· = .bool negated) flag
  | .member value source negated, doc => ∃ v s flag,
    doc.IsRecord (some "in") (plainFields
      [("expr", some v), ("source", some s), ("negate", flag)]) ∧
    value.WrittenAs v ∧ source.WrittenAs s ∧ Omissible (negated = false) (· = .bool negated) flag
  | .existence lookup negated, doc => ∃ q flag,
    doc.IsRecord (some "exists") (plainFields [("query", some q), ("negate", flag)]) ∧
    lookup.WrittenAs .query none q ∧ Omissible (negated = false) (· = .bool negated) flag
  | .aliased lookup, doc => lookup.WrittenAs .aliased (some "aliased") doc

/-- The documents of the source of a membership test. -/
def MemberSource.WrittenAs : MemberSource → Doc → Prop
  | .list items, doc => ∃ docs, doc = .array docs ∧ exprsWrittenAs items docs
  | .query lookup, doc => lookup.WrittenAs .query none doc

/-- Documents for some expressions, one for each. -/
def exprsWrittenAs : List Expr → List Doc → Prop
  | [], docs => docs = []
  | e :: es, docs => ∃ d ds, docs = d :: ds ∧ e.WrittenAs d ∧ exprsWrittenAs es ds

/-- Documents for some arguments, one for each. -/
def argsWrittenAs : List Arg → List Doc → Prop
  | [], docs => docs = []
  | a :: as, docs => ∃ d ds, docs = d :: ds ∧ a.WrittenAs d ∧ argsWrittenAs as ds

/-- Documents for some branches, one for each. -/
def branchesWrittenAs : List Branch → List Doc → Prop
  | [], docs => docs = []
  | b :: bs, docs => ∃ d ds, docs = d :: ds ∧ b.WrittenAs d ∧ branchesWrittenAs bs ds

end

mutual

/-- An expression in one form. -/
def Expr.toDoc (form : Form) : Expr → Doc
  | .literal value => .ofRecord form (some "literal") (plainFields [("value", value.toDoc)])
  | .binary left operation right => .ofRecord form (some "op") (plainFields
    [("left", left.toDoc form), ("operation", .text operation), ("right", right.toDoc form)])
  | .call function args => .ofRecord form (some "func") (plainFields
    [("func", .text function), ("args", .array (argDocs form args))])
  | .interval value unit => .ofRecord form (some "interval") (plainFields
    [("value", .int value.toInt), ("unit", .text unit)])
  | .conditional branches otherwise => .ofRecord form (some "case") (plainFields
    [("cases", .array (branchDocs form branches)), ("default", otherwise.toDoc form)])
  | .table name => .ofRecord form (some "table") (plainFields [("table", .text name)])
  | .column table column => .ofRecord form (some "col") (plainFields
    [("table", .text table), ("column", .text column)])
  | .aliased lookup => lookup.toDoc form .aliased (some "aliased")
  | .subquery lookup => lookup.toDoc form .query (some "subquery")

/-- An argument in one form. -/
def Arg.toDoc (form : Form) : Arg → Doc
  | .star => .text "*"
  | .expr value => value.toDoc form

/-- A branch in one form. -/
def Branch.toDoc (form : Form) : Branch → Doc
  | .mk condition result => .ofRecord form none (plainFields
    [("case", condition.toDoc form), ("then", result.toDoc form)])

/-- A condition in one form. -/
def Cond.toDoc (form : Form) : Cond → Doc
  | .negation operand => .ofRecord form (some "not") (plainFields [("operand", operand.toDoc form)])
  | .connective left operation right => .ofRecord form (some "and_or") (plainFields
    [("left", left.toDoc form), ("bool_op", .text operation), ("right", right.toDoc form)])
  | .comparison left operation right => .ofRecord form (some "compare") (plainFields
    [("left", left.toDoc form), ("operator", .text operation), ("right", right.toDoc form)])
  | .between value lower upper negated => .ofRecord form (some "between") (plainFields
    [("expr", value.toDoc form), ("lower", lower.toDoc form), ("upper", upper.toDoc form),
      ("negate", .bool negated)])
  | .isNull value negated => .ofRecord form (some "is_null") (plainFields
    [("expr", value.toDoc form), ("negate", .bool negated)])
  | .member value source negated => .ofRecord form (some "in") (plainFields
    [("expr", value.toDoc form), ("source", source.toDoc form), ("negate", .bool negated)])
  | .existence lookup negated => .ofRecord form (some "exists") (plainFields
    [("query", lookup.toDoc form .query none), ("negate", .bool negated)])
  | .aliased lookup => lookup.toDoc form .aliased (some "aliased")

/-- The source of a membership test in one form. -/
def MemberSource.toDoc (form : Form) : MemberSource → Doc
  | .list items => .array (exprDocs form items)
  | .query lookup => lookup.toDoc form .query none

/-- Some expressions in one form. -/
def exprDocs (form : Form) : List Expr → List Doc
  | [] => []
  | e :: es => e.toDoc form :: exprDocs form es

/-- Some arguments in one form. -/
def argDocs (form : Form) : List Arg → List Doc
  | [] => []
  | a :: as => a.toDoc form :: argDocs form as

/-- Some branches in one form. -/
def branchDocs (form : Form) : List Branch → List Doc
  | [] => []
  | b :: bs => b.toDoc form :: branchDocs form bs

end

mutual

/-- No list in the expression is empty that must not be. -/
def Expr.Full : Expr → Prop
  | .literal _ | .interval _ _ | .table _ | .column _ _ | .aliased _ | .subquery _ => True
  | .binary left _ right => left.Full ∧ right.Full
  | .call _ args => fullArgs args
  | .conditional branches otherwise => branches ≠ [] ∧ fullBranches branches ∧ otherwise.Full

/-- No list in the argument is empty that must not be. -/
def Arg.Full : Arg → Prop
  | .star => True
  | .expr value => value.Full

/-- No list in the branch is empty that must not be. -/
def Branch.Full : Branch → Prop
  | .mk condition result => condition.Full ∧ result.Full

/-- No list in the condition is empty that must not be. -/
def Cond.Full : Cond → Prop
  | .negation operand => operand.Full
  | .connective left _ right => left.Full ∧ right.Full
  | .comparison left _ right => left.Full ∧ right.Full
  | .between value lower upper _ => value.Full ∧ lower.Full ∧ upper.Full
  | .isNull value _ => value.Full
  | .member value source _ => value.Full ∧ source.Full
  | .existence _ _ | .aliased _ => True

/-- The source lists something. -/
def MemberSource.Full : MemberSource → Prop
  | .list items => items ≠ [] ∧ fullExprs items
  | .query _ => True

/-- All expressions are full. -/
def fullExprs : List Expr → Prop
  | [] => True
  | e :: es => e.Full ∧ fullExprs es

/-- All arguments are full. -/
def fullArgs : List Arg → Prop
  | [] => True
  | a :: as => a.Full ∧ fullArgs as

/-- All branches are full. -/
def fullBranches : List Branch → Prop
  | [] => True
  | b :: bs => b.Full ∧ fullBranches bs

end

/-! ## Clauses -/

/-- The documents of a reference. -/
def Reference.WrittenAs : Reference → Doc → Prop
  | .aliased lookup, doc => lookup.WrittenAs .aliased (some "aliased") doc
  | .subquery lookup, doc => lookup.WrittenAs .query (some "subquery") doc

/-- A reference with its tag. -/
def Reference.toDoc (form : Form) : Reference → Doc
  | .aliased lookup => lookup.toDoc form .aliased (some "aliased")
  | .subquery lookup => lookup.toDoc form .query (some "subquery")

/-- The documents of a select list. -/
def Columns.WrittenAs : Columns → Doc → Prop
  | .all, doc => doc = .text "*"
  | .list items, doc => ∃ docs, doc = .array docs ∧ List.Forall₂ Reference.WrittenAs items docs

/-- The mark for all columns, or the list of references. -/
def Columns.toDoc (form : Form) : Columns → Doc
  | .all => .text "*"
  | .list items => .array (items.map (Reference.toDoc form))

/-- A select list that names its columns names one at least. -/
def Columns.Full (columns : Columns) : Prop := columns ≠ .list []

/-- The documents of a join. -/
def Join.WrittenAs (j : Join) (doc : Doc) : Prop := ∃ s c kind,
  doc.IsRecord none (plainFields [("table", some s), ("on_condition", some c), ("type", kind)]) ∧
  j.source.WrittenAs s ∧ j.condition.WrittenAs c ∧ Omissible (j.kind = "INNER") (· = .text j.kind) kind

/-- A join with all of its fields. -/
def Join.toDoc (form : Form) (j : Join) : Doc := .ofRecord form none (plainFields
  [("table", j.source.toDoc form), ("on_condition", j.condition.toDoc form), ("type", .text j.kind)])

/-- The documents of a select clause. -/
def Select.WrittenAs (s : Select) (doc : Doc) : Prop := ∃ columns source join,
  doc.IsRecord none [(⟨"columns", ["columns"]⟩, columns), (⟨"from_", ["from_", "from"]⟩, some source),
    (⟨"join_clause", ["join_clause"]⟩, join)] ∧
  Omissible (s.columns = .all) s.columns.WrittenAs columns ∧ s.source.WrittenAs source ∧
  Optional Join.WrittenAs s.join join

/-- A select list with its sources. -/
def Select.toDoc (form : Form) (s : Select) : Doc := .ofRecord form none
  [(⟨"columns", ["columns"]⟩, s.columns.toDoc form),
    (⟨"from_", ["from_", "from"]⟩, s.source.toDoc form),
    (⟨"join_clause", ["join_clause"]⟩, (s.join.map (Join.toDoc form)).getD .null)]

/-- Neither the select list nor the condition of the join holds an empty list where none is allowed. -/
structure Select.Full (s : Select) : Prop where
  columns : s.columns.Full
  join : ∀ j ∈ s.join, j.condition.Full

/-- The documents of a clause that holds only a condition. -/
def conditionWrittenAs (c : Cond) (doc : Doc) : Prop := ∃ e,
  doc.IsRecord none (plainFields [("expression", some e)]) ∧ c.WrittenAs e

/-- A clause that holds a condition. -/
def conditionDoc (form : Form) (c : Cond) : Doc :=
  .ofRecord form none (plainFields [("expression", c.toDoc form)])

/-- The documents of grouping expressions. -/
def groupsWrittenAs (groups : List Expr) (doc : Doc) : Prop := ∃ docs,
  doc.IsRecord none (plainFields [("items", some (.array docs))]) ∧ exprsWrittenAs groups docs

/-- A grouping. -/
def groupsDoc (form : Form) (groups : List Expr) : Doc :=
  .ofRecord form none (plainFields [("items", .array (exprDocs form groups))])

/-- The documents of an item of an order. -/
def OrderItem.WrittenAs (item : OrderItem) (doc : Doc) : Prop := ∃ o direction,
  doc.IsRecord none (plainFields [("operand", some o), ("direction", direction)]) ∧
  item.operand.WrittenAs o ∧ Omissible (item.direction = "ASC") (· = .text item.direction) direction

/-- An item of an order, with its direction. -/
def OrderItem.toDoc (form : Form) (item : OrderItem) : Doc := .ofRecord form none (plainFields
  [("operand", item.operand.toDoc form), ("direction", .text item.direction)])

/-- The documents of an order. -/
def orderWrittenAs (order : List OrderItem) (doc : Doc) : Prop := ∃ docs,
  doc.IsRecord none (plainFields [("items", some (.array docs))]) ∧
  List.Forall₂ OrderItem.WrittenAs order docs

/-- An order. -/
def orderDoc (form : Form) (order : List OrderItem) : Doc :=
  .ofRecord form none (plainFields [("items", .array (order.map (OrderItem.toDoc form)))])

/-- The documents of a limit. -/
def Limit.WrittenAs (l : Limit) (doc : Doc) : Prop := ∃ offset,
  doc.IsRecord none (plainFields [("limit", some (.int l.rows.toNat)), ("offset", offset)]) ∧
  Omissible (l.offset = 0) (· = .int l.offset.toNat) offset

/-- A limit with its offset. -/
def Limit.toDoc (form : Form) (l : Limit) : Doc := .ofRecord form none (plainFields
  [("limit", .int l.rows.toNat), ("offset", .int l.offset.toNat)])

/-! ## Queries and alias requests -/

/-- The documents of a query. -/
def Query.WrittenAs (q : Query) (doc : Doc) : Prop := ∃ select filter groups having order limit,
  doc.IsRecord none (plainFields [("select", some select), ("where", filter), ("groupby", groups),
    ("having", having), ("orderby", order), ("limit", limit)]) ∧
  q.select.WrittenAs select ∧ Optional conditionWrittenAs q.filter filter ∧
  Optional groupsWrittenAs q.groups groups ∧ Optional conditionWrittenAs q.having having ∧
  Optional orderWrittenAs q.order order ∧ Optional Limit.WrittenAs q.limit limit

/-- A query in one form. -/
def Query.toDoc (form : Form) (q : Query) : Doc := .ofRecord form none (plainFields
  [("select", q.select.toDoc form), ("where", (q.filter.map (conditionDoc form)).getD .null),
    ("groupby", (q.groups.map (groupsDoc form)).getD .null),
    ("having", (q.having.map (conditionDoc form)).getD .null),
    ("orderby", (q.order.map (orderDoc form)).getD .null),
    ("limit", (q.limit.map (Limit.toDoc form)).getD .null)])

/-- No list in the query is empty that must not be. -/
structure Query.Full (q : Query) : Prop where
  select : q.select.Full
  filter : ∀ c ∈ q.filter, c.Full
  groups : ∀ es ∈ q.groups, es ≠ [] ∧ fullExprs es
  having : ∀ c ∈ q.having, c.Full
  order : ∀ items ∈ q.order, items ≠ [] ∧ ∀ item ∈ items, item.operand.Full

/-- The documents of a target. -/
def Target.WrittenAs : Target → Doc → Prop
  | .expr value, doc => value.WrittenAs doc
  | .cond condition, doc => condition.WrittenAs doc

/-- What an alias stands for. -/
def Target.toDoc (form : Form) : Target → Doc
  | .expr value => value.toDoc form
  | .cond condition => condition.toDoc form

/-- The value or the condition that an alias stands for holds no empty list where none is allowed. -/
def Target.Full : Target → Prop
  | .expr value => value.Full
  | .cond condition => condition.Full

/-- What the documents of a target are decoded as: an alias is written in the same way as a value and as a
    condition, and taken for a value. -/
def Target.decoded : Target → Target
  | .cond (.aliased lookup) => .expr (.aliased lookup)
  | target => target

/-- The documents of an alias request. -/
def AliasRequest.WrittenAs (r : AliasRequest) (doc : Doc) : Prop := ∃ target,
  doc.IsRecord none (plainFields [("alias", some (.text r.name)), ("target", some target)]) ∧
  r.target.WrittenAs target

/-- An alias request in one form. -/
def AliasRequest.toDoc (form : Form) (r : AliasRequest) : Doc := .ofRecord form none (plainFields
  [("alias", .text r.name), ("target", r.target.toDoc form)])

end Input

/-! ## Every request can be written -/

/-- A literal is written without anything that could not be read. -/
theorem Literal.isClean_toDoc (l : Literal) : l.toDoc.isClean = true := by
  cases l <;> rfl

/-- A reference is written as one of its forms, in an object and in an array, with a tag and without. -/
theorem Lookup.toDoc_written (form : Form) (kind : EntityKind) (tag : Option String)
    (lookup : Lookup) :
    lookup.WrittenAs kind tag (lookup.toDoc form kind tag) ∧
      (lookup.toDoc form kind tag).isClean = true := by
  have hnodup : [kind.text ++ "_id", kind.text ++ "_name"].Nodup := by
    cases kind <;> decide
  have hplain : "type" ∉ [kind.text ++ "_id", kind.text ++ "_name"] := by
    cases kind <;> decide
  cases lookup with
  | id n =>
    refine ⟨.id (Doc.isRecord_plain form (by rfl) hnodup fun _ => hplain) (.inl rfl), ?_⟩
    exact Doc.isClean_ofRecord form tag rfl
  | name s =>
    refine ⟨.name (Doc.isRecord_plain form (by rfl) hnodup fun _ => hplain) (.inl rfl), ?_⟩
    exact Doc.isClean_ofRecord form tag rfl

namespace Input

mutual

/-- An expression can be written in either form. -/
theorem Expr.toDoc_written (form : Form) : ∀ e : Expr,
    e.WrittenAs (e.toDoc form) ∧ (e.toDoc form).isClean = true
  | .literal value => by
    refine ⟨Doc.isRecord_plain form (by rfl) (by simp) (by simp), Doc.isClean_ofRecord form _ ?_⟩
    simp [plainFields, Doc.cleanItems, value.isClean_toDoc]
  | .binary left operation right => by
    obtain ⟨hl, hlclean⟩ := left.toDoc_written form
    obtain ⟨hr, hrclean⟩ := right.toDoc_written form
    refine ⟨⟨_, _, Doc.isRecord_plain form (by rfl) (by simp) (by simp), hl, hr⟩,
      Doc.isClean_ofRecord form _ ?_⟩
    simp [plainFields, Doc.cleanItems, Doc.isClean, hlclean, hrclean]
  | .call function args => by
    obtain ⟨hargs, hclean⟩ := argDocs_written form args
    refine ⟨⟨_, Doc.isRecord_plain form (by rfl) (by simp) (by simp), .given ⟨_, rfl, hargs⟩⟩,
      Doc.isClean_ofRecord form _ ?_⟩
    simp [plainFields, Doc.cleanItems, Doc.isClean, hclean]
  | .interval value unit => by
    exact ⟨Doc.isRecord_plain form (by rfl) (by simp) (by simp), Doc.isClean_ofRecord form _ rfl⟩
  | .conditional branches otherwise => by
    obtain ⟨hbranches, hbclean⟩ := branchDocs_written form branches
    obtain ⟨ho, hoclean⟩ := otherwise.toDoc_written form
    refine ⟨⟨_, _, Doc.isRecord_plain form (by rfl) (by simp) (by simp), hbranches, ho⟩,
      Doc.isClean_ofRecord form _ ?_⟩
    simp [plainFields, Doc.cleanItems, Doc.isClean, hbclean, hoclean]
  | .table name => ⟨Doc.isRecord_plain form (by rfl) (by simp) (by simp), Doc.isClean_ofRecord form _ rfl⟩
  | .column t c => ⟨Doc.isRecord_plain form (by rfl) (by simp) (by simp), Doc.isClean_ofRecord form _ rfl⟩
  | .aliased lookup => lookup.toDoc_written form .aliased (some "aliased")
  | .subquery lookup => lookup.toDoc_written form .query (some "subquery")

/-- The mark for all columns is written as such, any other argument as its value. -/
theorem Arg.toDoc_written (form : Form) : ∀ a : Arg,
    a.WrittenAs (a.toDoc form) ∧ (a.toDoc form).isClean = true
  | .star => ⟨rfl, rfl⟩
  | .expr value => value.toDoc_written form

/-- A branch is a record of two fields. -/
theorem Branch.toDoc_written (form : Form) : ∀ b : Branch,
    b.WrittenAs (b.toDoc form) ∧ (b.toDoc form).isClean = true
  | .mk condition result => by
    obtain ⟨hc, hcclean⟩ := condition.toDoc_written form
    obtain ⟨hr, hrclean⟩ := result.toDoc_written form
    refine ⟨⟨_, _, Doc.isRecord_plain form (by rfl) (by simp) (by simp), hc, hr⟩,
      Doc.isClean_ofRecord form _ ?_⟩
    simp [plainFields, Doc.cleanItems, hcclean, hrclean]

/-- A condition can be written in either form. -/
theorem Cond.toDoc_written (form : Form) : ∀ c : Cond,
    c.WrittenAs (c.toDoc form) ∧ (c.toDoc form).isClean = true
  | .negation operand => by
    obtain ⟨ho, hoclean⟩ := operand.toDoc_written form
    refine ⟨⟨_, Doc.isRecord_plain form (by rfl) (by simp) (by simp), ho⟩, Doc.isClean_ofRecord form _ ?_⟩
    simp [plainFields, Doc.cleanItems, hoclean]
  | .connective left operation right => by
    obtain ⟨hl, hlclean⟩ := left.toDoc_written form
    obtain ⟨hr, hrclean⟩ := right.toDoc_written form
    refine ⟨⟨_, _, Doc.isRecord_plain form (by rfl) (by simp) (by simp), hl, hr⟩,
      Doc.isClean_ofRecord form _ ?_⟩
    simp [plainFields, Doc.cleanItems, Doc.isClean, hlclean, hrclean]
  | .comparison left operation right => by
    obtain ⟨hl, hlclean⟩ := left.toDoc_written form
    obtain ⟨hr, hrclean⟩ := right.toDoc_written form
    refine ⟨⟨_, _, Doc.isRecord_plain form (by rfl) (by simp) (by simp), hl, hr⟩,
      Doc.isClean_ofRecord form _ ?_⟩
    simp [plainFields, Doc.cleanItems, Doc.isClean, hlclean, hrclean]
  | .between value lower upper negated => by
    obtain ⟨hv, hvclean⟩ := value.toDoc_written form
    obtain ⟨hl, hlclean⟩ := lower.toDoc_written form
    obtain ⟨hu, huclean⟩ := upper.toDoc_written form
    refine ⟨⟨_, _, _, _, Doc.isRecord_plain form (by rfl) (by simp) (by simp), hv, hl, hu, .given rfl⟩,
      Doc.isClean_ofRecord form _ ?_⟩
    simp [plainFields, Doc.cleanItems, Doc.isClean, hvclean, hlclean, huclean]
  | .isNull value negated => by
    obtain ⟨hv, hvclean⟩ := value.toDoc_written form
    refine ⟨⟨_, _, Doc.isRecord_plain form (by rfl) (by simp) (by simp), hv, .given rfl⟩,
      Doc.isClean_ofRecord form _ ?_⟩
    simp [plainFields, Doc.cleanItems, Doc.isClean, hvclean]
  | .member value source negated => by
    obtain ⟨hv, hvclean⟩ := value.toDoc_written form
    obtain ⟨hs, hsclean⟩ := source.toDoc_written form
    refine ⟨⟨_, _, _, Doc.isRecord_plain form (by rfl) (by simp) (by simp), hv, hs, .given rfl⟩,
      Doc.isClean_ofRecord form _ ?_⟩
    simp [plainFields, Doc.cleanItems, Doc.isClean, hvclean, hsclean]
  | .existence lookup negated => by
    obtain ⟨hq, hqclean⟩ := lookup.toDoc_written form .query none
    refine ⟨⟨_, _, Doc.isRecord_plain form (by rfl) (by simp) (by simp), hq, .given rfl⟩,
      Doc.isClean_ofRecord form _ ?_⟩
    simp [plainFields, Doc.cleanItems, Doc.isClean, hqclean]
  | .aliased lookup => lookup.toDoc_written form .aliased (some "aliased")

/-- A list is written item by item, a query as its reference. -/
theorem MemberSource.toDoc_written (form : Form) : ∀ s : MemberSource,
    s.WrittenAs (s.toDoc form) ∧ (s.toDoc form).isClean = true
  | .list items => by
    obtain ⟨hitems, hclean⟩ := exprDocs_written form items
    exact ⟨⟨_, rfl, hitems⟩, hclean⟩
  | .query lookup => lookup.toDoc_written form .query none

theorem exprDocs_written (form : Form) : ∀ es : List Expr,
    exprsWrittenAs es (exprDocs form es) ∧ Doc.cleanItems (exprDocs form es) = true
  | [] => ⟨rfl, rfl⟩
  | e :: es => by
    obtain ⟨he, heclean⟩ := e.toDoc_written form
    obtain ⟨hes, hesclean⟩ := exprDocs_written form es
    exact ⟨⟨_, _, rfl, he, hes⟩, Bool.and_eq_true_iff.mpr ⟨heclean, hesclean⟩⟩

theorem argDocs_written (form : Form) : ∀ as : List Arg,
    argsWrittenAs as (argDocs form as) ∧ Doc.cleanItems (argDocs form as) = true
  | [] => ⟨rfl, rfl⟩
  | a :: as => by
    obtain ⟨ha, haclean⟩ := a.toDoc_written form
    obtain ⟨has, hasclean⟩ := argDocs_written form as
    exact ⟨⟨_, _, rfl, ha, has⟩, Bool.and_eq_true_iff.mpr ⟨haclean, hasclean⟩⟩

theorem branchDocs_written (form : Form) : ∀ bs : List Branch,
    branchesWrittenAs bs (branchDocs form bs) ∧ Doc.cleanItems (branchDocs form bs) = true
  | [] => ⟨rfl, rfl⟩
  | b :: bs => by
    obtain ⟨hb, hbclean⟩ := b.toDoc_written form
    obtain ⟨hbs, hbsclean⟩ := branchDocs_written form bs
    exact ⟨⟨_, _, rfl, hb, hbs⟩, Bool.and_eq_true_iff.mpr ⟨hbclean, hbsclean⟩⟩

end

/-- A reference of a clause has its tag in front or among its fields. -/
theorem Reference.toDoc_written (form : Form) (r : Reference) :
    r.WrittenAs (r.toDoc form) ∧ (r.toDoc form).isClean = true := by
  cases r with
  | aliased lookup => exact lookup.toDoc_written form .aliased (some "aliased")
  | subquery lookup => exact lookup.toDoc_written form .query (some "subquery")

/-- A list can be written if its items can. -/
theorem map_written {β : Type} {written : β → Doc → Prop} {toDoc : β → Doc}
    (h : ∀ b, written b (toDoc b) ∧ (toDoc b).isClean = true) (bs : List β) :
    List.Forall₂ written bs (bs.map toDoc) ∧ Doc.cleanItems (bs.map toDoc) = true := by
  induction bs with
  | nil => exact ⟨.nil, rfl⟩
  | cons b bs ih => exact ⟨.cons (h b).1 ih.1, Bool.and_eq_true_iff.mpr ⟨(h b).2, ih.2⟩⟩

/-- What may be absent can be written if it can be when it is there. -/
theorem optional_written {β : Type} {written : β → Doc → Prop} {toDoc : β → Doc}
    (h : ∀ b, written b (toDoc b) ∧ (toDoc b).isClean = true) (b : Option β) :
    Optional written b (some ((b.map toDoc).getD .null)) ∧
      ((b.map toDoc).getD .null).isClean = true := by
  cases b with
  | none => exact ⟨rfl, rfl⟩
  | some b => exact ⟨⟨_, rfl, (h b).1⟩, (h b).2⟩

/-- The columns of a select list, all or listed. -/
theorem Columns.toDoc_written (form : Form) (columns : Columns) :
    columns.WrittenAs (columns.toDoc form) ∧ (columns.toDoc form).isClean = true := by
  cases columns with
  | all => exact ⟨rfl, rfl⟩
  | list items =>
    obtain ⟨hitems, hclean⟩ := map_written (Reference.toDoc_written form) items
    exact ⟨⟨_, rfl, hitems⟩, hclean⟩

theorem Join.toDoc_written (form : Form) (j : Join) :
    j.WrittenAs (j.toDoc form) ∧ (j.toDoc form).isClean = true := by
  obtain ⟨hs, hsclean⟩ := j.source.toDoc_written form
  obtain ⟨hc, hcclean⟩ := j.condition.toDoc_written form
  refine ⟨⟨_, _, _, Doc.isRecord_plain form (by rfl) (by simp) (by simp), hs, hc, .given rfl⟩,
    Doc.isClean_ofRecord form _ ?_⟩
  simp [plainFields, Doc.cleanItems, Doc.isClean, hsclean, hcclean]

/-- A select list with its sources; the join may be absent. -/
theorem Select.toDoc_written (form : Form) (s : Select) :
    s.WrittenAs (s.toDoc form) ∧ (s.toDoc form).isClean = true := by
  obtain ⟨hc, hcclean⟩ := s.columns.toDoc_written form
  obtain ⟨hs, hsclean⟩ := s.source.toDoc_written form
  obtain ⟨hj, hjclean⟩ := optional_written (Join.toDoc_written form) s.join
  have hwritable : Doc.Writable none Select.fields := ⟨by decide, by decide, nofun⟩
  refine ⟨⟨_, _, _, Doc.isRecord_ofRecord form (by rfl) (by rfl) hwritable, .given hc, hs, hj⟩,
    Doc.isClean_ofRecord form _ ?_⟩
  simp [Doc.cleanItems, hcclean, hsclean, hjclean]

theorem conditionDoc_written (form : Form) (c : Cond) :
    conditionWrittenAs c (conditionDoc form c) ∧ (conditionDoc form c).isClean = true := by
  obtain ⟨hc, hcclean⟩ := c.toDoc_written form
  refine ⟨⟨_, Doc.isRecord_plain form (by rfl) (by simp) (by simp), hc⟩, Doc.isClean_ofRecord form _ ?_⟩
  simp [plainFields, Doc.cleanItems, hcclean]

/-- The clause is a record around the list of its items. -/
theorem groupsDoc_written (form : Form) (groups : List Expr) :
    groupsWrittenAs groups (groupsDoc form groups) ∧ (groupsDoc form groups).isClean = true := by
  obtain ⟨hgroups, hclean⟩ := exprDocs_written form groups
  refine ⟨⟨_, Doc.isRecord_plain form (by rfl) (by simp) (by simp), hgroups⟩, Doc.isClean_ofRecord form _ ?_⟩
  simp [plainFields, Doc.cleanItems, Doc.isClean, hclean]

/-- An item of an order, whose direction has a default but is written nevertheless. -/
theorem OrderItem.toDoc_written (form : Form) (item : OrderItem) :
    item.WrittenAs (item.toDoc form) ∧ (item.toDoc form).isClean = true := by
  obtain ⟨ho, hoclean⟩ := item.operand.toDoc_written form
  refine ⟨⟨_, _, Doc.isRecord_plain form (by rfl) (by simp) (by simp), ho, .given rfl⟩,
    Doc.isClean_ofRecord form _ ?_⟩
  simp [plainFields, Doc.cleanItems, Doc.isClean, hoclean]

theorem orderDoc_written (form : Form) (order : List OrderItem) :
    orderWrittenAs order (orderDoc form order) ∧ (orderDoc form order).isClean = true := by
  obtain ⟨horder, hclean⟩ := map_written (OrderItem.toDoc_written form) order
  refine ⟨⟨_, Doc.isRecord_plain form (by rfl) (by simp) (by simp), horder⟩, Doc.isClean_ofRecord form _ ?_⟩
  simp only [plainFields, List.map_cons, List.map_nil, Doc.cleanItems, Doc.isClean, hclean, Bool.and_true]

theorem Limit.toDoc_written (form : Form) (l : Limit) :
    l.WrittenAs (l.toDoc form) ∧ (l.toDoc form).isClean = true :=
  ⟨⟨_, Doc.isRecord_plain form (by rfl) (by simp) (by simp), .given rfl⟩, Doc.isClean_ofRecord form _ rfl⟩

/-- A whole query, each clause in the form that it is given. -/
theorem Query.toDoc_written (form : Form) (q : Query) :
    q.WrittenAs (q.toDoc form) ∧ (q.toDoc form).isClean = true := by
  obtain ⟨hs, hsclean⟩ := q.select.toDoc_written form
  obtain ⟨hf, hfclean⟩ := optional_written (conditionDoc_written form) q.filter
  obtain ⟨hg, hgclean⟩ := optional_written (groupsDoc_written form) q.groups
  obtain ⟨hh, hhclean⟩ := optional_written (conditionDoc_written form) q.having
  obtain ⟨ho, hoclean⟩ := optional_written (orderDoc_written form) q.order
  obtain ⟨hl, hlclean⟩ := optional_written (Limit.toDoc_written form) q.limit
  refine ⟨⟨_, _, _, _, _, _, Doc.isRecord_plain form (by rfl) (by simp) (by simp), hs, hf, hg, hh, ho, hl⟩,
    Doc.isClean_ofRecord form _ ?_⟩
  simp [plainFields, Doc.cleanItems, hsclean, hfclean, hgclean, hhclean, hoclean, hlclean]

/-- An alias request, whose target may be a value or a condition. -/
theorem AliasRequest.toDoc_written (form : Form) (r : AliasRequest) :
    r.WrittenAs (r.toDoc form) ∧ (r.toDoc form).isClean = true := by
  have htarget : r.target.WrittenAs (r.target.toDoc form) ∧
      (r.target.toDoc form).isClean = true := by
    cases r.target with
    | expr value => exact value.toDoc_written form
    | cond condition => exact condition.toDoc_written form
  refine ⟨⟨_, Doc.isRecord_plain form (by rfl) (by simp) (by simp), htarget.1⟩,
    Doc.isClean_ofRecord form _ ?_⟩
  simp [plainFields, Doc.cleanItems, Doc.isClean, htarget.2]

end Input

end QueryCatalog
