/-
  Decoding requests.

  Expressions, conditions and references are tagged records; clauses and queries are plain records.
  A decoder calls itself only on parts of its document, which are smaller, and so it ends.  The
  decoders of tagged records are told where the record stands; the parts of a tagged record, and
  the alternatives of a choice, are inner ones.
-/
import QueryCatalog.Input.Query

namespace QueryCatalog.Input

/-! ## Tags -/

/-- The variants of an expression. -/
inductive ExprTag where
  | literal | binary | call | interval | conditional | table | column | aliased | subquery
deriving DecidableEq, Repr, Inhabited

instance : Tagged ExprTag where
  variants := [.literal, .binary, .call, .interval, .conditional, .table, .column, .aliased,
    .subquery]
  tag
    | .literal => "literal"
    | .binary => "op"
    | .call => "func"
    | .interval => "interval"
    | .conditional => "case"
    | .table => "table"
    | .column => "col"
    | .aliased => "aliased"
    | .subquery => "subquery"

/-- The variant that an expression is of. -/
def Expr.variant : Expr → ExprTag
  | .literal .. => .literal
  | .binary .. => .binary
  | .call .. => .call
  | .interval .. => .interval
  | .conditional .. => .conditional
  | .table .. => .table
  | .column .. => .column
  | .aliased .. => .aliased
  | .subquery .. => .subquery

/-- The tag of an expression. -/
def Expr.tag (e : Expr) : String := Tagged.tag e.variant

/-- The variants of a condition. -/
inductive CondTag where
  | negation | connective | comparison | between | isNull | member | existence | aliased
deriving DecidableEq, Repr, Inhabited

instance : Tagged CondTag where
  variants := [.negation, .connective, .comparison, .between, .isNull, .member, .existence,
    .aliased]
  tag
    | .negation => "not"
    | .connective => "and_or"
    | .comparison => "compare"
    | .between => "between"
    | .isNull => "is_null"
    | .member => "in"
    | .existence => "exists"
    | .aliased => "aliased"

/-- The kind of an entity is the variant of a reference. -/
instance : Tagged EntityKind where
  variants := [.aliased, .query]
  tag
    | .aliased => "aliased"
    | .query => "subquery"

/-! ## Expressions and conditions -/

mutual

/-- The expression that a document holds. -/
def Expr.ofDoc (position : Position) (doc : Doc) : Decoded Expr := do
  match ← doc.variantOf ExprTag position with
  | .literal =>
    doc.variantRecord (fieldsNamed ["value"]) fun r =>
      Expr.literal <$> r.required "value" (fun p => Literal.ofDoc p.doc)
  | .binary =>
    doc.variantRecord (fieldsNamed ["left", "operation", "right"]) fun r =>
      Expr.binary <$> r.required "left" (fun p => Expr.ofDoc .inner p.doc)
        <*> r.required "operation" (fun p => p.doc.asText)
        <*> r.required "right" (fun p => Expr.ofDoc .inner p.doc)
  | .call =>
    doc.variantRecord (fieldsNamed ["func", "args"]) fun r =>
      Expr.call <$> r.required "func" (fun p => p.doc.asText)
        <*> r.defaulted "args" [] (fun p => p.doc.list fun q => Arg.ofDoc q.doc)
  | .interval =>
    doc.variantRecord (fieldsNamed ["value", "unit"]) fun r =>
      Expr.interval <$> r.required "value" (fun p => p.doc.asInt64)
        <*> r.required "unit" (fun p => p.doc.asText)
  | .conditional =>
    doc.variantRecord (fieldsNamed ["cases", "default"]) fun r =>
      Expr.conditional <$> r.required "cases" (fun p => p.doc.nonEmptyList fun q => Branch.ofDoc q.doc)
        <*> r.required "default" (fun p => Expr.ofDoc .inner p.doc)
  | .table =>
    doc.variantRecord (fieldsNamed ["table"]) fun r =>
      Expr.table <$> r.required "table" (fun p => p.doc.asText)
  | .column =>
    doc.variantRecord (fieldsNamed ["table", "column"]) fun r =>
      Expr.column <$> r.required "table" (fun p => p.doc.asText)
        <*> r.required "column" (fun p => p.doc.asText)
  | .aliased => Expr.aliased <$> Lookup.ofDoc .aliased 1 doc
  | .subquery => Expr.subquery <$> Lookup.ofDoc .query 1 doc
termination_by 2 * sizeOf doc
decreasing_by
  all_goals
    have := p.smaller
    try have := q.smaller
    omega

/-- The argument that a document holds. -/
def Arg.ofDoc (doc : Doc) : Decoded Arg :=
  doc.choose "FunctionArg"
    [if doc.isStar then some .star else none, ((Expr.ofDoc .inner doc).map .expr).toOption]
termination_by 2 * sizeOf doc + 1

/-- The branch that a document holds. -/
def Branch.ofDoc (doc : Doc) : Decoded Branch :=
  doc.record (fieldsNamed ["case", "then"]) fun r =>
    Branch.mk <$> r.required "case" (fun p => Cond.ofDoc .inner p.doc)
      <*> r.required "then" (fun p => Expr.ofDoc .inner p.doc)
termination_by 2 * sizeOf doc
decreasing_by
  all_goals
    have := p.smaller
    omega

/-- The condition that a document holds. -/
def Cond.ofDoc (position : Position) (doc : Doc) : Decoded Cond := do
  match ← doc.variantOf CondTag position with
  | .negation =>
    doc.variantRecord (fieldsNamed ["operand"]) fun r =>
      Cond.negation <$> r.required "operand" (fun p => Cond.ofDoc .inner p.doc)
  | .connective =>
    doc.variantRecord (fieldsNamed ["left", "bool_op", "right"]) fun r =>
      Cond.connective <$> r.required "left" (fun p => Cond.ofDoc .inner p.doc)
        <*> r.required "bool_op" (fun p => p.doc.asText)
        <*> r.required "right" (fun p => Cond.ofDoc .inner p.doc)
  | .comparison =>
    doc.variantRecord (fieldsNamed ["left", "operator", "right"]) fun r =>
      Cond.comparison <$> r.required "left" (fun p => Expr.ofDoc .inner p.doc)
        <*> r.required "operator" (fun p => p.doc.asText)
        <*> r.required "right" (fun p => Expr.ofDoc .inner p.doc)
  | .between =>
    doc.variantRecord (fieldsNamed ["expr", "lower", "upper", "negate"]) fun r =>
      Cond.between <$> r.required "expr" (fun p => Expr.ofDoc .inner p.doc)
        <*> r.required "lower" (fun p => Expr.ofDoc .inner p.doc)
        <*> r.required "upper" (fun p => Expr.ofDoc .inner p.doc)
        <*> r.defaulted "negate" false (fun p => p.doc.asBool)
  | .isNull =>
    doc.variantRecord (fieldsNamed ["expr", "negate"]) fun r =>
      Cond.isNull <$> r.required "expr" (fun p => Expr.ofDoc .inner p.doc)
        <*> r.defaulted "negate" false (fun p => p.doc.asBool)
  | .member =>
    doc.variantRecord (fieldsNamed ["expr", "source", "negate"]) fun r =>
      Cond.member <$> r.required "expr" (fun p => Expr.ofDoc .inner p.doc)
        <*> r.required "source" (fun p => MemberSource.ofDoc p.doc)
        <*> r.defaulted "negate" false (fun p => p.doc.asBool)
  | .existence =>
    doc.variantRecord (fieldsNamed ["query", "negate"]) fun r =>
      Cond.existence <$> r.required "query" (fun p => Lookup.ofDoc .query 0 p.doc)
        <*> r.defaulted "negate" false (fun p => p.doc.asBool)
  | .aliased => Cond.aliased <$> Lookup.ofDoc .aliased 1 doc
termination_by 2 * sizeOf doc
decreasing_by
  all_goals
    have := p.smaller
    omega

/-- The source of a membership test that a document holds. -/
def MemberSource.ofDoc (doc : Doc) : Decoded MemberSource :=
  doc.choose "InSource"
    [((doc.nonEmptyList fun q => Expr.ofDoc .inner q.doc).map .list).toOption,
      ((Lookup.ofDoc .query 0 doc).map .query).toOption]
termination_by 2 * sizeOf doc + 1
decreasing_by
  have := q.smaller
  omega

end

/-! ## Clauses -/

/-- The reference that a document holds. -/
def Reference.ofDoc (position : Position) (doc : Doc) : Decoded Reference := do
  match ← doc.variantOf EntityKind position with
  | .aliased => Reference.aliased <$> Lookup.ofDoc .aliased 1 doc
  | .query => Reference.subquery <$> Lookup.ofDoc .query 1 doc

/-- The columns that a document holds. -/
def Columns.ofDoc (doc : Doc) : Decoded Columns :=
  doc.choose "SelectColumns"
    [if doc.isStar then some .all else none,
      ((doc.nonEmptyList fun q => Reference.ofDoc .inner q.doc).map .list).toOption]

/-- The join that a document holds. -/
def Join.ofDoc (doc : Doc) : Decoded Join :=
  doc.record (fieldsNamed ["table", "on_condition", "type"]) fun r =>
    Join.mk <$> r.required "table" (fun p => Reference.ofDoc .outer p.doc)
      <*> r.required "on_condition" (fun p => Cond.ofDoc .outer p.doc)
      <*> r.defaulted "type" "INNER" (fun p => p.doc.asText)

/-- The fields of a select clause; the source may also be called `from`. -/
def Select.fields : List Field :=
  [⟨"columns", ["columns"]⟩, ⟨"from_", ["from_", "from"]⟩, ⟨"join_clause", ["join_clause"]⟩]

/-- The select clause that a document holds. -/
def Select.ofDoc (doc : Doc) : Decoded Select :=
  doc.record Select.fields fun r =>
    Select.mk <$> r.defaulted "columns" .all (fun p => Columns.ofDoc p.doc)
      <*> r.required "from_" (fun p => Reference.ofDoc .outer p.doc)
      <*> r.defaulted "join_clause" none (fun p => p.doc.nullable Join.ofDoc)

/-- The condition of a clause that holds only that. -/
def conditionOfDoc (doc : Doc) : Decoded Cond :=
  doc.record (fieldsNamed ["expression"]) fun r =>
    r.required "expression" (fun p => Cond.ofDoc .outer p.doc)

/-- The grouping expressions that a document holds. -/
def groupsOfDoc (doc : Doc) : Decoded (List Expr) :=
  doc.record (fieldsNamed ["items"]) fun r =>
    r.required "items" (fun p => p.doc.nonEmptyList fun q => Expr.ofDoc .outer q.doc)

/-- The item of an order that a document holds. -/
def OrderItem.ofDoc (doc : Doc) : Decoded OrderItem :=
  doc.record (fieldsNamed ["operand", "direction"]) fun r =>
    OrderItem.mk <$> r.required "operand" (fun p => Expr.ofDoc .outer p.doc)
      <*> r.defaulted "direction" "ASC" (fun p => p.doc.asText)

/-- The order that a document holds. -/
def orderOfDoc (doc : Doc) : Decoded (List OrderItem) :=
  doc.record (fieldsNamed ["items"]) fun r =>
    r.required "items" (fun p => p.doc.nonEmptyList fun q => OrderItem.ofDoc q.doc)

/-- The limit that a document holds. -/
def Limit.ofDoc (doc : Doc) : Decoded Limit :=
  doc.record (fieldsNamed ["limit", "offset"]) fun r =>
    Limit.mk <$> r.required "limit" (fun p => p.doc.asUInt64)
      <*> r.defaulted "offset" 0 (fun p => p.doc.asUInt64)

/-! ## Queries and alias requests -/

/-- The query that a document holds. -/
def Query.ofDoc (doc : Doc) : Decoded Query :=
  doc.record (fieldsNamed ["select", "where", "groupby", "having", "orderby", "limit"]) fun r =>
    Query.mk <$> r.required "select" (fun p => Select.ofDoc p.doc)
      <*> r.defaulted "where" none (fun p => p.doc.nullable conditionOfDoc)
      <*> r.defaulted "groupby" none (fun p => p.doc.nullable groupsOfDoc)
      <*> r.defaulted "having" none (fun p => p.doc.nullable conditionOfDoc)
      <*> r.defaulted "orderby" none (fun p => p.doc.nullable orderOfDoc)
      <*> r.defaulted "limit" none (fun p => p.doc.nullable Limit.ofDoc)

/-- The target that a document holds.  A document that fits both is an expression. -/
def Target.ofDoc (doc : Doc) : Decoded Target :=
  doc.choose "AliasTarget"
    [((Expr.ofDoc .inner doc).map .expr).toOption, ((Cond.ofDoc .inner doc).map .cond).toOption]

/-- The alias request that a document holds. -/
def AliasRequest.ofDoc (doc : Doc) : Decoded AliasRequest :=
  doc.record (fieldsNamed ["alias", "target"]) fun r =>
    AliasRequest.mk <$> r.required "alias" (fun p => p.doc.asText)
      <*> r.required "target" (fun p => Target.ofDoc p.doc)

end QueryCatalog.Input
