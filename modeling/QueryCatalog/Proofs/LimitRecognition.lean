/-
  How statements end.

  Whether a stored query is limited is read off the end of its text.  A statement ends in its last
  clause, and a clause in its last operand or in a word of its own.  An operand ends in a character
  that is neither a digit nor a blank, or is a number as a whole (`OperandEnd`).  A number at the end
  stands behind WHERE, ON, HAVING, BY or a comma, none of which ends in a T, so that no end but that
  of the limit clause is taken for a limit (`closing_clauses`).

  Alias targets are pasted as they are, so how they end is a law of the whole past (`endingLaw`).
-/
import QueryCatalog.Proofs.History
import QueryCatalog.Proofs.TrailingLimit
import QueryCatalog.Sample

namespace QueryCatalog

theorem Text.joined_concat (sep : String) {ss : List String} (hss : ss ≠ []) (s : String) :
    joined sep (ss ++ [s]) = joined sep ss ++ sep ++ s := by
  induction ss with
  | nil => exact absurd rfl hss
  | cons t ss ih =>
    cases ss with
    | nil => rfl
    | cons u ss =>
      have hrest := ih (List.cons_ne_nil u ss)
      rw [List.cons_append, List.cons_append, joined, ← List.cons_append, hrest, joined]
      simp only [String.append_assoc]

namespace Statement

/-! ## Ends -/

/-- A character that is neither a digit nor a blank. -/
def isMark (c : Char) : Bool := !Text.isDecimalDigit c && !Text.isWhiteSpace c

/-- A text whose last character is a mark. -/
def EndsMarked (s : String) : Prop := ∃ c, s.toList.getLast? = some c ∧ isMark c = true

/-- The ends that an operand has. -/
def OperandEnd (s : String) : Prop := EndsMarked s ∨ Text.IsNumeral s

/-- A text behind which no statement has a limit. -/
def Closing (s : String) : Prop := ∀ front, Unlimited (front ++ s.toList)

/-- The end of a text is that of its last part. -/
theorem EndsMarked.append {s : String} (h : EndsMarked s) (t : String) : EndsMarked (t ++ s) := by
  obtain ⟨c, hs, hc⟩ := h
  exact ⟨c, by rw [String.toList_append, List.getLast?_append, hs, Option.some_or], hc⟩

theorem endsMarked_close : EndsMarked ")" := ⟨_, rfl, rfl⟩

/-- A quoted text ends in its quote. -/
theorem endsMarked_quoted {q : Char} (hq : isMark q = true) (s : String) :
    EndsMarked (Text.quoted q s) :=
  ⟨q, by rw [Text.quoted, String.toList_ofList, ← List.cons_append, List.getLast?_concat], hq⟩

theorem endsMarked_quotedName (name : String) : EndsMarked (Text.quotedName name) :=
  endsMarked_quoted rfl name

/-- Behind a mark there is no number, and so no limit. -/
theorem EndsMarked.closing {s : String} (h : EndsMarked s) : Closing s := by
  obtain ⟨c, hs, hc⟩ := h
  obtain ⟨front', hs⟩ := List.getLast?_eq_some_iff.mp hs
  simp only [isMark, Bool.and_eq_true, Bool.not_eq_true'] at hc
  intro front
  rw [hs, ← List.append_assoc]
  exact .mark hc.1 hc.2 (fun _ h => absurd h List.not_mem_nil)

/-- Only the end of a text decides. -/
theorem Closing.append {s : String} (h : Closing s) (t : String) : Closing (t ++ s) := by
  intro front
  rw [String.toList_append, ← List.append_assoc]
  exact h _

/-- A number is one word. -/
theorem isRun_numeral {s : String} (h : Text.IsNumeral s) :
    IsRun (fun c => !Text.isWhiteSpace c) s.toList := by
  have hfigure : ∀ c, Text.isFigure c = true → (!Text.isWhiteSpace c) = true := by
    intro c hc
    rw [Text.isFigure, Bool.or_eq_true, beq_iff_eq] at hc
    rcases hc with hdigit | rfl
    · simp [isWhiteSpace_of_digit (isDecimalDigit_of_isDigit hdigit)]
    · rfl
  obtain ⟨figures, hne, hfigures, hs | hs⟩ := h
  · exact ⟨hs ▸ hne, fun c hc => hfigure c (hfigures c (hs ▸ hc))⟩
  · refine ⟨hs ▸ List.cons_ne_nil _ _, ?_⟩
    rw [hs]
    exact List.forall_mem_cons.mpr ⟨rfl, fun c hc => hfigure c (hfigures c hc)⟩

/-- A word that an operand can stand behind: it ends in a mark other than T, and a blank. -/
def Introduces (w : String) : Prop :=
  ∃ front c, w.toList = front ++ [c, ' '] ∧ isMark c = true ∧ foldCase c ≠ 't'

theorem Introduces.append {w : String} (h : Introduces w) (t : String) : Introduces (t ++ w) := by
  obtain ⟨front, c, hw, hc⟩ := h
  exact ⟨t.toList ++ front, c, by rw [String.toList_append, hw, List.append_assoc], hc⟩

/-- The word alone is no limit. -/
theorem Introduces.closing {w : String} (h : Introduces w) : Closing w := by
  obtain ⟨front', c, hw, hc, -⟩ := h
  simp only [isMark, Bool.and_eq_true, Bool.not_eq_true'] at hc
  intro front
  rw [hw, ← List.append_assoc]
  exact .mark hc.1 hc.2 (List.forall_mem_singleton.mpr (by decide))

/-- Behind such a word an operand is no limit, not even if it is a number. -/
theorem Introduces.closing_operand {w s : String} (hw : Introduces w) (hs : OperandEnd s) :
    Closing (w ++ s) := by
  rcases hs with hmarked | hnumeral
  · exact hmarked.closing.append w
  · obtain ⟨front', c, hw, hc, hfold⟩ := hw
    simp only [isMark, Bool.and_eq_true, Bool.not_eq_true'] at hc
    intro front
    -- the number is the last word of the text, and `c` stands in front of it
    have hunlimited : Unlimited (front ++ front' ++ c :: ' ' :: s.toList) :=
      .word hfold hc.2 (isRun_numeral hnumeral)
    rw [String.toList_append, hw]
    simpa using hunlimited

/-- Some operands behind a word, with commas between them. -/
theorem Introduces.closing_operands {w : String} (hw : Introduces w) {ss : List String}
    (hss : ∀ s ∈ ss, OperandEnd s) : Closing (w ++ Text.joined ", " ss) := by
  have hcomma : Introduces ", " := ⟨[], ',', rfl, rfl, by decide⟩
  rcases List.eq_nil_or_concat ss with rfl | ⟨front, s, rfl⟩
  · exact String.append_empty ▸ hw.closing
  · rw [List.concat_eq_append] at hss ⊢
    have hs : OperandEnd s := hss s (by simp)
    cases front with
    | nil => exact hw.closing_operand hs
    | cons t front =>
      rw [Text.joined_concat ", " (List.cons_ne_nil t front), String.append_assoc]
      exact ((hcomma.closing_operand hs).append _).append w

/-! ## Operands -/

/-- How the targets of known aliases end. -/
structure Ends (k : Known) : Prop where
  operand : ∀ {target : Alias}, k.Operand target → OperandEnd target.body.target
  table : ∀ {target : Alias}, k.Table target → EndsMarked target.body.target

/-- Literals are numbers, or end in a quote or in NULL. -/
theorem operandEnd_literal (value : Literal) : OperandEnd value.sql := by
  cases value with
  | null => exact .inl ⟨_, rfl, rfl⟩
  | bool b =>
    refine .inr ⟨[if b then '1' else '0'], List.cons_ne_nil _ _, List.forall_mem_singleton.mpr ?_, .inl ?_⟩
      <;> cases b <;> rfl
  | int i => exact .inr (Text.isNumeral_toString_int i.toInt)
  | float x => exact .inr (Text.isNumeral_text x)
  | text s => exact .inl (endsMarked_quoted rfl s)

theorem endsMarked_dateUnit (unit : DateUnit) : EndsMarked (Keyword.text unit) := by
  cases unit <;> exact ⟨_, rfl, rfl⟩

theorem endsMarked_direction (direction : Direction) : EndsMarked (Keyword.text direction) := by
  cases direction <;> exact ⟨_, rfl, rfl⟩

variable {k : Known} (hk : Ends k)
include hk

/-- How a value ends is seen from its own text, whatever its operands are. -/
theorem operandEnd_expr {e : Sql.Expr} (h : e.Uses k) : OperandEnd e.render := by
  cases e with
  | literal value => exact operandEnd_literal value
  | interval value unit => exact .inl ((endsMarked_dateUnit unit).append _)
  | conditional branches otherwise =>
    have hend : EndsMarked " END" := ⟨_, rfl, rfl⟩
    exact .inl (hend.append _)
  | column table column => exact .inl ((endsMarked_quotedName column).append _)
  | aliased target => exact hk.operand h
  | binary _ _ _ | call _ _ | subquery _ => exact .inl (endsMarked_close.append _)

/-- A condition ends in a parenthesis, unless it is an alias. -/
theorem operandEnd_cond {c : Sql.Cond} (h : c.Uses k) : OperandEnd c.render := by
  cases c with
  | aliased target => exact hk.operand h
  | isNull value negated =>
    have hnull : EndsMarked "NULL)" := endsMarked_close.append "NULL"
    exact .inl (hnull.append _)
  | member _ _ _ | existence _ _ =>
    have hclose : EndsMarked "))" := endsMarked_close.append ")"
    exact .inl (hclose.append _)
  | negation _ | connective _ _ _ | comparison _ _ _ | between _ _ _ _ =>
    exact .inl (endsMarked_close.append _)

theorem operandEnd_exprs {es : List Sql.Expr} (h : Sql.usesExprs k es) :
    ∀ s ∈ Sql.renderExprs es, OperandEnd s := by
  induction es with
  | nil => exact fun _ h => absurd h List.not_mem_nil
  | cons e es ih => exact List.forall_mem_cons.mpr ⟨operandEnd_expr hk h.1, ih h.2⟩

/-! ## Clauses -/

/-- A source ends in a mark: a table's target by law, a subquery by its name in quotes. -/
theorem endsMarked_source {s : Sql.Source} (h : s.Uses k) : EndsMarked s.render := by
  cases s with
  | table target => exact hk.table h
  | subquery query => exact (endsMarked_quotedName query.body.name).append _

/-- The head of a statement ends in its source or in the condition of its join. -/
theorem closing_select {s : Sql.Select} (h : s.Uses k) : Closing s.render := by
  obtain ⟨hsource, hjoin, -⟩ := h
  have hon : Introduces " ON " := ⟨[' ', 'O'], 'N', rfl, rfl, by decide⟩
  rw [Sql.Select.render]
  cases hj : s.join with
  | none =>
    rw [String.append_empty]
    exact ((endsMarked_source hk hsource).append _).closing
  | some j =>
    have hcond := operandEnd_cond hk (hjoin j hj).2
    exact (((hon.append _).closing_operand hcond).append " ").append _

theorem closing_filter {c : Sql.Cond} (h : c.Uses k) : Closing (Sql.renderFilter c) := by
  have hwhere : Introduces "WHERE " := ⟨['W', 'H', 'E', 'R'], 'E', rfl, rfl, by decide⟩
  exact hwhere.closing_operand (operandEnd_cond hk h)

theorem closing_groups {es : List Sql.Expr} (h : Sql.usesExprs k es) :
    Closing (Sql.renderGroups es) := by
  have hby : Introduces "GROUP BY " := ⟨['G', 'R', 'O', 'U', 'P', ' ', 'B'], 'Y', rfl, rfl, by decide⟩
  exact hby.closing_operands (operandEnd_exprs hk h)

theorem closing_having {c : Sql.Cond} (h : c.Uses k) : Closing (Sql.renderHaving c) := by
  have hhaving : Introduces "HAVING " := ⟨['H', 'A', 'V', 'I', 'N'], 'G', rfl, rfl, by decide⟩
  exact hhaving.closing_operand (operandEnd_cond hk h)

omit hk in
/-- An order ends in the direction of its last item. -/
theorem closing_order (items : List Sql.OrderItem) : Closing (Sql.renderOrder items) := by
  have hby : Introduces "ORDER BY " := ⟨['O', 'R', 'D', 'E', 'R', ' ', 'B'], 'Y', rfl, rfl, by decide⟩
  refine hby.closing_operands fun s hs => ?_
  obtain ⟨item, -, rfl⟩ := List.mem_map.mp hs
  exact .inl ((endsMarked_direction item.direction).append _)

omit hk in
/-- A clause that may be absent closes where it is present. -/
theorem closing_optional {α : Type} {render : α → String} {clause : Option α}
    (h : ∀ a ∈ clause, Closing (render a)) (hne : (clause.map render).getD "" ≠ "") :
    Closing ((clause.map render).getD "") := by
  cases clause with
  | none => exact absurd rfl hne
  | some a => exact h a rfl

omit hk in
/-- Joined texts end in the last of them. -/
theorem closing_joined (sep : String) {s : String} {ss : List String}
    (h : ∀ t ∈ s :: ss, Closing t) : Closing (Text.joined sep (s :: ss)) := by
  induction ss generalizing s with
  | nil => exact h s List.mem_cons_self
  | cons t ss ih => exact (ih (List.forall_mem_cons.mp h).2).append _

/-- Any clause but the limit can close a statement without one. -/
theorem closing_clauses {q : Sql.Query} (h : q.Uses k) (hlimit : q.limit = none) :
    ∀ s ∈ q.clauses, s ≠ "" → Closing s := by
  simp only [Sql.Query.clauses, hlimit, List.forall_mem_cons]
  refine ⟨fun _ => closing_select hk h.select,
    closing_optional fun _ hc => closing_filter hk (h.filter _ hc),
    closing_optional fun _ hc => closing_groups hk (h.groups _ hc),
    closing_optional fun _ hc => closing_having hk (h.having _ hc),
    closing_optional fun items _ => closing_order items, fun hne => absurd rfl hne, ?_⟩
  exact fun _ h => absurd h List.not_mem_nil

/-! ## Statements -/

/-- No limit is read off a statement without one. -/
theorem trailingLimit?_of_unlimited {q : Sql.Query} (h : q.Uses k) (hlimit : q.limit = none) :
    trailingLimit? q.unterminated.toList = none := by
  rw [Sql.Query.unterminated, Text.trimEnd, String.toList_ofList]
  have hclosing : ∀ s ∈ q.clauses.filter fun clause => !clause.isEmpty, Closing s := by
    intro s hs
    obtain ⟨hmem, hne⟩ := List.mem_filter.mp hs
    exact closing_clauses hk h hlimit s hmem (by rintro rfl; cases hne)
  -- which clause is the last one does not matter
  generalize q.clauses.filter (fun clause => !clause.isEmpty) = ss at hclosing
  cases ss with
  | nil => rfl
  | cons s ss => exact (closing_joined " " hclosing []).trailingLimit?_eq_none

omit hk in
/-- The limit clause, character by character. -/
theorem toList_renderLimit (limit : Input.Limit) :
    (Sql.renderLimit limit).toList = limitChars limit.rows.toNat limit.offset.toNat := by
  simp only [Sql.renderLimit, String.toList_append, Text.toList_toString_nat, List.append_assoc]
  rfl

omit hk in
/-- A limit stands behind the select list at least, and a blank. -/
theorem limited_text {q : Sql.Query} {limit : Input.Limit} (hlimit : q.limit = some limit) :
    ∃ front : String, Text.joined " " (q.clauses.filter fun clause => !clause.isEmpty) =
      front ++ " " ++ Sql.renderLimit limit := by
  have hselect : (!q.select.render.isEmpty) = true := by
    rw [Bool.not_eq_true', String.isEmpty_eq_false_iff, Sql.Select.render]
    simp only [String.append_assoc, Ne, String.append_eq_empty_iff, not_and]
    exact fun h => absurd h (by decide)
  have hwritten : (!(Sql.renderLimit limit).isEmpty) = true := by
    rw [Bool.not_eq_true', String.isEmpty_eq_false_iff, Ne, ← String.toList_inj, toList_renderLimit]
    exact List.cons_ne_nil _ _
  -- the limit is the last clause, and is never empty
  have hclauses : q.clauses = q.clauses.dropLast ++ [Sql.renderLimit limit] := by
    rw [Sql.Query.clauses, hlimit]
    rfl
  have hfilter : (q.clauses.filter fun clause => !clause.isEmpty) =
      (q.clauses.dropLast.filter fun clause => !clause.isEmpty) ++ [Sql.renderLimit limit] := by
    rw [congrArg (List.filter _) hclauses, List.filter_append, List.filter_cons, if_pos hwritten,
      List.filter_nil]
  refine ⟨Text.joined " " (q.clauses.dropLast.filter fun clause => !clause.isEmpty), ?_⟩
  rw [hfilter, Text.joined_concat]
  -- nor is the head, so that something stands in front of it
  exact List.ne_nil_of_mem (List.mem_filter.mpr ⟨List.mem_cons_self, hselect⟩)

omit hk in
/-- The limit of a statement with one is read off its end. -/
theorem trailingLimit?_of_limited {q : Sql.Query} {limit : Input.Limit}
    (hlimit : q.limit = some limit) :
    trailingLimit? q.unterminated.toList = some (Nat.toDigits 10 limit.rows.toNat) := by
  obtain ⟨front, htext⟩ := limited_text hlimit
  have hlist : (front ++ " " ++ Sql.renderLimit limit).toList =
      front.toList ++ ' ' :: limitChars limit.rows.toNat limit.offset.toNat := by
    rw [String.toList_append, String.toList_append, toList_renderLimit, List.append_assoc]
    rfl
  have htrimmed : Text.IsTrimmed (front ++ " " ++ Sql.renderLimit limit).toList := by
    rw [Sql.renderLimit, ← String.append_assoc, String.toList_append, Text.toList_toString_nat]
    exact (isRun_toDigits _).isTrimmed _
  rw [Sql.Query.unterminated, Text.trimEnd, String.toList_ofList, htext,
    Text.dropEndBlanks_eq htrimmed, hlist]
  exact trailingLimit?_written _ _ _

/-- **The limit read off a statement is the limit of the query.** -/
theorem trailingLimit?_unterminated {q : Sql.Query} (h : q.Uses k) :
    trailingLimit? q.unterminated.toList =
      q.limit.map fun limit => Nat.toDigits 10 limit.rows.toNat := by
  cases hlimit : q.limit with
  | none => exact trailingLimit?_of_unlimited hk h hlimit
  | some limit => exact trailingLimit?_of_limited hlimit

end Statement

/-! ## The law -/

/-- The target of an alias ends as an operand does, that of a table in a mark. -/
structure AliasBody.EndsWell (body : AliasBody) : Prop where
  operand : Statement.OperandEnd body.target
  table : body.isTable = true → Statement.EndsMarked body.target

namespace Statement

/-- Over such aliases, operands end as they should. -/
theorem ends_known : Ends (.ofBodies AliasBody.EndsWell fun _ => True) where
  operand h := h.1.operand
  table h := h.1.table h.2

/-- The target of every alias ends well, since what it is built over does. -/
def endingLaw (access : TableAccess) : EntityLaw access where
  aliased := AliasBody.EndsWell
  query _ := True
  ofBuilt h := by
    cases h with
    | table _ => exact ⟨.inl (endsMarked_quotedName _), fun _ => endsMarked_quotedName _⟩
    | expr huses _ => exact ⟨operandEnd_expr ends_known huses, fun h => by cases h⟩
    | cond huses _ => exact ⟨operandEnd_cond ends_known huses, fun h => by cases h⟩
  ofQuery _ := trivial

end Statement

/-- A compiled query with one column, as a single value. -/
theorem Sql.Query.scalar_compiled {k : Known} (hk : Statement.Ends k) {q : Sql.Query} (h : q.Uses k)
    (hone : q.compiled.columnCount = 1) (owner : Owner) (name : String) :
    (⟨owner, name, q.compiled.sql, q.compiled.columnCount⟩ : QueryBody).scalar =
      match q.limit with
      | none => .ok (q.unterminated ++ " LIMIT 1")
      | some limit =>
        if limit.rows = 1 then .ok q.unterminated
        else .error (.scalarRows name (toString limit.rows.toNat)) := by
  rw [QueryBody.scalar, if_neg (by simpa using hone), q.statement_compiled,
    Statement.trailingLimit?_unterminated hk h]
  cases q.limit with
  | none => rfl
  | some limit =>
    have hrows : Statement.isOne (Nat.toDigits 10 limit.rows.toNat) = true ↔ limit.rows = 1 := by
      rw [Statement.isOne_toDigits, ← UInt64.toNat_inj]
      rfl
    simp only [Option.map_some, hrows, ← Nat.toString_eq_ofList_toDigits]

namespace Catalog

/-- A query under a valid name that is not in use is stored, unless no number is left. -/
theorem createQuery_stored {c : Catalog} (hup : c.down = []) {owner : Owner} {name : String}
    {input : Input.Query} {compiled : Sql.Compiled} (hvalid : EntityName.isValid name = true)
    (hunused : c.store.queries.find? owner (.name name) = none)
    (hcompile : ((compile owner input).run c).1 = .ok compiled) :
    (((createQuery owner name input).run c).1 = .error (.store (.idsExhausted .query)) ∧
        c.store.queries.ids.current = some IdSequence.greatest) ∨
      ∃ q, ((createQuery owner name input).run c).1 = .ok q ∧
        q ∈ ((createQuery owner name input).run c).2.store.queries.rows ∧
        q.body = ⟨owner, name, compiled.sql, compiled.columnCount⟩ := by
  rw [compile, resolving, fetching_run] at hcompile
  rw [createQuery_run hup, if_pos hvalid]
  cases hrun : (Resolve.compile (Cache.lookups c.backing owner) input).run c.traffic with
  | mk result t =>
    rw [hrun] at hcompile
    cases hcompile
    rcases Table.add_unused (⟨owner, name, compiled.sql, compiled.columnCount⟩ : QueryBody)
      hunused with ⟨hadd, hend⟩ | ⟨q, table, hadd⟩
    · simp only [hadd]
      exact .inl ⟨rfl, hend⟩
    · obtain ⟨-, hbody, hrows, -⟩ := Table.add_ok hadd
      simp only [hadd]
      exact .inr ⟨q, rfl, by simp [hrows], hbody⟩

/-- **Limit recognition.**  Whatever was created, fetched and deleted before, a query with one column
    that is stored under a valid name that is not in use has its statement without the semicolon for
    its body.  As a single value it gets a limit if it was given none, stays as it is if its limit is
    one, with any offset, and is refused under any other limit.  Storing it fails only where no
    number is left, after as many steps as there are numbers. -/
theorem limit_recognized (settings : Settings) (schema : Schema) (steps : List Step) (owner : Owner)
    (name : String) (input : Input.Query) (compiled : Sql.Compiled)
    (hvalid : EntityName.isValid name = true)
    (hunused : ((fresh settings schema .empty).run steps).store.queries.find? owner (.name name) =
      none)
    (hcompile : ((compile owner input).run ((fresh settings schema .empty).run steps)).1 =
      .ok compiled) (hone : compiled.columnCount = 1) :
    let c := (fresh settings schema .empty).run steps
    (((createQuery owner name input).run c).1 = .error (.store (.idsExhausted .query)) ∧
        IdSequence.greatest.toNat ≤ steps.length) ∨
      ∃ q, ((createQuery owner name input).run c).1 = .ok q ∧
        q ∈ ((createQuery owner name input).run c).2.store.queries.rows ∧
        q.body.sql = q.body.statement ++ ";" ∧
        q.body.scalar =
          match input.limit with
          | none => .ok (q.body.statement ++ " LIMIT 1")
          | some limit =>
            if limit.rows = 1 then .ok q.body.statement
            else .error (.scalarRows name (toString limit.rows.toNat)) := by
  intro c
  obtain ⟨past, hcoherent⟩ := run_coherent settings schema steps
  -- what was compiled is a query over aliases of the past, which all end well
  obtain ⟨r, huses, hlimit, rfl⟩ := hcoherent.compile_ok hcompile (Statement.endingLaw _)
  rcases createQuery_stored hcoherent.up hvalid hunused hcompile with
    ⟨hresult, hend⟩ | ⟨q, hresult, hstored, hbody⟩
  · exact .inl ⟨hresult, greatest_le_length .query hend⟩
  · have hstatement : q.body.statement = r.unterminated := by
      rw [hbody, r.statement_compiled]
    refine .inr ⟨q, hresult, hstored, ?_, ?_⟩
    · rw [hstatement, hbody]
      rfl
    · rw [hstatement, ← hlimit, hbody]
      exact r.scalar_compiled Statement.ends_known huses hone owner name

/-! ## A number at the end -/

/-- A table, a column, and a number under a name. -/
def numberedSteps : List Step :=
  [ .request 1 (.createAlias ⟨"orders", .expr (.table "orders")⟩),
    .request 1 (.createAlias ⟨"total", .expr (.column "orders" "total")⟩),
    .request 1 (.createAlias ⟨"limit", .expr (.literal (.int 5))⟩) ]

/-- Selects the column where the number is true. -/
def numberedQuery : Input.Query where
  select := ⟨.list [.aliased (.name "total")], .aliased (.name "orders"), none⟩
  filter := some (.aliased (.name "limit"))
  groups := none
  having := none
  order := none
  limit := none

/-- The statement that it is compiled to. -/
def numberedStatement : String := "SELECT `orders`.`total` AS `total` FROM `orders` WHERE 5;"

theorem limit_recognized_number :
    ((compile 1 numberedQuery).run
      ((fresh .standard Sample.schema .empty).run numberedSteps)).1 = .ok ⟨numberedStatement, 1⟩ ∧
    ∃ q, ((createQuery 1 "totals" numberedQuery).run
        ((fresh .standard Sample.schema .empty).run numberedSteps)).1 = .ok q ∧
      q.body.sql = q.body.statement ++ ";" ∧
      q.body.scalar = .ok (q.body.statement ++ " LIMIT 1") := by
  have hcompile : ((compile 1 numberedQuery).run
      ((fresh .standard Sample.schema .empty).run numberedSteps)).1 = .ok ⟨numberedStatement, 1⟩ :=
    eq_ok_of_toOption (by decide +kernel)
  have hqueries : ((fresh .standard Sample.schema .empty).run numberedSteps).store.queries =
      .empty := by decide +kernel
  have hrecognized := limit_recognized .standard Sample.schema numberedSteps 1 "totals" numberedQuery
    ⟨numberedStatement, 1⟩ (by decide +kernel) (by rw [hqueries]; rfl) hcompile rfl
  obtain ⟨-, hlength⟩ | ⟨q, hresult, -, hsql, hscalar⟩ := hrecognized
  · exact absurd hlength (by decide)
  · exact ⟨hcompile, q, hresult, hsql, hscalar⟩

end Catalog

end QueryCatalog
