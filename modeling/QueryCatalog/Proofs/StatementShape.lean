/-
  A statement has the shape of the query that it was compiled from.

  Seen from outside its quotes and parentheses, a statement shows the keywords of exactly the clauses
  that were asked for, in statement order, and between SELECT and FROM one comma less than it has columns,
  or a star for all of them.  So the number of columns that is kept with a stored query, and that later
  decides whether it may stand as a single value, can be read off its text.

  The text is pasted together from targets of aliases, whatever their history.  That none of them shows
  a comma or a keyword is a law of entities (`surfaceLaw`); the rest is that a query is resolved clause
  by clause (`query_follows`), and that the blanks which are cut off at its end show nothing
  (`tokens_closed`).
-/
import QueryCatalog.Proofs.History
import QueryCatalog.Proofs.PlacementChecks
import QueryCatalog.Proofs.TopLevel

namespace QueryCatalog

/-! ## The end of a statement -/

namespace Statement

theorem startsApart_of_forall {cs : List Char} (h : ∀ c ∈ cs, c.isAlpha = false) :
    startsApart cs = true := by
  cases cs with
  | nil => rfl
  | cons c cs => simp [startsApart, h c List.mem_cons_self]

/-- What follows a text that leaves no quote and no parenthesis open has its own tokens. -/
theorem tokensFrom_outside {cs ds : List Char} {p : Pending}
    (hrun : (Guard.clean 0).run cs = some ⟨.outside, 0, p⟩) (hstarts : startsApart ds = true) :
    tokensFrom .outside 0 (cs ++ ds) = tokensFrom .outside 0 cs ++ tokensFrom .outside 0 ds :=
  tokensFrom_append hrun (.inr hstarts)

/-- With a semicolon for the blanks at its end, a text shows the same keywords, and the same tokens
    up to there. -/
theorem tokens_closed {s : String} (h : Fragment s) :
    ∃ front blanks, tokens s = front ++ blanks ∧ clauseWords blanks = [] ∧
      tokens (Text.trimEnd s ++ ";") = front ++ [.mark ';'] := by
  obtain ⟨p, htrimmed⟩ := enclosable_trimEnd h 0
  obtain ⟨-, blanks, heq, hblanks⟩ := Text.dropEndBlanks_spec s.toList
  have hletterless : ∀ c ∈ blanks, c.isAlpha = false :=
    fun c hc => isAlpha_of_isWhiteSpace (hblanks c hc)
  have hfront : (Text.trimEnd s).toList = Text.dropEndBlanks s.toList := by
    rw [Text.trimEnd, String.toList_ofList]
  refine ⟨tokens (Text.trimEnd s), tokensFrom .outside 0 blanks, ?_,
    clauseWords_letterless hletterless _ _, ?_⟩
  · rw [tokens, tokens, heq, ← hfront, tokensFrom_outside htrimmed (startsApart_of_forall hletterless)]
  · rw [tokens, tokens, String.toList_append, tokensFrom_outside htrimmed rfl]
    rfl

/-! ## The select list of a statement -/

/-- The tokens between the first SELECT and the next FROM. -/
def selectTokens (ts : List Token) : List Token :=
  ((ts.dropWhile fun t => t.clauseWord? != some "SELECT").drop 1).takeWhile fun t =>
    t.clauseWord? != some "FROM"

/-- The text between SELECT and FROM, without the blanks at its ends. -/
def selectText (sql : String) : String :=
  Text.trim (String.ofList ((selectTokens (tokens sql)).flatMap Token.chars))

/-- The commas between SELECT and FROM. -/
def selectCommas (sql : String) : Nat := commas (selectTokens (tokens sql))

theorem clauseWord?_of_mem {ts : List Token} (h : clauseWords ts = []) {t : Token} (ht : t ∈ ts) :
    t.clauseWord? = none := List.filterMap_eq_nil_iff.mp h t ht

/-- A list without keywords is cut out whole between the two. -/
theorem selectTokens_eq {a b : Token} {list rest : List Token} (ha : a.clauseWord? = some "SELECT")
    (hb : b.clauseWord? = some "FROM") (hlist : clauseWords list = []) :
    selectTokens (a :: (list ++ b :: rest)) = list := by
  have hstop : (b.clauseWord? != some "FROM") = false := by simp [hb]
  have hpass : ∀ t ∈ list, (t.clauseWord? != some "FROM") = true := by
    intro t ht
    rw [clauseWord?_of_mem hlist ht]
    rfl
  rw [selectTokens, List.dropWhile_cons_of_neg (by simp [ha]), List.drop_one, List.tail_cons,
    List.takeWhile_append_of_pos hpass, List.takeWhile_cons_of_neg (by simp [hb]), List.append_nil]

/-- A token that is not among the last ones stands in what comes before them. -/
theorem exists_rest {α : Type} {front back list rest : List α} {b : α}
    (h : front ++ back = list ++ b :: rest) (hb : b ∉ back) : ∃ rest', front = list ++ b :: rest' := by
  rcases List.append_eq_append_iff.mp h with ⟨more, hlist, hback⟩ | ⟨more, hfront, hrest⟩
  · exact absurd (hback ▸ List.mem_append_right more List.mem_cons_self) hb
  · cases more with
    | nil =>
      rw [List.nil_append] at hrest
      exact absurd (hrest ▸ List.mem_cons_self) hb
    | cons b' rest' =>
      rw [List.cons_append, List.cons.injEq] at hrest
      exact ⟨rest', hrest.1 ▸ hfront⟩

/-! ## Statements of resolved queries -/

/-- The keywords of each clause, in statement order. -/
def keywordsOf (q : Sql.Query) : List (List String) :=
  [ ["SELECT", "FROM"] ++ wordIf q.select.join "JOIN", wordIf q.filter "WHERE", wordIf q.groups "GROUP",
    wordIf q.having "HAVING", wordIf q.order "ORDER", wordIf q.limit "LIMIT" ]

/-- Joined texts start with the first of them. -/
theorem exists_joined_cons (sep s : String) (ss : List String) :
    ∃ more, Text.joined sep (s :: ss) = s ++ more := by
  cases ss with
  | nil => exact ⟨"", String.append_empty.symm⟩
  | cons t rest => exact ⟨sep ++ Text.joined sep (t :: rest), String.append_assoc⟩

/-- Whatever clauses follow, the columns come first. -/
theorem exists_columns_first (q : Sql.Query) :
    ∃ more, Text.joined " " (q.clauses.filter fun clause => !clause.isEmpty) =
      "SELECT " ++ (q.select.columns.render ++ (" FROM " ++ more)) := by
  have hselect : ∃ more, q.select.render =
      "SELECT " ++ (q.select.columns.render ++ (" FROM " ++ more)) := by
    rw [Sql.Select.render, String.append_assoc, String.append_assoc, String.append_assoc]
    exact ⟨_, rfl⟩
  obtain ⟨more, hselect⟩ := hselect
  have hfilled : q.select.render.isEmpty = false := by
    rw [hselect, ← Bool.not_eq_true, String.isEmpty_iff, ← String.toList_inj, String.toList_append]
    exact List.cons_ne_nil _ _
  rw [Sql.Query.clauses, List.filter_cons_of_pos (by simp [hfilled])]
  obtain ⟨rest, hjoined⟩ := exists_joined_cons " " q.select.render _
  rw [hjoined, hselect]
  exact ⟨more ++ rest, by simp only [String.append_assoc]⟩

section Resolved

variable {k : Known} (hk : Surfaces k) {q : Sql.Query} (h : q.Uses k)
include hk h

/-- Each clause shows its own keywords. -/
theorem shows_clauses : List.Forall₂ (fun s ws => ∃ n, Shows s ws n) q.clauses (keywordsOf q) :=
  .cons (shows_select hk h.select) <|
  .cons (shows_optional fun c hc => shows_filter hk (h.filter c hc)) <|
  .cons (shows_optional fun es hes => shows_groups hk (h.groups es hes)) <|
  .cons (shows_optional fun c hc => shows_having hk (h.having c hc)) <|
  .cons (shows_optional fun items hitems => shows_order hk (h.order items hitems)) <|
  .cons (shows_optional fun limit _ => shows_limit limit) .nil

/-- A statement shows the keywords of its clauses. -/
theorem clauseWords_render : clauseWords (tokens q.render) = (keywordsOf q).flatten := by
  obtain ⟨n, hshows⟩ := shows_filtered (shows_clauses hk h)
  obtain ⟨front, blanks, hopen, hblanks, hclosed⟩ := tokens_closed hshows.fragment
  have hwords := hshows.words
  rw [hopen, clauseWords_append, hblanks, List.append_nil] at hwords
  rw [Sql.Query.render, hclosed, clauseWords_append, hwords]
  exact List.append_nil _

/-- Between SELECT and FROM a statement has its columns. -/
theorem selectTokens_render :
    selectTokens (tokens q.render) = .mark ' ' :: tokens q.select.columns.render ++ [.mark ' '] := by
  obtain ⟨n, hshows⟩ := shows_filtered (shows_clauses hk h)
  obtain ⟨front, blanks, hopen, hblanks, hclosed⟩ := tokens_closed hshows.fragment
  obtain ⟨m, hcolumns⟩ := shows_columns hk h.select.2.2
  obtain ⟨more, hfirst⟩ := exists_columns_first q
  have hselect : Fragment "SELECT " := fun _ => rfl
  have hfrom : Fragment " FROM " := fun _ => rfl
  have hstarts : startsApart (" FROM " ++ more).toList = true := by
    rw [String.toList_append]
    rfl
  have hsplit : front ++ blanks =
      (.word "SELECT".toList :: .mark ' ' :: tokens q.select.columns.render ++ [.mark ' ']) ++
        .word "FROM".toList :: .mark ' ' :: tokens more := by
    rw [← hopen, hfirst, tokens_append hselect (.inl rfl),
      tokens_append hcolumns.fragment (.inr hstarts), tokens_append hfrom (.inl rfl), List.append_assoc]
    rfl
  have hblank : Token.word "FROM".toList ∉ blanks := by
    intro hmem
    cases clauseWord?_of_mem hblanks hmem
  -- so FROM stands in front of the blanks that are cut off
  obtain ⟨rest, hfront⟩ := exists_rest hsplit hblank
  have hlist : clauseWords (.mark ' ' :: tokens q.select.columns.render ++ [.mark ' ']) = [] := by
    rw [clauseWords_append]
    exact congrArg (· ++ []) hcolumns.words
  rw [Sql.Query.render, hclosed, hfront, List.append_assoc]
  exact selectTokens_eq rfl rfl hlist

end Resolved

end Statement

/-! ## Resolving keeps the shape -/

/-- The keywords of the clauses that a query has, in statement order. -/
def Input.Query.clauseWords (q : Input.Query) : List String :=
  ["SELECT", "FROM"] ++ Statement.wordIf q.select.join "JOIN" ++ Statement.wordIf q.filter "WHERE" ++
    Statement.wordIf q.groups "GROUP" ++ Statement.wordIf q.having "HAVING" ++
    Statement.wordIf q.order "ORDER" ++ Statement.wordIf q.limit "LIMIT"

namespace Resolve

variable {look : Lookups Cache.Fetching}

/-- A clause is there exactly if it was asked for. -/
theorem optional_isSome {α β : Type} {f : α → Cache.Fetching β} (a : Option α) :
    Gives (fun b => b.isSome = a.isSome) (optional f a) := by
  cases a with
  | none => exact .pure rfl
  | some a => exact (Gives.any _).bind fun b _ => .pure rfl

/-- Every item is resolved to one item. -/
theorem selectItems_length (items : List Input.Reference) :
    Gives (fun rs => rs.length = items.length) (selectItems look items) := by
  induction items with
  | nil => exact .pure rfl
  | cons i is ih =>
    refine (Gives.any _).bind fun r _ => ih.bind fun rs hrs => .pure ?_
    rw [List.length_cons, List.length_cons, hrs]

/-- Columns that follow those of a request: all of them, or as many. -/
def SameCount : Input.Columns → Sql.Columns → Prop
  | .all, .all => True
  | .list items, .list resolved => resolved.length = items.length
  | _, _ => False

theorem columns_sameCount (c : Input.Columns) : Gives (SameCount c) (columns look c) := by
  cases c with
  | all => exact .pure trivial
  | list items => exact (selectItems_length items).bind fun _ hlength => .pure hlength

/-- The head of a query has its columns and its join as they were asked for. -/
theorem select_follows (s : Input.Select) :
    Gives (fun r : Sql.Select => SameCount s.columns r.columns ∧ r.join.isSome = s.join.isSome)
      (select look s) := by
  refine (Gives.any _).bind fun first _ => ?_
  refine (optional_isSome s.join).bind fun join hjoin => ?_
  exact (columns_sameCount s.columns).bind fun columns hcolumns => .pure ⟨hcolumns, hjoin⟩

/-- A query is resolved to as many columns as were asked for, and to the same clauses. -/
theorem query_follows (input : Input.Query) :
    Gives (fun q : Sql.Query => SameCount input.select.columns q.select.columns ∧
      (Statement.keywordsOf q).flatten = input.clauseWords) (query look input) := by
  refine (select_follows input.select).bind fun select hselect => ?_
  refine (optional_isSome input.filter).bind fun filter hfilter => ?_
  refine (optional_isSome input.groups).bind fun groups hgroups => ?_
  refine (optional_isSome input.having).bind fun having hhaving => ?_
  refine (optional_isSome input.order).bind fun order horder => .pure ⟨hselect.1, ?_⟩
  simp only [Statement.keywordsOf, Input.Query.clauseWords, Statement.wordIf, hselect.2, hfilter, hgroups,
    hhaving, horder, List.flatten_cons, List.flatten_nil, List.append_assoc, List.append_nil]

end Resolve

/-! ## The law -/

/-- Every alias target is calm, and every statement of a stored query can stand in parentheses. -/
def Statement.surfaceLaw (access : TableAccess) : EntityLaw access where
  aliased body := Calm body.target
  query body := Enclosable body.statement
  ofBuilt h := by
    cases h with
    | table _ => exact calm_quotedName _
    | expr huses _ => exact calm_expr ⟨id, id⟩ _ huses
    | cond huses _ => exact calm_cond ⟨id, id⟩ _ huses
  ofQuery {_ _ q} h := by
    have hsurfaces : Surfaces (.ofBodies (fun body => Calm body.target) fun body =>
        Enclosable body.statement) := ⟨id, id⟩
    rw [q.statement_compiled]
    exact enclosable_unterminated hsurfaces.embeds h

/-! ## The shape of a compiled query -/

/-- The statement and the number of columns are those of the columns that were asked for. -/
def Sql.Compiled.Lists (compiled : Compiled) : Input.Columns → Prop
  | .all => compiled.columnCount = -1 ∧ Statement.selectText compiled.sql = "*"
  | .list items => compiled.columnCount = Int64.ofNat items.length ∧
    Statement.selectCommas compiled.sql + 1 = items.length

/-- The number of columns can be read off the statement. -/
def Sql.Compiled.Counts (compiled : Compiled) : Prop :=
  if compiled.columnCount = -1 then Statement.selectText compiled.sql = "*"
  else 1 ≤ compiled.columnCount ∧
    (Statement.selectCommas compiled.sql : Int) = compiled.columnCount.toInt - 1

/-- A list that is not empty, and no longer than a signed number can say, can be counted. -/
theorem Sql.Compiled.Lists.counts {compiled : Compiled} {columns : Input.Columns}
    (h : compiled.Lists columns)
    (hsize : ∀ items, columns = .list items → (items.length : Int) ≤ Int64.maxValue.toInt) :
    compiled.Counts := by
  cases columns with
  | all =>
    rw [Counts, if_pos h.1]
    exact h.2
  | list items =>
    obtain ⟨hcount, hcommas⟩ := h
    -- read as a signed number, the count is the length, and not the mark for all columns
    have hint : compiled.columnCount.toInt = items.length := by
      have hmax : Int64.maxValue.toInt = 9223372036854775807 := rfl
      have hfits := hsize items rfl
      rw [hcount]
      exact Int64.toInt_ofNat_of_lt (by omega)
    have hne : compiled.columnCount ≠ -1 := by
      intro heq
      have hminus : (-1 : Int64).toInt = -1 := rfl
      rw [heq, hminus] at hint
      omega
    rw [Counts, if_neg hne, Int64.le_iff_toInt_le]
    have hone : (1 : Int64).toInt = 1 := rfl
    omega

/-- Between SELECT and FROM a compiled statement has one item for each column that was asked for. -/
theorem Sql.Query.lists_compiled {k : Known} (hk : Statement.Surfaces k) {q : Sql.Query} (h : q.Uses k)
    {columns : Input.Columns} (hne : columns ≠ .list [])
    (hcount : Resolve.SameCount columns q.select.columns) : q.compiled.Lists columns := by
  have htokens := Statement.selectTokens_render hk h
  have huses := h.select.2.2
  cases hresolved : q.select.columns with
  | all =>
    cases columns with
    | list items =>
      rw [hresolved] at hcount
      exact hcount.elim
    | all =>
      rw [hresolved] at htokens
      refine ⟨congrArg Columns.count hresolved, ?_⟩
      rw [Statement.selectText, Sql.Query.compiled, htokens]
      decide
  | list resolved =>
    rw [hresolved] at hcount htokens huses
    cases columns with
    | all => exact hcount.elim
    | list items =>
      have hlength : resolved.length = items.length := hcount
      have hpositive : items.length ≠ 0 := by
        intro hzero
        exact hne (congrArg Input.Columns.list (List.eq_nil_of_length_eq_zero hzero))
      -- the commas of the list are the ones between its items, for items show none
      have hshown : Statement.selectCommas q.render = resolved.length - 1 := by
        rw [Statement.selectCommas, htokens, Statement.commas_append]
        exact (Statement.shows_items hk huses).commas
      refine ⟨?_, ?_⟩
      · rw [← hlength]
        exact congrArg Columns.count hresolved
      · rw [Sql.Query.compiled, hshown]
        omega

namespace Catalog

/-- **The text has the declared shape.**  Whatever happened before, the clauses that a compiled statement
    shows are the clauses of the query, in statement order; and between SELECT and FROM it shows a star
    for all columns, and else one comma less than it has columns. -/
theorem compile_shaped (settings : Settings) (schema : Schema) (steps : List Step) (owner : Owner)
    (input : Input.Query) (hne : input.select.columns ≠ .list []) (compiled : Sql.Compiled)
    (hcompile : ((compile owner input).run ((fresh settings schema .empty).run steps)).1 =
      .ok compiled) :
    Statement.clauseWords (Statement.tokens compiled.sql) = input.clauseWords ∧
      compiled.Lists input.select.columns ∧
      ((∀ items, input.select.columns = .list items → (items.length : Int) ≤ Int64.maxValue.toInt) →
        compiled.Counts) := by
  obtain ⟨past, hcoherent⟩ := run_coherent settings schema steps
  generalize (fresh settings schema .empty).run steps = c at hcoherent hcompile
  rw [compile, resolving, fetching_run, Resolve.compile] at hcompile
  obtain ⟨q, t, hq, hcompiled⟩ := run_bind_eq_ok_iff.mp hcompile
  have hcompiled := Except.ok.inj hcompiled
  subst hcompiled
  -- what the owner can fetch is calm, by the law that the past obeys
  have hfetchable := hcoherent.fetchable_lawful owner (Statement.surfaceLaw c.tableAccess)
  have hquery := congrArg Prod.fst hq
  obtain ⟨-, -, hwalk⟩ := Resolve.query_agrees (Cache.lookups_between hfetchable) input
    c.traffic c.traffic ⟨rfl, .refl⟩
  have huses := (hwalk q hquery).1
  obtain ⟨hcount, hwords⟩ := Resolve.query_follows input c.traffic q hquery
  have hlists := q.lists_compiled ⟨id, id⟩ huses hne hcount
  refine ⟨?_, hlists, hlists.counts⟩
  rw [← hwords]
  exact Statement.clauseWords_render ⟨id, id⟩ huses

/-! ## Keywords and commas out of sight -/

/-- A table and a column with the names of a keyword and a comma. -/
def wordySchema : Schema := .ofTables [.ofColumns "FROM" [(",", "int")]]

/-- An owner names the table, the column, and a value with a comma and a keyword in it. -/
def wordySteps : List Step :=
  [ .request 1 (.createAlias ⟨"t", .expr (.table "FROM")⟩),
    .request 1 (.createAlias ⟨"v", .expr (.column "FROM" ",")⟩),
    .request 1 (.createAlias ⟨"w", .expr (.conditional
      [.mk (.isNull (.column "FROM" ",") false) (.literal (.text "(, WHERE"))]
      (.call "ROUND" [.expr (.column "FROM" ","), .expr (.literal (.int 2))]))⟩) ]

/-- Selects the column and the value, from one row. -/
def wordyQuery : Input.Query where
  select := ⟨.list [.aliased (.name "v"), .aliased (.name "w")], .aliased (.name "t"), none⟩
  filter := none
  groups := none
  having := none
  order := none
  limit := some ⟨1, 0⟩

/-- The statement that it is compiled to. -/
def wordyStatement : String :=
  "SELECT `FROM`.`,` AS `v`, CASE WHEN (`FROM`.`,` IS NULL) THEN '(, WHERE' " ++
    "ELSE ROUND(`FROM`.`,`, 2) END AS `w` FROM `FROM` LIMIT 1 OFFSET 0;"

/-- Names and texts full of keywords and commas, and none of them is seen. -/
theorem compile_shaped_wordy :
    ((compile 1 wordyQuery).run ((fresh .standard wordySchema .empty).run wordySteps)).1 =
      .ok ⟨wordyStatement, 2⟩ ∧
    Statement.clauseWords (Statement.tokens wordyStatement) = ["SELECT", "FROM", "LIMIT"] ∧
    Statement.selectCommas wordyStatement = 1 := by
  have hrun : ((compile 1 wordyQuery).run ((fresh .standard wordySchema .empty).run wordySteps)).1 =
      .ok ⟨wordyStatement, 2⟩ := eq_ok_of_toOption (by decide +kernel)
  obtain ⟨hwords, ⟨-, hcommas⟩, -⟩ :=
    compile_shaped .standard wordySchema wordySteps 1 wordyQuery (by decide) _ hrun
  have htwo : Statement.selectCommas wordyStatement + 1 = 2 := hcommas
  exact ⟨hrun, hwords, Nat.add_right_cancel htwo⟩

end Catalog

end QueryCatalog
