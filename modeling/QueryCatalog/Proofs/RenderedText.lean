/-
  How rendered texts are scanned.

  A fragment takes a guard from outside of quotes to outside of quotes, at the depth it found and with
  nothing pending (`Fragment`).  Quoted names and text literals are fragments whatever stands in
  them, numbers are, and from there every node of a tree: its own words bring the guard to where its
  operands start, and parentheses that it opens it closes.  A statement whose blanks at the end were
  cut off may leave something pending (`Enclosable`); the parenthesis or the blank that follows
  wherever it is embedded settles that.

  Alias targets and statements of stored queries are pasted as they are, so they have to be fragments
  already: `fragment_expr`, `fragment_cond` and `enclosable_unterminated` are relative to that.
-/
import QueryCatalog.Proofs.Numeral
import QueryCatalog.Proofs.ResolveWalk
import QueryCatalog.Proofs.Scan
import QueryCatalog.Proofs.StatementBody

namespace QueryCatalog.Statement

/-- A text takes a guard from one state to another. -/
def Reads (s : String) (g g' : Guard) : Prop := g.run s.toList = some g'

/-- A text that can stand wherever an operand can. -/
def Fragment (s : String) : Prop := ∀ d, Reads s (.clean d) (.clean d)

/-- A text that can stand where a blank or a parenthesis follows. -/
def Enclosable (s : String) : Prop := ∀ d, ∃ p, Reads s (.clean d) ⟨.outside, d, p⟩

/-- Texts are read one after the other. -/
theorem Reads.append {s s' : String} {g g₁ g' : Guard} (h : Reads s g g₁) (h' : Reads s' g₁ g') :
    Reads (s ++ s') g g' := by
  rw [Reads, String.toList_append, Guard.run_append, h]
  exact h'

/-- A text that leaves the guard as it was can be put between parentheses. -/
theorem Fragment.enclosable {s : String} (h : Fragment s) : Enclosable s := fun d => ⟨.nothing, h d⟩

/-- Two fragments make one. -/
theorem Fragment.append {s s' : String} (h : Fragment s) (h' : Fragment s') : Fragment (s ++ s') :=
  fun d => (h d).append (h' d)

/-- The empty text changes nothing. -/
theorem Fragment.empty : Fragment "" := fun _ => rfl

/-- A blank ends whatever was pending in front of it. -/
theorem reads_blank (d : Nat) (p : Pending) : Reads " " ⟨.outside, d, p⟩ (.clean d) := by
  cases p <;> rfl

/-- A closing parenthesis does so too, and leaves one level. -/
theorem reads_close (d : Nat) (p : Pending) : Reads ")" ⟨.outside, d + 1, p⟩ (.clean d) := by
  cases p <;> rfl

/-- Two of them leave two levels. -/
theorem reads_close_both (d : Nat) (p : Pending) : Reads "))" ⟨.outside, d + 2, p⟩ (.clean d) := by
  cases p <;> rfl

/-- An opening parenthesis enters a level. -/
theorem reads_open (d : Nat) : Reads "(" (.clean d) (.clean (d + 1)) := rfl

/-- Between parentheses a text need only be enclosable: what it leaves pending ends at the second of
    them. -/
theorem Enclosable.parenthesized {s : String} (h : Enclosable s) : Fragment ("(" ++ s ++ ")") := by
  intro d
  obtain ⟨p, hs⟩ := h (d + 1)
  exact ((reads_open d).append hs).append (reads_close d p)

/-- Fragments with a fragment between neighbours. -/
theorem fragment_joined {sep : String} (hsep : Fragment sep) {ss : List String}
    (h : ∀ s ∈ ss, Fragment s) : Fragment (Text.joined sep ss) := by
  induction ss with
  | nil => exact .empty
  | cons s ss ih =>
    obtain ⟨hs, hss⟩ := List.forall_mem_cons.mp h
    cases ss with
    | nil => exact hs
    | cons t rest => exact (hs.append hsep).append (ih hss)

/-! ## Quoted texts -/

/-- A region that a quote character opens and closes. -/
structure Region.QuotedBy (r : Region) (q : Char) : Prop where
  inside : r ≠ .outside
  opens : Region.outside.behind q = r
  closes : r.behind q = .outside
  stays : ∀ c, c ≠ q → r.behind c = r

/-- Text literals stand between apostrophes. -/
theorem text_quotedBy : Region.text.QuotedBy '\x27' :=
  ⟨by decide, rfl, rfl, fun _ hc => if_neg hc⟩

/-- Identifiers stand between backticks. -/
theorem name_quotedBy : Region.name.QuotedBy '\x60' :=
  ⟨by decide, rfl, rfl, fun _ hc => if_neg hc⟩

namespace Region.QuotedBy

variable {r : Region} {q : Char} (h : r.QuotedBy q) (d : Nat)
include h

/-- Outside, the quote character opens its region. -/
theorem step_open : (Guard.clean d).step q = some ⟨r, d, .nothing⟩ := by
  simp [Guard.step, Guard.clean, isCode, h.opens, h.inside]

/-- Inside, only the quote character changes the region, and nothing is ever pending. -/
theorem step_inside (c : Char) :
    (Guard.mk r d .nothing).step c = some ⟨r.behind c, d, .nothing⟩ := by
  simp [Guard.step, isCode, h.inside]

/-- Inside the region, a text with its quotes doubled leaves the guard where it is. -/
theorem run_doubled (cs rest : List Char) :
    (Guard.mk r d .nothing).run (Text.doubled q cs ++ rest) = (Guard.mk r d .nothing).run rest := by
  induction cs with
  | nil => rfl
  | cons c cs ih =>
    by_cases hc : c = q
    · -- out of the region and in again
      have hopen : (Guard.mk .outside d .nothing).step q = some ⟨r, d, .nothing⟩ := h.step_open d
      simp only [Text.doubled, hc, if_true, List.cons_append, Guard.run, h.step_inside, h.closes,
        Option.bind_some, hopen]
      exact ih
    · simp only [Text.doubled, hc, if_false, List.cons_append, Guard.run, h.step_inside,
        h.stays c hc, Option.bind_some]
      exact ih

/-- A quoted text is a fragment, whatever it holds: its inner quotes are doubled, so that the region
    is left and entered again at once. -/
theorem fragment_quoted (s : String) : Fragment (Text.quoted q s) := by
  intro d
  rw [Reads, Text.quoted, String.toList_ofList]
  simp only [Guard.run, h.step_open, Option.bind_some, h.run_doubled, h.step_inside, h.closes]
  rfl

end Region.QuotedBy

/-- A quoted identifier is a fragment, whatever its name. -/
theorem fragment_quotedName (name : String) : Fragment (Text.quotedName name) :=
  name_quotedBy.fragment_quoted name

/-- A quoted text literal is a fragment, whatever its text. -/
theorem fragment_quotedText (text : String) : Fragment (Text.quotedText text) :=
  text_quotedBy.fragment_quoted text

/-! ## Numbers -/

/-- A digit, a point or a sign is code that nobody waits for. -/
theorem step_figure {c : Char} (hc : Text.isFigure c = true) (d : Nat) (p : Pending) :
    (Guard.mk .outside d p).step c = some (.clean d) := by
  have hne : ∀ x, Text.isFigure x = false → c ≠ x := by
    rintro x hx rfl
    exact absurd (hx.symm.trans hc) Bool.false_ne_true
  simp [Guard.step, Guard.isBad, Guard.clean, Region.isCode, Region.behind, depthBehind,
    Pending.behind, hne '\x27' rfl, hne '\x60' rfl, hne ';' rfl, hne '#' rfl, hne '-' rfl,
    hne '*' rfl, hne '(' rfl, hne ')' rfl, hne '/' rfl]

/-- So is a row of them, be something pending in front or not. -/
theorem run_figures {cs : List Char} (hne : cs ≠ []) (hcs : ∀ c ∈ cs, Text.isFigure c = true)
    (d : Nat) (p : Pending) : (Guard.mk .outside d p).run cs = some (.clean d) := by
  induction cs generalizing p with
  | nil => exact absurd rfl hne
  | cons c cs ih =>
    obtain ⟨hc, hrest⟩ := List.forall_mem_cons.mp hcs
    rw [Guard.run, step_figure hc, Option.bind_some]
    cases cs with
    | nil => rfl
    | cons c' cs => exact ih (List.cons_ne_nil _ _) hrest .nothing

/-- A number leaves nothing pending, since a digit follows its sign. -/
theorem fragment_numeral {s : String} (h : Text.IsNumeral s) : Fragment s := by
  obtain ⟨figures, hne, hfigures, hs | hs⟩ := h
  · intro d
    rw [Reads, hs]
    exact run_figures hne hfigures d .nothing
  · intro d
    rw [Reads, hs]
    exact run_figures hne hfigures d .dash

/-- Every literal is written as a fragment: a word, a numeral or a quoted text. -/
theorem fragment_literal (value : Literal) : Fragment value.sql := by
  cases value with
  | null => exact fun _ => rfl
  | bool b => cases b <;> exact fun _ => rfl
  | int i => exact fragment_numeral (Text.isNumeral_toString_int i.toInt)
  | float x => exact fragment_numeral (Text.isNumeral_text x)
  | text s => exact fragment_quotedText s

/-! ## Keywords -/

/-- Minus and the slash may start a comment, so an operator leaves something pending. -/
theorem enclosable_arithmetic (operation : Arithmetic) : Enclosable (Keyword.text operation) := by
  intro d
  cases operation <;> exact ⟨_, rfl⟩

theorem fragment_comparison (operation : Comparison) : Fragment (Keyword.text operation) := by
  intro d
  cases operation <;> rfl

theorem fragment_connective (operation : Connective) : Fragment (Keyword.text operation) := by
  intro d
  cases operation <;> rfl

theorem fragment_function (function : SqlFunction) : Fragment (Keyword.text function) := by
  intro d
  cases function <;> rfl

theorem fragment_dateUnit (unit : DateUnit) : Fragment (Keyword.text unit) := by
  intro d
  cases unit <;> rfl

theorem fragment_direction (direction : Direction) : Fragment (Keyword.text direction) := by
  intro d
  cases direction <;> rfl

theorem fragment_joinKind (kind : JoinKind) : Fragment (Keyword.text kind) := by
  intro d
  cases kind <;> rfl

/-- A negation is a word with its blank, or nothing. -/
theorem fragment_notText (negated : Bool) : Fragment (Sql.notText negated) := by
  intro d
  cases negated <;> rfl

/-- Two operands with an operator between them, in parentheses. -/
theorem fragment_infixed {left operation right : String} (hleft : Fragment left)
    (hoperation : Enclosable operation) (hright : Fragment right) :
    Fragment ("(" ++ left ++ " " ++ operation ++ " " ++ right ++ ")") := by
  intro d
  obtain ⟨p, hop⟩ := hoperation (d + 1)
  exact (((((reads_open d).append (hleft _)).append (reads_blank _ _)).append hop).append
    (reads_blank _ p)).append (hright _) |>.append (reads_close d _)

theorem fragment_comma : Fragment ", " := fun _ => rfl

theorem fragment_space : Fragment " " := fun _ => rfl

/-! ## Trees -/

/-- Targets and statements of known entities can be pasted. -/
structure Embeds (k : Known) : Prop where
  target : ∀ {target : Alias}, k.aliased target → Fragment target.body.target
  statement : ∀ {query : StoredQuery}, k.query query → Enclosable query.body.statement

variable {k : Known} (hk : Embeds k)
include hk

/-- A stored query as a single value is enclosable: its statement was compiled, and at most a limit
    was put behind it. -/
theorem enclosable_scalar {s : Sql.ScalarSubquery} (h : k.Scalar s) : Enclosable s.sql := by
  intro d
  obtain ⟨p, hstatement⟩ := hk.statement h.1 d
  rcases QueryBody.scalar_ok h.2 with hsql | hsql
  · exact ⟨p, hsql ▸ hstatement⟩
  · have hlimit : Reads " LIMIT 1" ⟨.outside, d, p⟩ (.clean d) := by cases p <;> rfl
    exact ⟨.nothing, hsql ▸ hstatement.append hlimit⟩

/-- It is written between parentheses. -/
theorem fragment_scalar {s : Sql.ScalarSubquery} (h : k.Scalar s) : Fragment s.render :=
  (enclosable_scalar hk h).parenthesized

-- inside the induction the hypothesis is used by the calls of the other cases only
set_option linter.unusedSectionVars false

mutual

/-- A value is written as a fragment if all entities in it are.  The induction is on the tree,
    together with its arguments, branches and conditions. -/
theorem fragment_expr : ∀ e : Sql.Expr, e.Uses k → Fragment e.render
  | .literal value, _ => fragment_literal value
  | .binary left operation right, ⟨hleft, hright⟩ => by
    rw [Sql.Expr.render]
    exact fragment_infixed (fragment_expr left hleft) (enclosable_arithmetic operation)
      (fragment_expr right hright)
  | .call function args, hargs => by
    -- no blank stands between the name and the parenthesis, so the depth is followed by hand
    have hlist := fragment_joined fragment_comma (fragment_args args hargs)
    rw [Sql.Expr.render]
    exact fun d => (((fragment_function function d).append (reads_open d)).append
      (hlist _)).append (reads_close d _)
  | .interval value unit, _ => by
    have hword : Fragment "INTERVAL " := fun _ => rfl
    have hvalue := fragment_numeral (Text.isNumeral_toString_int value.toInt)
    rw [Sql.Expr.render]
    exact ((hword.append hvalue).append fragment_space).append (fragment_dateUnit unit)
  | .conditional branches otherwise, ⟨hbranches, hotherwise⟩ => by
    have hcase : Fragment "CASE " := fun _ => rfl
    have helse : Fragment " ELSE " := fun _ => rfl
    have hend : Fragment " END" := fun _ => rfl
    have hlist := fragment_joined fragment_space (fragment_branches branches hbranches)
    rw [Sql.Expr.render]
    exact (((hcase.append hlist).append helse).append
      (fragment_expr otherwise hotherwise)).append hend
  | .column table column, _ => by
    have hpoint : Fragment "." := fun _ => rfl
    rw [Sql.Expr.render]
    exact ((fragment_quotedName table).append hpoint).append (fragment_quotedName column)
  | .aliased _, htarget => hk.target htarget.1
  | .subquery _, hscalar => fragment_scalar hk hscalar

/-- An argument is the star or a value. -/
theorem fragment_arg : ∀ a : Sql.Arg, a.Uses k → Fragment a.render
  | .star, _ => fun _ => rfl
  | .expr value, hvalue => fragment_expr value hvalue

theorem fragment_branch : ∀ b : Sql.Branch, b.Uses k → Fragment b.render
  | .mk condition result, ⟨hcondition, hresult⟩ => by
    have hwhen : Fragment "WHEN " := fun _ => rfl
    have hthen : Fragment " THEN " := fun _ => rfl
    rw [Sql.Branch.render]
    exact ((hwhen.append (fragment_cond condition hcondition)).append hthen).append
      (fragment_expr result hresult)

/-- A condition is written as a fragment if all entities in it are. -/
theorem fragment_cond : ∀ c : Sql.Cond, c.Uses k → Fragment c.render
  | .negation operand, hoperand => by
    have hnot : ∀ d, Reads "(NOT " (.clean d) (.clean (d + 1)) := fun _ => rfl
    rw [Sql.Cond.render]
    exact fun d => ((hnot d).append (fragment_cond operand hoperand _)).append (reads_close d _)
  | .connective left operation right, ⟨hleft, hright⟩ => by
    rw [Sql.Cond.render]
    exact fragment_infixed (fragment_cond left hleft) (fragment_connective operation).enclosable
      (fragment_cond right hright)
  | .comparison left operation right, ⟨hleft, hright⟩ => by
    rw [Sql.Cond.render]
    exact fragment_infixed (fragment_expr left hleft) (fragment_comparison operation).enclosable
      (fragment_expr right hright)
  | .between value lower upper negated, ⟨hvalue, hlower, hupper⟩ => by
    have hbetween : Fragment "BETWEEN " := fun _ => rfl
    have hand : Fragment " AND " := fun _ => rfl
    rw [Sql.Cond.render]
    exact fun d => ((((((((reads_open d).append (fragment_expr value hvalue _)).append
      (fragment_space _)).append (fragment_notText negated _)).append (hbetween _)).append
      (fragment_expr lower hlower _)).append (hand _)).append (fragment_expr upper hupper _)).append
      (reads_close d _)
  | .isNull value negated, hvalue => by
    have his : Fragment " IS " := fun _ => rfl
    have hnull : ∀ d, Reads "NULL)" (.clean (d + 1)) (.clean d) := fun _ => rfl
    rw [Sql.Cond.render]
    exact fun d => ((((reads_open d).append (fragment_expr value hvalue _)).append (his _)).append
      (fragment_notText negated _)).append (hnull d)
  | .member value source negated, ⟨hvalue, hsource⟩ => by
    have hin : ∀ d, Reads "IN (" (.clean d) (.clean (d + 1)) := fun _ => rfl
    rw [Sql.Cond.render]
    intro d
    -- what is inside may leave a dash or a slash pending, which the parenthesis ends
    obtain ⟨p, hinner⟩ := enclosable_memberSource source hsource (d + 2)
    exact ((((((reads_open d).append (fragment_expr value hvalue _)).append
      (fragment_space _)).append (fragment_notText negated _)).append (hin _)).append
      hinner).append (reads_close_both d p)
  | .existence query negated, hquery => by
    have hexists : ∀ d, Reads "EXISTS (" (.clean d) (.clean (d + 1)) := fun _ => rfl
    rw [Sql.Cond.render]
    intro d
    obtain ⟨p, hinner⟩ := hk.statement hquery (d + 2)
    exact ((((reads_open d).append (fragment_notText negated _)).append (hexists _)).append
      hinner).append (reads_close_both d p)
  | .aliased _, htarget => hk.target htarget.1

/-- The source of a membership test need only be enclosable, since it stands between parentheses. -/
theorem enclosable_memberSource : ∀ s : Sql.MemberSource, s.Uses k → Enclosable s.render
  | .list items, hitems => (fragment_joined fragment_comma (fragment_exprs items hitems)).enclosable
  | .query _, hmember => hk.statement hmember.1

theorem fragment_exprs : ∀ es : List Sql.Expr, Sql.usesExprs k es →
    ∀ s ∈ Sql.renderExprs es, Fragment s
  | [], _ => fun _ h => absurd h List.not_mem_nil
  | e :: es, ⟨he, hes⟩ => List.forall_mem_cons.mpr ⟨fragment_expr e he, fragment_exprs es hes⟩

theorem fragment_args : ∀ as : List Sql.Arg, Sql.usesArgs k as →
    ∀ s ∈ Sql.renderArgs as, Fragment s
  | [], _ => fun _ h => absurd h List.not_mem_nil
  | a :: as, ⟨ha, has⟩ => List.forall_mem_cons.mpr ⟨fragment_arg a ha, fragment_args as has⟩

theorem fragment_branches : ∀ bs : List Sql.Branch, Sql.usesBranches k bs →
    ∀ s ∈ Sql.renderBranches bs, Fragment s
  | [], _ => fun _ h => absurd h List.not_mem_nil
  | b :: bs, ⟨hb, hbs⟩ => List.forall_mem_cons.mpr ⟨fragment_branch b hb, fragment_branches bs hbs⟩

end

/-! ## Clauses -/

/-- A source of rows is a quoted identifier, or a stored query between parentheses with a name. -/
theorem fragment_source {s : Sql.Source} (h : s.Uses k) : Fragment s.render := by
  cases s with
  | table target => exact hk.target h.1
  | subquery query =>
    have has : ∀ d p, Reads ") AS " ⟨.outside, d + 1, p⟩ (.clean d) := by
      intro d p
      cases p <;> rfl
    intro d
    obtain ⟨p, hinner⟩ := hk.statement h (d + 1)
    exact (((reads_open d).append hinner).append (has d p)).append
      (fragment_quotedName query.body.name d)

/-- An item of a select list comes with its name. -/
theorem fragment_selectItem {i : Sql.SelectItem} (h : i.Uses k) : Fragment i.render := by
  have has : Fragment " AS " := fun _ => rfl
  cases i with
  | aliased target =>
    exact ((hk.target h.1).append has).append (fragment_quotedName target.body.name)
  | subquery s =>
    exact ((fragment_scalar hk h).append has).append (fragment_quotedName s.query.body.name)

/-- A star, or the items with commas between them. -/
theorem fragment_columns {c : Sql.Columns} (h : c.Uses k) : Fragment c.render := by
  cases c with
  | all => exact fun _ => rfl
  | list items =>
    exact fragment_joined fragment_comma
      (List.forall_mem_map.mpr fun item hitem => fragment_selectItem hk (h item hitem))

theorem fragment_join {j : Sql.Join} (h : j.Uses k) : Fragment j.render := by
  have hjoin : Fragment " JOIN " := fun _ => rfl
  have hon : Fragment " ON " := fun _ => rfl
  exact ((((fragment_joinKind j.kind).append hjoin).append (fragment_source hk h.1)).append
    hon).append (fragment_cond hk j.condition h.2)

theorem fragment_select {s : Sql.Select} (h : s.Uses k) : Fragment s.render := by
  have hselect : Fragment "SELECT " := fun _ => rfl
  have hfrom : Fragment " FROM " := fun _ => rfl
  obtain ⟨hsource, hjoin, hcolumns⟩ := h
  have hplain := ((hselect.append (fragment_columns hk hcolumns)).append hfrom).append
    (fragment_source hk hsource)
  rw [Sql.Select.render]
  cases hj : s.join with
  | none => exact hplain.append .empty
  | some j => exact hplain.append (fragment_space.append (fragment_join hk (hjoin j hj)))

/-- The items of an order with their directions. -/
theorem fragment_order {items : List Sql.OrderItem} (h : ∀ item ∈ items, item.operand.Uses k) :
    Fragment (Sql.renderOrder items) := by
  have horder : Fragment "ORDER BY " := fun _ => rfl
  refine horder.append (fragment_joined fragment_comma (List.forall_mem_map.mpr fun item hitem => ?_))
  exact ((fragment_expr hk item.operand (h item hitem)).append fragment_space).append
    (fragment_direction item.direction)

omit hk in
/-- A limit is words and numerals. -/
theorem fragment_limit (limit : Input.Limit) : Fragment (Sql.renderLimit limit) := by
  have hlimit : Fragment "LIMIT " := fun _ => rfl
  have hoffset : Fragment " OFFSET " := fun _ => rfl
  exact ((hlimit.append (fragment_numeral (Text.isNumeral_toString_nat _))).append hoffset).append
    (fragment_numeral (Text.isNumeral_toString_nat _))

omit hk in
/-- A clause is a fragment, also when it is absent. -/
theorem fragment_optional {α : Type} {render : α → String} {a : Option α}
    (h : ∀ x ∈ a, Fragment (render x)) : Fragment ((a.map render).getD "") := by
  cases a with
  | none => exact .empty
  | some x => exact h x rfl

/-- All clauses of a query are fragments, the absent ones being empty. -/
theorem fragment_clauses {q : Sql.Query} (h : q.Uses k) : ∀ clause ∈ q.clauses, Fragment clause := by
  have hwhere : Fragment "WHERE " := fun _ => rfl
  have hgroup : Fragment "GROUP BY " := fun _ => rfl
  have hhaving : Fragment "HAVING " := fun _ => rfl
  simp only [Sql.Query.clauses, List.forall_mem_cons]
  refine ⟨fragment_select hk h.select, ?_, ?_, ?_, ?_, ?_, fun _ h => absurd h List.not_mem_nil⟩
  · exact fragment_optional fun c hc => hwhere.append (fragment_cond hk c (h.filter c hc))
  · exact fragment_optional fun es hes => hgroup.append
      (fragment_joined fragment_comma (fragment_exprs hk es (h.groups es hes)))
  · exact fragment_optional fun c hc => hhaving.append (fragment_cond hk c (h.having c hc))
  · exact fragment_optional fun items hitems => fragment_order hk (h.order items hitems)
  · exact fragment_optional fun limit _ => fragment_limit limit

/-! ## Statements -/

omit hk

/-- A blank changes neither the region nor the depth. -/
theorem step_blank {c : Char} (hc : Text.isWhiteSpace c = true) {g g' : Guard}
    (h : g.step c = some g') : g.region = g'.region ∧ g.depth = g'.depth := by
  -- a blank is none of the characters that the guard knows
  have hne : ∀ x, Text.isWhiteSpace x = false → c ≠ x := by
    rintro x hx rfl
    exact absurd (hx.symm.trans hc) Bool.false_ne_true
  have hregion : g.region.behind c = g.region := by
    cases g.region <;> simp [Region.behind, hne '\x27' (by decide), hne '\x60' (by decide)]
  have hdepth : depthBehind g.depth c = some g.depth := by
    simp [depthBehind, hne '(' (by decide), hne ')' (by decide)]
  rw [Guard.step, hregion, hdepth] at h
  split at h
  · rename_i hcode
    split at h
    · cases h
    · cases h
      exact ⟨by simpa using (Bool.and_eq_true_iff.mp hcode).1, rfl⟩
  · cases h
    exact ⟨rfl, rfl⟩

/-- Blanks change neither the region nor the depth. -/
theorem run_blanks {blanks : List Char} (hblanks : ∀ c ∈ blanks, Text.isWhiteSpace c = true)
    {g g' : Guard} (h : g.run blanks = some g') : g.region = g'.region ∧ g.depth = g'.depth := by
  induction blanks generalizing g with
  | nil =>
    cases h
    exact ⟨rfl, rfl⟩
  | cons c blanks ih =>
    obtain ⟨hc, hrest⟩ := List.forall_mem_cons.mp hblanks
    rw [Guard.run, Option.bind_eq_some_iff] at h
    obtain ⟨g₁, hstep, hrun⟩ := h
    obtain ⟨hregion, hdepth⟩ := step_blank hc hstep
    obtain ⟨hregion', hdepth'⟩ := ih hrest hrun
    exact ⟨hregion.trans hregion', hdepth.trans hdepth'⟩

/-- Cut off its blanks at the end, a fragment can still be embedded. -/
theorem enclosable_trimEnd {s : String} (h : Fragment s) : Enclosable (Text.trimEnd s) := by
  intro d
  obtain ⟨-, blanks, heq, hblanks⟩ := Text.dropEndBlanks_spec s.toList
  have hrun := h d
  rw [Reads, heq, Guard.run_append, Option.bind_eq_some_iff] at hrun
  obtain ⟨g, hfront, hback⟩ := hrun
  obtain ⟨hregion, hdepth⟩ := run_blanks hblanks hback
  obtain ⟨region, depth, pending⟩ := g
  cases hregion
  cases hdepth
  exact ⟨pending, by rw [Reads, Text.trimEnd, String.toList_ofList]; exact hfront⟩

/-- The statement of a query over entities that can be pasted can be pasted itself. -/
theorem enclosable_unterminated (hk : Embeds k) {q : Sql.Query} (h : q.Uses k) :
    Enclosable q.unterminated :=
  enclosable_trimEnd (fragment_joined fragment_space fun _ hclause =>
    fragment_clauses hk h _ (List.mem_filter.mp hclause).1)

end QueryCatalog.Statement
