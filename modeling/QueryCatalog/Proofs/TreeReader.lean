/-
  A reader for rendered trees.

  The reader goes through a text once and never back.  The first character says what comes: a
  parenthesis opens a group, a quote opens a name or a text, and anything else begins a word.  In a
  group, the word behind the first operand decides what the group is.  Literals are not told apart
  beyond their text, so that what is read is a tree in which every literal stands for its text
  (`Expr.spelled`).

  The reader is cut into pieces that take the reader for operands as an argument.  How deep trees may
  be is the only bound (`tree`).  Words and quotes come with what is found in front of a given rest
  (`word_append`, `unquoted_doubled`).
-/
import Mathlib.Data.List.Basic
import QueryCatalog.Proofs.CachedEntity
import QueryCatalog.Proofs.Numeral
import QueryCatalog.Proofs.TreeNodes

namespace QueryCatalog.Sql

/-! ## Trees up to the text of literals -/

mutual

/-- The value with each literal replaced by the text that it is written as. -/
def Expr.spelled : Expr → Expr
  | .literal value => .literal (.text value.sql)
  | .binary left operation right => .binary left.spelled operation right.spelled
  | .call function args => .call function (spelledArgs args)
  | .interval value unit => .interval value unit
  | .conditional branches otherwise => .conditional (spelledBranches branches) otherwise.spelled
  | .column table column => .column table column
  | .aliased target => .aliased target
  | .subquery subquery => .subquery subquery

/-- The argument with each literal replaced by its text. -/
def Arg.spelled : Arg → Arg
  | .star => .star
  | .expr value => .expr value.spelled

/-- The branch with each literal replaced by its text. -/
def Branch.spelled : Branch → Branch
  | .mk condition result => .mk condition.spelled result.spelled

/-- The truth value with each literal replaced by the text that it is written as. -/
def Cond.spelled : Cond → Cond
  | .negation operand => .negation operand.spelled
  | .connective left operation right => .connective left.spelled operation right.spelled
  | .comparison left operation right => .comparison left.spelled operation right.spelled
  | .between value lower upper negated =>
    .between value.spelled lower.spelled upper.spelled negated
  | .isNull value negated => .isNull value.spelled negated
  | .member value source negated => .member value.spelled source.spelled negated
  | .existence query negated => .existence query negated
  | .aliased target => .aliased target

/-- The source with each literal replaced by its text. -/
def MemberSource.spelled : MemberSource → MemberSource
  | .list items => .list (spelledExprs items)
  | .query query => .query query

/-- Some values with each literal replaced by its text. -/
def spelledExprs : List Expr → List Expr
  | [] => []
  | e :: es => e.spelled :: spelledExprs es

/-- Some arguments with each literal replaced by its text. -/
def spelledArgs : List Arg → List Arg
  | [] => []
  | a :: as => a.spelled :: spelledArgs as

/-- Some branches with each literal replaced by its text. -/
def spelledBranches : List Branch → List Branch
  | [] => []
  | b :: bs => b.spelled :: spelledBranches bs

end

/-- The phrase with each literal replaced by its text. -/
def Phrase.spelled : Phrase → Phrase
  | .expr value => .expr value.spelled
  | .cond condition => .cond condition.spelled

/-- Reads something off the front of a text, and leaves the rest. -/
abbrev Reader (α : Type) := List Char → Option (α × List Char)

namespace Reader

/-! ## Words and quotes -/

/-- Skips a given text. -/
def skip (text : String) (cs : List Char) : Option (List Char) := text.toList.isPrefixOf? cs

theorem skip_append (text : String) (rest : List Char) : skip text (text.toList ++ rest) = some rest :=
  List.isPrefixOf?_eq_some_iff_append_eq.mpr rfl

/-- Whether a character can stand in a word. -/
def isWordPart (c : Char) : Bool := c != ' ' && c != ',' && c != '(' && c != ')'

/-- The word at the front. -/
def word (cs : List Char) : String := String.ofList (cs.takeWhile isWordPart)

/-- What follows the word at the front. -/
def afterWord (cs : List Char) : List Char := cs.dropWhile isWordPart

/-- The text is all word. -/
def IsWord (w : String) : Prop := w.toList.all isWordPart = true

instance (w : String) : Decidable (IsWord w) :=
  inferInstanceAs (Decidable (w.toList.all isWordPart = true))

/-- Where a word has ended. -/
def EndsWord (rest : List Char) : Prop := ∀ c ∈ rest.head?, isWordPart c = false

/-- Where a word ends there is nothing more of it. -/
theorem takeWhile_of_endsWord {rest : List Char} (h : EndsWord rest) :
    rest.takeWhile isWordPart = [] ∧ rest.dropWhile isWordPart = rest := by
  cases rest with
  | nil => exact ⟨rfl, rfl⟩
  | cons c rest =>
    have hc : isWordPart c = false := h c rfl
    simp [hc]

/-- A word is read up to its end. -/
theorem word_append {w : String} {rest : List Char} (hw : IsWord w) (hrest : EndsWord rest) :
    word (w.toList ++ rest) = w ∧ afterWord (w.toList ++ rest) = rest := by
  obtain ⟨htake, hdrop⟩ := takeWhile_of_endsWord hrest
  have hall := List.all_eq_true.mp hw
  rw [word, afterWord, List.takeWhile_append_of_pos hall, List.dropWhile_append_of_pos hall, htake,
    hdrop, List.append_nil, String.ofList_toList]
  exact ⟨rfl, rfl⟩

theorem isWordPart_of_isFigure {c : Char} (h : Text.isFigure c = true) : isWordPart c = true := by
  rw [isWordPart]
  have hne : ∀ d, Text.isFigure d = false → (c != d) = true := by
    intro d hd
    rw [bne_iff_ne]
    rintro rfl
    rw [h] at hd
    cases hd
  rw [hne ' ' rfl, hne ',' rfl, hne '(' rfl, hne ')' rfl]
  rfl

/-- The keyword that has a text. -/
def named? (κ : Type) [Keyword κ] (w : String) : Option κ :=
  (Keyword.all : List κ).find? fun k => Keyword.text k == w

/-- The whole number that has a text. -/
def whole? (w : String) : Option Int64 :=
  match Doc.readNumber? (w.toList.map some) with
  | some (.int i, []) => some (.ofInt i)
  | _ => none

/-- A whole number that is written is read back. -/
theorem whole?_toString (i : Int64) : whole? (toString i.toInt) = some i := by
  have hend : Doc.EndsNumber [] := trivial
  have hread := Doc.readNumber?_toString (Cache.fitsWord_toInt i) hend
  rw [List.append_nil] at hread
  rw [whole?, hread]
  exact congrArg some (Int64.ofInt_toInt i)

/-- The text up to the quote that closes it; inside, quotes come in pairs. -/
def unquoted (q : Char) : Reader (List Char)
  | [] => none
  | [c] => if c = q then some ([], []) else none
  | c :: d :: rest =>
    if c = q then
      if d = q then (unquoted q rest).map fun (s, rest) => (q :: s, rest) else some ([], d :: rest)
    else (unquoted q (d :: rest)).map fun (s, rest) => (c :: s, rest)

/-- A character that is not the quote stands for itself. -/
theorem unquoted_cons {q c : Char} (hc : c ≠ q) (d : Char) (rest : List Char) :
    unquoted q (c :: d :: rest) =
      (unquoted q (d :: rest)).map fun (s, rest) => (c :: s, rest) := by
  rw [unquoted, if_neg hc]

/-- A text is found again between its quotes, if no quote follows. -/
theorem unquoted_doubled {q : Char} (s : List Char) {rest : List Char} (hrest : rest.head? ≠ some q) :
    unquoted q (Text.doubled q s ++ q :: rest) = some (s, rest) := by
  induction s with
  | nil =>
    cases rest with
    | nil =>
      show (if q = q then _ else _) = _
      rw [if_pos rfl]
    | cons d rest =>
      have hd : d ≠ q := fun heq => hrest (congrArg some heq)
      show (if q = q then if d = q then _ else _ else _) = _
      rw [if_pos rfl, if_neg hd]
  | cons c s ih =>
    rw [Text.doubled]
    by_cases hc : c = q
    · rw [if_pos hc, List.cons_append, List.cons_append, unquoted, if_pos rfl, if_pos rfl, ih, hc]
      rfl
    · rw [if_neg hc, List.cons_append]
      -- behind the character stands at least the closing quote
      obtain ⟨d, behind, hbehind⟩ :
          ∃ d behind, Text.doubled q s ++ q :: rest = d :: behind :=
        List.exists_cons_of_ne_nil (by simp)
      rw [hbehind, unquoted_cons hc, ← hbehind, ih]
      rfl

theorem toList_quoted (q : Char) (s : String) (rest : List Char) :
    (Text.quoted q s).toList ++ rest = q :: (Text.doubled q s.toList ++ q :: rest) := by
  rw [Text.quoted, String.toList_ofList, List.cons_append, List.append_assoc]
  rfl

/-! ## The reader -/

/-- Reads a value. -/
def expr (read : Reader Phrase) (cs : List Char) : Option (Expr × List Char) :=
  match read cs with
  | some (.expr e, rest) => some (e, rest)
  | _ => none

/-- Reads a truth value. -/
def cond (read : Reader Phrase) (cs : List Char) : Option (Cond × List Char) :=
  match read cs with
  | some (.cond c, rest) => some (c, rest)
  | _ => none

/-- Reads an argument. -/
def arg (read : Reader Phrase) (cs : List Char) : Option (Arg × List Char) :=
  if cs.head? = some '*' then some (.star, cs.tail)
  else (expr read cs).map fun (e, rest) => (.expr e, rest)

/-- Reads one or more arguments, and the parenthesis behind them. -/
def items (read : Reader Phrase) : Nat → Reader (List Arg)
  | 0, _ => none
  | n + 1, cs => do
    let (a, rest) ← arg read cs
    match rest with
    | ')' :: rest => pure ([a], rest)
    | ',' :: ' ' :: rest =>
      let (as, rest) ← items read n rest
      pure (a :: as, rest)
    | _ => none

/-- Reads any number of arguments, and the parenthesis behind them. -/
def args (read : Reader Phrase) (n : Nat) (cs : List Char) : Option (List Arg × List Char) :=
  if cs.head? = some ')' then some ([], cs.tail) else items read n cs

/-- The values among which a membership test looks. -/
def exprs? : List Arg → Option (List Expr)
  | [] => some []
  | .expr e :: as => (exprs? as).map (e :: ·)
  | .star :: _ => none

/-- Reads a branch behind its first word. -/
def branch (read : Reader Phrase) (cs : List Char) : Option (Branch × List Char) := do
  let (condition, rest) ← cond read cs
  let rest ← skip " THEN " rest
  let (result, rest) ← expr read rest
  pure (.mk condition result, rest)

/-- Reads branches as long as there are any. -/
def branches (read : Reader Phrase) : Nat → Reader (List Branch)
  | 0, _ => none
  | n + 1, cs =>
    match skip " WHEN " cs with
    | none => some ([], cs)
    | some rest => do
      let (b, rest) ← branch read rest
      let (bs, rest) ← branches read n rest
      pure (b :: bs, rest)

/-- Reads a conditional expression behind its first word. -/
def conditional (read : Reader Phrase) (n : Nat) (cs : List Char) : Option (Phrase × List Char) := do
  let (bs, rest) ← branches read n cs
  let rest ← (skip "  ELSE " rest).or (skip " ELSE " rest)
  let (otherwise, rest) ← expr read rest
  let rest ← skip " END" rest
  pure (.expr (.conditional bs otherwise), rest)

/-- Reads an interval behind its first word. -/
def interval (cs : List Char) : Option (Phrase × List Char) := do
  let rest ← skip " " cs
  let value ← whole? (word rest)
  let rest ← skip " " (afterWord rest)
  let unit ← named? DateUnit (word rest)
  pure (.expr (.interval value unit), afterWord rest)

/-- Reads what begins with a word: a call if a parenthesis follows it, else by the word. -/
def worded (read : Reader Phrase) (n : Nat) (w : String) (rest : List Char) :
    Option (Phrase × List Char) :=
  if rest.head? = some '(' then do
    let function ← named? SqlFunction w
    let (as, rest) ← args read n rest.tail
    pure (.expr (.call function as), rest)
  else if w = "INTERVAL" then interval rest
  else if w = "CASE" then conditional read n rest
  else some (.expr (.literal (.text w)), rest)

/-- Reads a column behind its first quote. -/
def column (cs : List Char) : Option (Phrase × List Char) := do
  let (table, rest) ← unquoted '\x60' cs
  let rest ← skip ".\x60" rest
  let (name, rest) ← unquoted '\x60' rest
  pure (.expr (.column (.ofList table) (.ofList name)), rest)

/-- Reads a text literal behind its first quote. -/
def quotedText (cs : List Char) : Option (Phrase × List Char) := do
  let (s, rest) ← unquoted '\x27' cs
  pure (.expr (.literal (.text (Text.quotedText (.ofList s)))), rest)

/-- Reads a test that can be negated, behind its word. -/
def test (read : Reader Phrase) (n : Nat) (value : Expr) (negated : Bool) (w : String)
    (cs : List Char) : Option (Phrase × List Char) :=
  if w = "BETWEEN" then do
    let rest ← skip " " cs
    let (lower, rest) ← expr read rest
    let rest ← skip " AND " rest
    let (upper, rest) ← expr read rest
    pure (.cond (.between value lower upper negated), rest)
  else if w = "IN" then do
    let rest ← skip " (" cs
    let (as, rest) ← args read n rest
    let es ← exprs? as
    pure (.cond (.member value (.list es) negated), rest)
  else none

/-- Reads on in a group behind its first operand and the word that follows that. -/
def operation (read : Reader Phrase) (n : Nat) (w : String) (cs : List Char) :
    Phrase → Option (Phrase × List Char)
  | .expr value =>
    if w = "IS" then
      match skip " NOT NULL" cs with
      | some rest => some (.cond (.isNull value true), rest)
      | none => (skip " NULL" cs).map fun rest => (.cond (.isNull value false), rest)
    else if w = "NOT" then do
      let rest ← skip " " cs
      test read n value true (word rest) (afterWord rest)
    else
      match named? Arithmetic w, named? Comparison w with
      | some o, _ => do
        let rest ← skip " " cs
        let (right, rest) ← expr read rest
        pure (.expr (.binary value o right), rest)
      | none, some o => do
        let rest ← skip " " cs
        let (right, rest) ← expr read rest
        pure (.cond (.comparison value o right), rest)
      | none, none => test read n value false w cs
  | .cond left => do
    let o ← named? Connective w
    let rest ← skip " " cs
    let (right, rest) ← cond read rest
    pure (.cond (.connective left o right), rest)

/-- Reads a group behind the parenthesis that opens it. -/
def group (read : Reader Phrase) (n : Nat) (cs : List Char) : Option (Phrase × List Char) :=
  match skip "NOT " cs with
  | some rest => do
    let (operand, rest) ← cond read rest
    let rest ← skip ")" rest
    pure (.cond (.negation operand), rest)
  | none => do
    let (first, rest) ← read cs
    let rest ← skip " " rest
    let (whole, rest) ← operation read n (word rest) (afterWord rest) first
    let rest ← skip ")" rest
    pure (whole, rest)

/-- Reads a tree of at most the given size. -/
def tree : Nat → Reader Phrase
  | 0, _ => none
  | _ + 1, [] => none
  | n + 1, c :: cs =>
    if c = '(' then group (tree n) n cs
    else if c = '\x60' then column cs
    else if c = '\x27' then quotedText cs
    else worded (tree n) n (word (c :: cs)) (afterWord (c :: cs))

end Reader

end QueryCatalog.Sql
