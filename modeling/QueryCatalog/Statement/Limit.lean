/-
  The limit at the end of a statement.

  A statement is limited when it ends in `LIMIT n`, or in `LIMIT n OFFSET m`, blanks behind it aside.
  The words are recognised in any case (the long s, U+017F, is another case of S), a run of blanks
  stands between the parts, the numbers are rows of decimal digits of any script, and the word LIMIT
  starts a word of its own.  Since the limit reaches to the end of the text, and no L stands in it
  behind its first word, at most one place in a text can be its start.

  A stored query that returns one column can stand for a value if it returns at most one row: either
  its statement ends in a limit of one row, or it has no limit at its end and gets that one.
-/
import QueryCatalog.Entity
import QueryCatalog.Error
import QueryCatalog.Text.CharacterClass

namespace QueryCatalog

namespace Statement

/-- A character with its case folded, as far as the words LIMIT and OFFSET need it. -/
def foldCase (c : Char) : Char := if c.toNat = 0x17F then 's' else c.toLower

/-- What stands behind a word, the case of letters aside.  The word is given in lower case. -/
def afterWord? : List Char → List Char → Option (List Char)
  | [], cs => some cs
  | w :: ws, c :: cs => if foldCase c = w then afterWord? ws cs else none
  | _ :: _, [] => none

/-- What stands behind a run of at least one blank. -/
def afterBlanks? : List Char → Option (List Char)
  | c :: cs => if Text.isWhiteSpace c then some (Text.dropBlanks cs) else none
  | [] => none

/-- A row of at least one decimal digit, and what stands behind it. -/
def number? (cs : List Char) : Option (List Char × List Char) :=
  match cs.takeWhile Text.isDecimalDigit with
  | [] => none
  | ds => some (ds, cs.dropWhile Text.isDecimalDigit)

/-- Whether only blanks are left. -/
def isBlank (cs : List Char) : Bool := cs.all Text.isWhiteSpace

/-- Whether the text is an offset and nothing else but blanks behind it. -/
def isOffset (cs : List Char) : Bool :=
  ((afterBlanks? cs).bind fun cs =>
    (afterWord? "offset".toList cs).bind fun cs =>
      (afterBlanks? cs).bind fun cs =>
        (number? cs).map fun (_, cs) => isBlank cs).getD false

/-- The row count of a limit that starts here and reaches to the end of the text. -/
def limitHere? (cs : List Char) : Option (List Char) := do
  let cs ← afterWord? "limit".toList cs
  let cs ← afterBlanks? cs
  let (rows, cs) ← number? cs
  if isBlank cs || isOffset cs then some rows else none

/-- The row count of the first limit of the text that starts a word and reaches to the end; `before`
    is the character in front of the text. -/
def limitFrom? (before : Option Char) : List Char → Option (List Char)
  | [] => none
  | c :: cs =>
    match limitHere? (c :: cs) with
    | some rows => if before.any Text.isWordCharacter then limitFrom? (some c) cs else some rows
    | none => limitFrom? (some c) cs

/-- The row count of the limit at the end of a statement, as it is written. -/
def trailingLimit? (cs : List Char) : Option (List Char) := limitFrom? none cs

/-- Whether a row count says one: ASCII digits that are worth one. -/
def isOne (rows : List Char) : Bool :=
  match rows.reverse with
  | '1' :: zeros => zeros.all (· == '0')
  | _ => false

/-! ## Statements without their terminator -/

/-- The text without blanks and one semicolon at its end, read backwards. -/
def openEnd (back : List Char) : List Char :=
  match Text.dropBlanks back with
  | ';' :: rest => Text.dropBlanks rest
  | back => back

/-- A statement without its terminator and the blanks around that, ready to be embedded. -/
def body (sql : String) : String := String.ofList (openEnd sql.toList.reverse).reverse

end Statement

/-! ## Stored queries as single values -/

/-- The statement of a stored query without its terminator. -/
def QueryBody.statement (q : QueryBody) : String := Statement.body q.sql

/-- The statement of a stored query, limited to one row. -/
def QueryBody.scalar (q : QueryBody) : Except Error String :=
  if q.columnCount ≠ 1 then .error (.scalarColumns q.name q.columnCount)
  else
    match Statement.trailingLimit? q.statement.toList with
    | some rows =>
      if Statement.isOne rows then .ok q.statement
      else .error (.scalarRows q.name (String.ofList rows))
    | none => .ok (q.statement ++ " LIMIT 1")

/-- Only a query of one column has a single value. -/
theorem QueryBody.columnCount_of_scalar {q : QueryBody} {sql : String} (h : q.scalar = .ok sql) :
    q.columnCount = 1 := by
  rw [scalar] at h
  split at h
  · cases h
  · rename_i hcount
    exact Decidable.not_not.mp hcount

end QueryCatalog
