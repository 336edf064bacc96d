/-
  The pieces that statements and messages are put together from.

  Strings are joined with a separator between neighbours.  A text is quoted by doubling: it stands
  between two quote characters, and a quote character inside it is written twice.  Identifiers are
  quoted with the backtick, text literals with the apostrophe.
-/

namespace QueryCatalog.Text

/-- The strings in order, `sep` between each two neighbours. -/
def joined (sep : String) : List String → String
  | [] => ""
  | [s] => s
  | s :: t :: rest => s ++ sep ++ joined sep (t :: rest)

/-! ## Quoting -/

/-- Every `q` written twice, all else once. -/
def doubled (q : Char) : List Char → List Char
  | [] => []
  | c :: rest => if c = q then q :: q :: doubled q rest else c :: doubled q rest

/-- The text between two `q`, with the inner ones doubled. -/
def quoted (q : Char) (s : String) : String :=
  String.ofList (q :: (doubled q s.toList ++ [q]))

/-- An identifier as it stands in a statement. -/
def quotedName (name : String) : String := quoted '\x60' name

/-- A text literal as it stands in a statement. -/
def quotedText (text : String) : String := quoted '\x27' text

end QueryCatalog.Text
