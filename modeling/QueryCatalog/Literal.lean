/-
  Literals: the constants of an expression, how they are decoded, written and inspected.

  A number without fraction and exponent that fits a signed 64-bit integer is an integer; every other
  number is a float.  Truth values are written as 1 and 0.
-/
import QueryCatalog.Document.Record
import QueryCatalog.Number.Shortest
import QueryCatalog.Text.Pieces

namespace QueryCatalog

/-- A constant. -/
inductive Literal where
  | null
  | bool (value : Bool)
  | int (value : Int64)
  | float (value : Binary64)
  | text (value : String)
deriving DecidableEq, Repr, Inhabited

namespace Literal

/-- The float that a number is read as. -/
def floatOfDoc? : Doc → Option Literal
  | .int i => (Binary64.ofInt? i).map .float
  | .real x => some (.float x)
  | _ => none

/-- The alternatives of a literal in the order in which they are tried. -/
def alternatives (doc : Doc) : List (Option Literal) :=
  [ match doc with
      | .null => some .null
      | _ => none,
    (doc.asBool.map .bool).toOption,
    (doc.asInt64.map .int).toOption,
    floatOfDoc? doc,
    (doc.asText.map .text).toOption ]

/-- The literal that a document holds. -/
def ofDoc (doc : Doc) : Decoded Literal := doc.choose "LiteralValue" (alternatives doc)

/-- The literal as it stands in a statement. -/
def sql : Literal → String
  | .null => "NULL"
  | .bool b => if b then "1" else "0"
  | .int i => toString i.toInt
  | .float x => x.text
  | .text s => Text.quotedText s

/-- The literal with a letter for its type. -/
def display : Literal → String
  | .null => "n: NULL"
  | .bool b => "b: " ++ (if b then "true" else "false")
  | .int i => "i: " ++ toString i.toInt
  | .float x => "f: " ++ x.text
  | .text s => "s: \"" ++ s ++ "\""

/-- The literal as it is inspected. -/
def inspect (l : Literal) : String :=
  (match l with
    | .null => "Null("
    | .bool _ => "Bool("
    | .int _ => "Int("
    | .float _ => "Float("
    | .text _ => "String(") ++ l.display ++ ")"

end Literal

end QueryCatalog
