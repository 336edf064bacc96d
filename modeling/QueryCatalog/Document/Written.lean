/-
  Writing a document as a JSON text.

  There are no blanks, and items and members keep their order.  In a string the quote, the backslash
  and the control characters are escaped, with a short escape where there is one; all else stands
  for itself.  A number that is no integer shows it: it is written positionally, with a point even
  where it is whole.
-/
import QueryCatalog.Document.Basic
import QueryCatalog.Number.Shortest
import QueryCatalog.Text.Pieces

namespace QueryCatalog.Written

/-- A hexadecimal digit in lower case. -/
def hexDigit (n : Nat) : Char :=
  if n < 10 then Char.ofNat ('0'.toNat + n) else Char.ofNat ('a'.toNat + (n - 10))

/-- A character inside a string. -/
def escaped (c : Char) : List Char :=
  match c with
  | '"' => ['\\', '"']
  | '\\' => ['\\', '\\']
  | '\x08' => ['\\', 'b']
  | '\x0c' => ['\\', 'f']
  | '\n' => ['\\', 'n']
  | '\r' => ['\\', 'r']
  | '\t' => ['\\', 't']
  | c =>
    if c.toNat < 0x20 then
      ['\\', 'u', '0', '0', hexDigit (c.toNat / 16), hexDigit (c.toNat % 16)]
    else [c]

/-- A string between its quotes. -/
def string (s : String) : String := String.ofList ('"' :: (s.toList.flatMap escaped ++ ['"']))

/-- A truth value. -/
def bool (b : Bool) : String := if b then "true" else "false"

/-- A number that is no integer. -/
def real (x : Binary64) : String := x.text ++ if 0 ≤ x.shortest.power then ".0" else ""

mutual

/-- A document.  What is no value is written as `null`, and so is the key of a member without one. -/
def doc : Doc → String
  | .null | .unfit | .broken => "null"
  | .bool b => bool b
  | .int i => toString i
  | .real x => real x
  | .text s => string s
  | .array ds => "[" ++ Text.joined "," (items ds) ++ "]"
  | .object ms => "\x7b" ++ Text.joined "," (members ms) ++ "\x7d"

/-- The items of an array. -/
def items : List Doc → List String
  | [] => []
  | d :: ds => doc d :: items ds

/-- The members of an object. -/
def members : List (Option String × Doc) → List String
  | [] => []
  | (key, d) :: ms => (string (key.getD "null") ++ ":" ++ doc d) :: members ms

end

end QueryCatalog.Written
