/-
  Keyword sets.

  Requests name operators, functions and the like by text.  Each set is a type of its own that lists
  its keywords in order.  A text names a keyword when, blanks at its ends and the case of ASCII
  letters aside, it is the keyword's text; otherwise the failure reports the text as it was given.
-/
import QueryCatalog.Text.CharacterClass

namespace QueryCatalog

/-- A set of keywords. -/
class Keyword (κ : Type) where
  /-- What the set is called in messages. -/
  category : String
  /-- What a keyword of the set is called when it is inspected. -/
  label : String
  all : List κ
  text : κ → String

/-- A text that names no keyword of its set. -/
structure UnknownKeyword where
  category : String
  used : String
  allowed : List String
deriving DecidableEq, Repr, Inhabited

namespace Keyword

/-- The spelling that decides: no blanks at the ends, ASCII letters in lower case. -/
def folded (s : String) : List Char := (Text.trim s).toList.map Char.toLower

/-- The first keyword with the text's spelling. -/
def find? (κ : Type) [Keyword κ] (s : String) : Option κ :=
  (all : List κ).find? fun k => (text k).toList.map Char.toLower == folded s

/-- The keyword that a text names. -/
def parse (κ : Type) [Keyword κ] (s : String) : Except UnknownKeyword κ :=
  match find? κ s with
  | some k => .ok k
  | none => .error ⟨category κ, s, (all : List κ).map text⟩

/-- A keyword as it is inspected. -/
def inspect {κ : Type} [Keyword κ] (k : κ) : String := label κ ++ "(" ++ text k ++ ")"

end Keyword

/-! ## Functions -/

/-- The functions that an expression may call. -/
inductive SqlFunction where
  | year | month | day | date | floor | round | lower | upper | length
  | avg | sum | max | min | count
deriving DecidableEq, Repr, Inhabited

instance : Keyword SqlFunction where
  category := "function"
  label := "FunctionName"
  all := [.year, .month, .day, .date, .floor, .round, .lower, .upper, .length,
    .avg, .sum, .max, .min, .count]
  text
    | .year => "YEAR" | .month => "MONTH" | .day => "DAY" | .date => "DATE"
    | .floor => "FLOOR" | .round => "ROUND"
    | .lower => "LOWER" | .upper => "UPPER" | .length => "LENGTH"
    | .avg => "AVG" | .sum => "SUM" | .max => "MAX" | .min => "MIN" | .count => "COUNT"

/-- Whether the function combines the rows of a group. -/
def SqlFunction.isAggregate : SqlFunction → Bool
  | .avg | .sum | .max | .min | .count => true
  | _ => false

/-! ## Operators -/

/-- The operators between two values that give a value. -/
inductive Arithmetic where
  | add | sub | div | mul | mod | intDiv
deriving DecidableEq, Repr, Inhabited

instance : Keyword Arithmetic where
  category := "arithmetic operator"
  label := "ArithmeticOp"
  all := [.add, .sub, .div, .mul, .mod, .intDiv]
  text
    | .add => "+" | .sub => "-" | .div => "/" | .mul => "*" | .mod => "%" | .intDiv => "DIV"

/-- The operators between two values that give a truth value. -/
inductive Comparison where
  | eq | gt | lt | ge | le | ne | regexp
deriving DecidableEq, Repr, Inhabited

instance : Keyword Comparison where
  category := "comparison operator"
  label := "CompareOp"
  all := [.eq, .gt, .lt, .ge, .le, .ne, .regexp]
  text
    | .eq => "=" | .gt => ">" | .lt => "<" | .ge => ">=" | .le => "<=" | .ne => "<>"
    | .regexp => "REGEXP"

/-- The operators between two truth values. -/
inductive Connective where
  | and | or
deriving DecidableEq, Repr, Inhabited

instance : Keyword Connective where
  category := "logical operator"
  label := "LogicalOp"
  all := [.and, .or]
  text
    | .and => "AND" | .or => "OR"

/-! ## Words of clauses -/

/-- The direction of an order. -/
inductive Direction where
  | ascending | descending
deriving DecidableEq, Repr, Inhabited

instance : Keyword Direction where
  category := "direction"
  label := "Direction"
  all := [.ascending, .descending]
  text
    | .ascending => "ASC" | .descending => "DESC"

/-- Which rows without a partner a join keeps. -/
inductive JoinKind where
  | inner | left | right | full
deriving DecidableEq, Repr, Inhabited

instance : Keyword JoinKind where
  category := "join type"
  label := "JoinType"
  all := [.inner, .left, .right, .full]
  text
    | .inner => "INNER" | .left => "LEFT" | .right => "RIGHT" | .full => "FULL"

/-- The unit of a time interval. -/
inductive DateUnit where
  | day | month | year | hour | minute | second
deriving DecidableEq, Repr, Inhabited

instance : Keyword DateUnit where
  category := "date unit"
  label := "DateUnit"
  all := [.day, .month, .year, .hour, .minute, .second]
  text
    | .day => "DAY" | .month => "MONTH" | .year => "YEAR" | .hour => "HOUR"
    | .minute => "MINUTE" | .second => "SECOND"

end QueryCatalog
