/-
  Why a document cannot be decoded.

  Seven causes have a text of their own.  All others (the text is no JSON, a value has the wrong
  type or does not fit, an array has the wrong length) are one cause without text.
-/
import QueryCatalog.Lookup
import QueryCatalog.Text.Pieces

namespace QueryCatalog

/-- The causes of a failed decoding. -/
inductive DecodeError where
  /-- No JSON, or a value of the wrong shape. -/
  | malformed
  /-- A reference with both a number and a name. -/
  | bothGiven (kind : EntityKind)
  /-- A reference with neither. -/
  | noneGiven (kind : EntityKind)
  /-- An empty list where at least one item is needed. -/
  | emptyList
  /-- None of the alternatives of a choice fits; the choice is named. -/
  | noAlternative (choice : String)
  | missingField (name : String)
  | duplicateField (name : String)
  | unknownTag (used : String) (known : List String)
deriving DecidableEq, Repr, Inhabited

namespace DecodeError

/-- A name between backticks. -/
def ticked (name : String) : String := "`" ++ name ++ "`"

/-- The tags that are known, as they are listed in a message. -/
def expected : List String → String
  | [a, b] => "expected " ++ ticked a ++ " or " ++ ticked b
  | known => "expected one of " ++ Text.joined ", " (known.map ticked)

/-- The text of a cause, for those that have one. -/
def message? : DecodeError → Option String
  | .malformed => none
  | .bothGiven kind =>
    some ("only one of " ++ ticked (kind.text ++ "_id") ++ " and " ++ ticked (kind.text ++ "_name") ++
      " may be set")
  | .noneGiven kind =>
    some ("one of " ++ ticked (kind.text ++ "_id") ++ " or " ++ ticked (kind.text ++ "_name") ++
      " is required")
  | .emptyList => some "invalid length 0, expected at least one item"
  | .noAlternative choice => some ("data did not match any variant of untagged enum " ++ choice)
  | .missingField name => some ("missing field " ++ ticked name)
  | .duplicateField name => some ("duplicate field " ++ ticked name)
  | .unknownTag used known => some ("unknown variant " ++ ticked used ++ ", " ++ expected known)

end DecodeError

end QueryCatalog
