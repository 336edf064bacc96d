/-
  Reading a JSON text into a document.

  The grammar is strict: blanks are space, tab, line feed and carriage return; strings hold no
  control characters and only the eight short escapes and `\uXXXX`; numbers have no leading zero and
  no bare point.  A decimal is read digit by digit up to 64 bits; the digits from there on count only as
  places.  A string in which a stray byte stands is well written, but no text.  Reading never
  fails: where the text leaves the grammar the document is `broken` at that place and ends there.
  Each reader returns what it read and the rest of the text, or no rest when the text broke off.
-/
import QueryCatalog.Document.Basic
import QueryCatalog.Document.Source

namespace QueryCatalog.Doc

/-- Containers may be nested this deep. -/
def nestingLimit : Nat := 127

/-- The blanks of a JSON text. -/
def isBlank (c : Char) : Bool := c == ' ' || c == '\t' || c == '\n' || c == '\r'

/-- The text after its leading blanks. -/
def skipBlanks (cs : Source) : Source := cs.dropWhile fun c => c.any isBlank

/-! ## Strings -/

/-- What a short escape stands for. -/
def shortEscape? : Char → Option Char
  | '"' => some '"'
  | '\\' => some '\\'
  | '/' => some '/'
  | 'b' => some '\x08'
  | 'f' => some '\x0c'
  | 'n' => some '\n'
  | 'r' => some '\r'
  | 't' => some '\t'
  | _ => none

/-- The value of a hexadecimal digit. -/
def hexDigit? (c : Char) : Option Nat :=
  if '0' ≤ c && c ≤ '9' then some (c.toNat - '0'.toNat)
  else if 'a' ≤ c && c ≤ 'f' then some (c.toNat - 'a'.toNat + 10)
  else if 'A' ≤ c && c ≤ 'F' then some (c.toNat - 'A'.toNat + 10)
  else none

/-- The value of four hexadecimal digits, and the rest of the text. -/
def hexUnit? : Source → Option (Nat × Source)
  | some a :: some b :: some c :: some d :: rest => do
    let a ← hexDigit? a
    let b ← hexDigit? b
    let c ← hexDigit? c
    let d ← hexDigit? d
    return (((a * 16 + b) * 16 + c) * 16 + d, rest)
  | _ => none

/-- The first half of a surrogate pair. -/
def isHighHalf (n : Nat) : Bool := 0xD800 ≤ n && n < 0xDC00

/-- The second half of a surrogate pair. -/
def isLowHalf (n : Nat) : Bool := 0xDC00 ≤ n && n < 0xE000

/-- The character written as a surrogate pair. -/
def pairedChar (high low : Nat) : Char :=
  Char.ofNat (0x10000 + (high - 0xD800) * 0x400 + (low - 0xDC00))

/-- One piece of a string: a character, something that is none (half a surrogate pair or a stray
    byte), or the closing quote. -/
inductive Piece where
  | char (c : Char)
  | noChar
  | close
deriving DecidableEq, Repr

/-- The next piece of a string and the rest of the text, unless the text breaks off. -/
def nextPiece? : Source → Option (Piece × Source)
  | [] => none
  | none :: rest => some (.noChar, rest)
  | some '"' :: rest => some (.close, rest)
  | some '\\' :: some 'u' :: rest => do
    let (unit, rest) ← hexUnit? rest
    if isHighHalf unit then
      match rest with
      | some '\\' :: some 'u' :: more =>
        match hexUnit? more with
        | some (low, after) =>
          if isLowHalf low then return (.char (pairedChar unit low), after)
          else return (.noChar, rest)
        | none => return (.noChar, rest)
      | _ => return (.noChar, rest)
    else if isLowHalf unit then return (.noChar, rest)
    else return (.char (Char.ofNat unit), rest)
  | some '\\' :: some c :: rest => (shortEscape? c).map fun e => (.char e, rest)
  | some c :: rest => if c == '\\' || c.toNat < 0x20 then none else some (.char c, rest)

/-- The characters of a string up to its closing quote, or `none` in their place if some piece is no
    character; and the rest of the text. -/
def readChars : Nat → Source → Option (Option (List Char) × Source)
  | 0, _ => none
  | fuel + 1, cs =>
    match nextPiece? cs with
    | none => none
    | some (.close, rest) => some (some [], rest)
    | some (.noChar, rest) => (readChars fuel rest).map fun (_, rest) => (none, rest)
    | some (.char c, rest) =>
      (readChars fuel rest).map fun (read, rest) => (read.map (c :: ·), rest)

/-- The string whose opening quote has been read. -/
def readText? (cs : Source) : Option (Option String × Source) :=
  (readChars (cs.length + 1) cs).map fun (read, rest) => (read.map String.ofList, rest)

/-! ## Numbers -/

/-- An ASCII digit. -/
def isDigit (c : Char) : Bool := '0' ≤ c && c ≤ '9'

/-- A number with one more digit behind its own. -/
def withDigit (n : Nat) (d : Char) : Nat := n * 10 + (d.toNat - '0'.toNat)

/-- The value of a row of ASCII digits. -/
def digitsValue (ds : List Char) : Nat := ds.foldl withDigit 0

/-- A number with more digits behind its own, as long as it fits 64 bits, and the digits that are
    left. -/
def gathered (n : Nat) : List Char → Nat × List Char
  | [] => (n, [])
  | d :: ds =>
    if withDigit n d < 0x10000000000000000 then gathered (withDigit n d) ds else (n, d :: ds)

/-- The digits that stand first, and the rest. -/
def digitRow : Source → List Char × Source
  | some c :: rest =>
    if isDigit c then
      let (ds, rest) := digitRow rest
      (c :: ds, rest)
    else ([], some c :: rest)
  | cs => ([], cs)

/-- A row of at least one digit, and the rest. -/
def digits? (cs : Source) : Option (List Char × Source) :=
  match digitRow cs with
  | ([], _) => none
  | row => some row

/-- The whole part of a number: zero, or digits that do not start with one. -/
def wholeDigits? : Source → Option (List Char × Source)
  | some '0' :: rest => if (digitRow rest).1.isEmpty then some (['0'], rest) else none
  | cs => digits? cs

/-- The digits after the point, if there is a point. -/
def fractionDigits? : Source → Option (Option (List Char) × Source)
  | some '.' :: rest => (digits? rest).map fun (ds, rest) => (some ds, rest)
  | cs => some (none, cs)

/-- The sign of an exponent: whether it is negative, and the rest. -/
def exponentSign : Source → Bool × Source
  | some '+' :: rest => (false, rest)
  | some '-' :: rest => (true, rest)
  | cs => (false, cs)

/-- The exponent, if there is one. -/
def exponent? : Source → Option (Option Int × Source)
  | some c :: rest =>
    if c == 'e' || c == 'E' then
      let (negative, rest) := exponentSign rest
      (digits? rest).map fun (ds, rest) =>
        (some (if negative then -(digitsValue ds : Int) else digitsValue ds), rest)
    else some (none, some c :: rest)
  | cs => some (none, cs)

/-- The float of a decimal, if there is one. -/
def ofDecimal (negative : Bool) (n : Nat) (power : Int) : Doc :=
  match Binary64.ofDecimal? negative n power with
  | some x => .real x
  | none => .unfit

/-- A whole number of at most 64 bits: `int` if it fits them with its sign.  Minus zero is no
    integer. -/
def ofWhole (negative : Bool) (n : Nat) : Doc :=
  if negative then
    if n = 0 || 0x8000000000000000 < n then ofDecimal true n 0 else .int (-(n : Int))
  else .int n

/-- A number whose sign has been read.  Digits of the whole part that are left over each count for a
    power of ten; digits of the fraction that are left over count for nothing. -/
def readUnsigned? (negative : Bool) (cs : Source) : Option (Doc × Source) := do
  let (whole, cs) ← wholeDigits? cs
  let (fraction, cs) ← fractionDigits? cs
  let (exponent, cs) ← exponent? cs
  let (n, left) := gathered 0 whole
  match fraction, exponent, left with
  | none, none, [] => return (ofWhole negative n, cs)
  | _, _, _ =>
    let fraction := fraction.getD []
    let (n, dropped) := gathered n fraction
    let power := exponent.getD 0 + left.length - (fraction.length - dropped.length)
    return (ofDecimal negative n power, cs)

/-- A number. -/
def readNumber? : Source → Option (Doc × Source)
  | some '-' :: rest => readUnsigned? true rest
  | cs => readUnsigned? false cs

/-! ## Values -/

/-- A value that is no container. -/
def readScalar? : Source → Option (Doc × Source)
  | some 'n' :: some 'u' :: some 'l' :: some 'l' :: rest => some (.null, rest)
  | some 't' :: some 'r' :: some 'u' :: some 'e' :: rest => some (.bool true, rest)
  | some 'f' :: some 'a' :: some 'l' :: some 's' :: some 'e' :: rest => some (.bool false, rest)
  | some '"' :: rest =>
    (readText? rest).map fun (read, rest) =>
      (match read with
        | some s => .text s
        | none => .unfit, rest)
  | cs => readNumber? cs

/-- A container inside `depth` others, with the rest of the text behind it.  One that is nested too
    deep fits nothing. -/
def nested (depth : Nat) (doc : Doc) (rest : Option Source) : Doc :=
  if depth < nestingLimit then doc
  else if rest.isSome then .unfit
  else .broken

mutual

/-- The next value, inside `depth` containers.  The fuel bounds the steps; twice the length of the
    text is enough, since between two steps that read nothing there is one that reads. -/
def readValue : Nat → Nat → Source → Doc × Option Source
  | 0, _, _ => (.broken, none)
  | fuel + 1, depth, cs =>
    match skipBlanks cs with
    | some '[' :: rest =>
      let (items, left) := readItems fuel (depth + 1) true rest
      (nested depth (.array items) left, left)
    | some '{' :: rest =>
      let (members, left) := readMembers fuel (depth + 1) true rest
      (nested depth (.object members) left, left)
    | cs =>
      match readScalar? cs with
      | some (doc, rest) => (doc, some rest)
      | none => (.broken, none)

/-- The items up to the closing bracket; `first` before the first one. -/
def readItems : Nat → Nat → Bool → Source → List Doc × Option Source
  | 0, _, _, _ => ([.broken], none)
  | fuel + 1, depth, first, cs =>
    let item (cs : Source) : List Doc × Option Source :=
      match readValue fuel depth cs with
      | (doc, none) => ([doc], none)
      | (doc, some rest) =>
        let (docs, left) := readItems fuel depth false rest
        (doc :: docs, left)
    match skipBlanks cs with
    | some ']' :: rest => ([], some rest)
    | some ',' :: rest => if first then ([.broken], none) else item rest
    | cs => if first then item cs else ([.broken], none)

/-- The members up to the closing brace; `first` before the first one. -/
def readMembers : Nat → Nat → Bool → Source → List (Option String × Doc) × Option Source
  | 0, _, _, _ => ([(none, .broken)], none)
  | fuel + 1, depth, first, cs =>
    let member (cs : Source) : List (Option String × Doc) × Option Source :=
      match cs with
      | some '"' :: rest =>
        match readText? rest with
        | none => ([(none, .broken)], none)
        | some (key, rest) =>
          match skipBlanks rest with
          | some ':' :: rest =>
            match readValue fuel depth rest with
            | (doc, none) => ([(key, doc)], none)
            | (doc, some rest) =>
              let (members, left) := readMembers fuel depth false rest
              ((key, doc) :: members, left)
          | _ => ([(key, .broken)], none)
      | _ => ([(none, .broken)], none)
    match skipBlanks cs with
    | some '}' :: rest => ([], some rest)
    | some ',' :: rest => if first then ([(none, .broken)], none) else member (skipBlanks rest)
    | cs => if first then member cs else ([(none, .broken)], none)

end

/-- The document that a source starts with, and the rest of it unless it breaks off. -/
def read (source : Source) : Doc × Option Source := readValue (2 * source.length + 2) 0 source

/-- Whether nothing but blanks is left. -/
def isFinished : Option Source → Bool
  | some rest => (skipBlanks rest).isEmpty
  | none => false

end QueryCatalog.Doc
