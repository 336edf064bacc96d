/-
  Recognising date-times.

  A date-time is a date `year-month-day`, a `T` or a blank, a time `hour:minute:second` with an
  optional fraction, and the offset from universal time: `Z`, `UTC` or `±hh:mm`.  Blanks may stand in
  front of each number and separator, numbers may have fewer digits than usual, and a year of more
  than four digits carries a sign.  The date has to exist, a minute may have a leap second, and the
  offset is less than a day.  In universal time, too, the date has to lie in the calendar, which has a
  first and a last day.
-/
import QueryCatalog.Text.CharacterClass

namespace QueryCatalog.DateTime

/-- An ASCII digit. -/
def isDigit (c : Char) : Bool := '0' ≤ c && c ≤ '9'

/-- The value of a row of ASCII digits. -/
def value (ds : List Char) : Nat := ds.foldl (fun n d => n * 10 + (d.toNat - '0'.toNat)) 0

/-- A number of one to `width` digits behind blanks, and the rest. -/
def number? (width : Nat) (cs : List Char) : Option (Nat × List Char) :=
  let cs := Text.dropBlanks cs
  match (cs.take width).takeWhile isDigit with
  | [] => none
  | ds => some (value ds, cs.drop ds.length)

/-- A number of any length directly in front, and the rest. -/
def longNumber? (cs : List Char) : Option (Nat × List Char) :=
  match cs.takeWhile isDigit with
  | [] => none
  | ds => some (value ds, cs.drop ds.length)

/-- A year: up to four digits, or a sign and any number of digits. -/
def year? (cs : List Char) : Option (Int × List Char) :=
  match Text.dropBlanks cs with
  | '-' :: rest => (longNumber? rest).map fun (n, rest) => (-(n : Int), rest)
  | '+' :: rest => (longNumber? rest).map fun (n, rest) => ((n : Int), rest)
  | cs => (number? 4 cs).map fun (n, rest) => ((n : Int), rest)

/-- What stands behind a separator that may follow blanks. -/
def after? (separator : Char) (cs : List Char) : Option (List Char) :=
  match Text.dropBlanks cs with
  | c :: rest => if c = separator then some rest else none
  | [] => none

/-- The leap years of the Gregorian calendar. -/
def isLeap (year : Int) : Bool := year % 4 == 0 && (year % 100 != 0 || year % 400 == 0)

/-- The number of days of a month; none for a month that does not exist. -/
def daysIn (year : Int) (month : Nat) : Nat :=
  match month with
  | 1 | 3 | 5 | 7 | 8 | 10 | 12 => 31
  | 4 | 6 | 9 | 11 => 30
  | 2 => if isLeap year then 29 else 28
  | _ => 0

/-- A date of the calendar. -/
structure Date where
  year : Int
  month : Nat
  day : Nat
deriving DecidableEq, Repr, Inhabited

/-- The first date of the calendar. -/
def firstDate : Date := ⟨-262143, 1, 1⟩

/-- The last date of the calendar. -/
def lastDate : Date := ⟨262142, 12, 31⟩

/-- A date that exists, and the rest. -/
def date? (cs : List Char) : Option (Date × List Char) := do
  let (year, cs) ← year? cs
  let cs ← after? '-' cs
  let (month, cs) ← number? 2 cs
  let cs ← after? '-' cs
  let (day, cs) ← number? 2 cs
  if firstDate.year ≤ year ∧ year ≤ lastDate.year ∧ 1 ≤ day ∧ day ≤ daysIn year month then
    some (⟨year, month, day⟩, cs)
  else none

/-- What stands behind a fraction, if there is one; it has at least one digit. -/
def afterFraction? : List Char → Option (List Char)
  | '.' :: rest => (longNumber? rest).map Prod.snd
  | cs => some cs

/-- The minute of the day in which a time of day lies, and the rest.  A leap second belongs to the
    minute in front of it. -/
def minute? (cs : List Char) : Option (Nat × List Char) := do
  let (hour, cs) ← number? 2 cs
  let cs ← after? ':' cs
  let (minute, cs) ← number? 2 cs
  let cs ← after? ':' cs
  let (second, cs) ← number? 2 cs
  let cs ← afterFraction? cs
  if hour ≤ 23 ∧ minute ≤ 59 ∧ second ≤ 60 then some (hour * 60 + minute, Text.dropBlanks cs)
  else none

/-- Two digits directly in front, and the rest. -/
def twoDigits? : List Char → Option (Nat × List Char)
  | a :: b :: rest => if isDigit a && isDigit b then some (value [a, b], rest) else none
  | _ => none

/-- The hours and minutes of an offset, in minutes, and the rest; colons and blanks may divide
    them. -/
def clock? (cs : List Char) : Option (Nat × List Char) := do
  let (hours, cs) ← twoDigits? cs
  let cs := cs.dropWhile fun c => c == ':' || Text.isWhiteSpace c
  let (minutes, cs) ← twoDigits? cs
  if hours ≤ 23 ∧ minutes ≤ 59 then some (hours * 60 + minutes, cs) else none

/-- An offset from universal time in minutes, and the rest. -/
def offset? : List Char → Option (Int × List Char)
  | [] => none
  | c :: rest =>
    if ((c :: rest).take 3).map Char.toLower == ['u', 't', 'c'] then some (0, rest.drop 2)
    else if c == 'Z' || c == 'z' then some (0, rest)
    else if c == '+' then (clock? rest).map fun (minutes, rest) => ((minutes : Int), rest)
    else if c == '-' || c.toNat == 0x2212 then
      (clock? rest).map fun (minutes, rest) => (-(minutes : Int), rest)
    else none

/-- What stands behind the mark between date and time. -/
def afterMark? : List Char → Option (List Char)
  | c :: rest => if c == 'T' || c == 't' || c == ' ' then some rest else none
  | [] => none

/-- The minutes of a day. -/
def minutesPerDay : Int := 24 * 60

/-- Whether a time that lies `minute` minutes after the start of a date is in the calendar; it may
    lie on the day before or the day after. -/
def isInCalendar (date : Date) (minute : Int) : Bool :=
  if minute < 0 then date != firstDate
  else if minutesPerDay ≤ minute then date != lastDate
  else true

/-- Whether a text is a date-time. -/
def isDateTime (s : String) : Bool :=
  (do
    let (date, cs) ← date? s.toList
    let cs ← afterMark? cs
    let (minute, cs) ← minute? cs
    let (offset, cs) ← offset? cs
    return (Text.dropBlanks cs).isEmpty && isInCalendar date (minute - offset) : Option Bool).getD
    false

end QueryCatalog.DateTime
