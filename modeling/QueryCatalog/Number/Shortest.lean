/-
  The shortest decimal that reads back.

  Every number owns an interval of reals that round to it; its ends belong to it when the mantissa
  is even.  For one digit, two digits, and so on, the two neighbours of the number on that decimal
  grid are tried.  The first grid with a neighbour inside the interval wins; of two neighbours
  inside, the nearer one, and the upper one on a tie.  Seventeen digits always suffice.

  Decimals are written positionally, however large or small, without a point when they are whole.
-/
import QueryCatalog.Number.Binary64

namespace QueryCatalog

/-- A decimal of value `digits · 10^power`. -/
structure Decimal where
  digits : Nat
  power : Int
deriving DecidableEq, Repr, Inhabited

namespace Decimal

/-- The decimal in positional notation. -/
def text (d : Decimal) : String :=
  let ds := Nat.toDigits 10 d.digits
  if 0 ≤ d.power then String.ofList (ds ++ List.replicate d.power.toNat '0')
  else
    let places := (-d.power).toNat
    if places < ds.length then
      String.ofList (ds.take (ds.length - places) ++ '.' :: ds.drop (ds.length - places))
    else String.ofList ('0' :: '.' :: (List.replicate (places - ds.length) '0' ++ ds))

end Decimal

namespace Binary64

/-- The value and the ends of its interval, over one denominator. -/
structure Interval where
  low : Nat
  value : Nat
  high : Nat
  den : Nat
  closed : Bool

/-- The reals that round to `m · 2^q`.  The lower gap is half as wide where the numbers below are
    twice as dense. -/
def interval (m : Nat) (q : Int) : Interval :=
  let below := if m = mantissaBound / 2 ∧ minExponent < q then 1 else 2
  let unit := Nat.pow 2 (q - 2).toNat
  { low := (4 * m - below) * unit
    value := 4 * m * unit
    high := (4 * m + 2) * unit
    den := Nat.pow 2 (2 - q).toNat
    closed := m % 2 = 0 }

/-- Whether `n · 10^power` lies in the interval. -/
def Interval.contains (i : Interval) (n : Nat) (power : Int) : Bool :=
  let point := n * Nat.pow 10 power.toNat * i.den
  let scale := Nat.pow 10 (-power).toNat
  if i.closed then i.low * scale ≤ point && point ≤ i.high * scale
  else i.low * scale < point && point < i.high * scale

/-- The number of decimal digits before the point; zero or less for a value below one. -/
def Interval.wholeDigits (i : Interval) : Int :=
  if i.den ≤ i.value then (Nat.toDigits 10 (i.value / i.den)).length
  else
    Int.neg (((List.range 400).find? fun k => i.den ≤ i.value * Nat.pow 10 (k + 1)).getD 0 : Nat)

/-- The nearest point of the interval on the grid of steps `10^power`, the upper one on a tie. -/
def Interval.onGrid? (i : Interval) (power : Int) : Option Nat :=
  let num := i.value * Nat.pow 10 (-power).toNat
  let den := i.den * Nat.pow 10 power.toNat
  let floor := num / den
  match i.contains floor power, i.contains (floor + 1) power with
  | true, true => some (if den ≤ 2 * (num % den) then floor + 1 else floor)
  | true, false => some floor
  | false, true => some (floor + 1)
  | false, false => none

/-- The shortest decimal in the interval, on the grids of 1 to 17 digits. -/
def Interval.shortest (i : Interval) : Decimal :=
  let whole := i.wholeDigits
  let found := (List.range 17).findSome? fun k =>
    let power := whole - (k + 1 : Nat)
    (i.onGrid? power).map fun n =>
      if n = Nat.pow 10 (k + 1) then Decimal.mk 1 (power + (k + 1 : Nat)) else Decimal.mk n power
  found.getD ⟨i.value / i.den, 0⟩

/-- The shortest decimal that reads back as the number's absolute value. -/
def shortest (x : Binary64) : Decimal :=
  if x.mantissa = 0 then ⟨0, 0⟩ else (interval x.mantissa x.exponent).shortest

/-- The number in positional decimal notation; the sign of a zero is kept. -/
def text (x : Binary64) : String :=
  (if x.negative then "-" else "") ++ x.shortest.text

end Binary64

end QueryCatalog
