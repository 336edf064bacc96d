/-
  Finite binary floating-point numbers of 64 bits, read from decimals.

  A number is a sign, a mantissa `m` and an exponent `q`, of value `± m · 2^q`.  Mantissas have at
  most 53 bits and exponents run from -1074 to 971; a number with `q > -1074` has exactly 53 bits.
  Rounding gives the nearest such number, of two equally near ones the one with the even mantissa.

  A decimal `± n · 10^k` is read by arithmetic on these numbers and not in one step: `n` is rounded,
  the power of ten is rounded, and their product or quotient is rounded once more.  With few digits
  and a small power all but the last are exact and the result is the nearest number; with more it
  may be a neighbour of that.  All of it is computed on natural numbers.
-/

namespace QueryCatalog

/-- A finite 64-bit binary floating-point number of value `± mantissa · 2^exponent`. -/
structure Binary64 where
  negative : Bool
  mantissa : Nat
  exponent : Int
deriving DecidableEq, Repr, Inhabited

namespace Binary64

/-- The least exponent. -/
def minExponent : Int := -1074

/-- The greatest exponent. -/
def maxExponent : Int := 971

/-- Mantissas are below this bound: 2^53. -/
def mantissaBound : Nat := 0x20000000000000

/-- Zero, with its sign. -/
def zero (negative : Bool) : Binary64 := ⟨negative, 0, minExponent⟩

/-- The whole number nearest to `num / den`; of two equally near ones the even one. -/
def nearest (num den : Nat) : Nat :=
  let floor := num / den
  let twice := 2 * (num % den)
  if den < twice || (twice == den && floor % 2 == 1) then floor + 1 else floor

/-- `num / den` divided by `2^q`, as a numerator and a denominator. -/
def scaled (num den : Nat) (q : Int) : Nat × Nat :=
  if 0 ≤ q then (num, den * Nat.pow 2 q.toNat) else (num * Nat.pow 2 (-q).toNat, den)

/-- The exponent under which the whole part of `num / den / 2^q` has 53 bits, or the least one. -/
def exponentFor (num den : Nat) : Int :=
  let q : Int := (num.log2 : Int) - (den.log2 : Int) - 53
  let (n, d) := scaled num den q
  max minExponent (if mantissaBound ≤ n / d then q + 1 else q)

/-- The number nearest to `± num / den`, unless that lies beyond the greatest number. -/
def ofRatio? (negative : Bool) (num den : Nat) : Option Binary64 :=
  if num = 0 then some (zero negative)
  else
    let q := exponentFor num den
    let (n, d) := scaled num den q
    let m := nearest n d
    let (m, q) := if m = mantissaBound then (m / 2, q + 1) else (m, q)
    if maxExponent < q then none else some ⟨negative, m, q⟩

/-- The absolute value, as a numerator and a denominator. -/
def ratio (x : Binary64) : Nat × Nat := scaled x.mantissa 1 (-x.exponent)

/-- The product of two numbers, rounded, unless that lies beyond the greatest number. -/
def times? (x y : Binary64) : Option Binary64 :=
  ofRatio? (x.negative != y.negative) (x.ratio.1 * y.ratio.1) (x.ratio.2 * y.ratio.2)

/-- The quotient of two numbers, rounded, unless that lies beyond the greatest number. -/
def over? (x y : Binary64) : Option Binary64 :=
  ofRatio? (x.negative != y.negative) (x.ratio.1 * y.ratio.2) (x.ratio.2 * y.ratio.1)

/-- The greatest power of ten that is not beyond the greatest number. -/
def greatestTen : Nat := 308

/-- A power of ten, rounded, up to the greatest. -/
def tenPower? (k : Nat) : Option Binary64 :=
  if k ≤ greatestTen then ofRatio? false (Nat.pow 10 k) 1 else none

/-- The decimal `± n · 10^power` with an `n` of at most 64 bits, unless it lies beyond the greatest
    number.  What is too small for one power of ten is divided by two of them, and what is too small
    for two is zero. -/
def ofDecimal? (negative : Bool) (n : Nat) (power : Int) : Option Binary64 :=
  if n = 0 then some (zero negative)
  else do
    let x ← ofRatio? negative n 1
    if 0 ≤ power then
      x.times? (← tenPower? power.toNat)
    else if -greatestTen ≤ power then
      x.over? (← tenPower? (-power).toNat)
    else if -(2 * greatestTen) ≤ power then
      let x ← x.over? (← tenPower? greatestTen)
      x.over? (← tenPower? (-power - greatestTen).toNat)
    else
      some (zero negative)

/-- The number nearest to a whole number. -/
def ofInt? (i : Int) : Option Binary64 := ofRatio? (i < 0) i.natAbs 1

end Binary64

end QueryCatalog
