/-
  Id sequences: 1, 2, 3, … up to 2^64 - 1.

  A sequence remembers the last number it gave or was moved to, and only moves forward.  When the
  greatest number has been given there is no next one.
-/

namespace QueryCatalog

/-- The last number of a sequence, if there is one. -/
structure IdSequence where
  current : Option UInt64
deriving DecidableEq, Repr, Inhabited

/-- An attempt to move a sequence back. -/
structure MovedBack where
  current : UInt64
  target : UInt64
deriving DecidableEq, Repr, Inhabited

/-- The text of the failure. -/
def MovedBack.message (e : MovedBack) : String :=
  "Cannot move id sequence back from " ++ toString e.current.toNat ++ " to " ++
    toString e.target.toNat

namespace IdSequence

/-- The greatest number. -/
def greatest : UInt64 := 18446744073709551615

/-- A sequence from which nothing has been taken. -/
def fresh : IdSequence := ⟨none⟩

/-- The next number, if there is one, and the sequence behind it. -/
def next (s : IdSequence) : Option UInt64 × IdSequence :=
  match s.current with
  | none => (some 1, ⟨some 1⟩)
  | some n => if n = greatest then (none, s) else (some (n + 1), ⟨some (n + 1)⟩)

/-- The sequence moved forward, so that the next number is greater than `target`. -/
def moveTo (s : IdSequence) (target : UInt64) : Except MovedBack IdSequence :=
  match s.current with
  | some n => if target < n then .error ⟨n, target⟩ else .ok ⟨some target⟩
  | none => .ok ⟨some target⟩

end IdSequence

end QueryCatalog
