/-
  Numbers as they are written: a row of digits, perhaps with a point in it, perhaps behind a sign.

  This holds of natural numbers, of integers, and of floating-point numbers of any size, which are
  written positionally (`isNumeral_text`).
-/
import QueryCatalog.Number.Shortest

namespace QueryCatalog.Text

/-- The characters of a number without its sign. -/
def isFigure (c : Char) : Bool := c.isDigit || c == '.'

/-- A row of figures, with a sign or without. -/
def IsNumeral (s : String) : Prop :=
  ∃ figures : List Char, figures ≠ [] ∧ (∀ c ∈ figures, isFigure c = true) ∧
    (s.toList = figures ∨ s.toList = '-' :: figures)

/-- The digits of a number are figures. -/
theorem isFigure_of_mem_toDigits {n : Nat} {c : Char} (h : c ∈ Nat.toDigits 10 n) :
    isFigure c = true := by
  simp [isFigure, Nat.isDigit_of_mem_toDigits (by omega) (Nat.le_refl 10) h]

theorem toList_toString_nat (n : Nat) : (toString n).toList = Nat.toDigits 10 n := by
  rw [Nat.toString_eq_ofList_toDigits, String.toList_ofList]

/-- Natural numbers are written as numerals. -/
theorem isNumeral_toString_nat (n : Nat) : IsNumeral (toString n) :=
  ⟨Nat.toDigits 10 n, Nat.toDigits_ne_nil, fun _ => isFigure_of_mem_toDigits,
    .inl (toList_toString_nat n)⟩

/-- So are integers, with a sign in front if they are negative. -/
theorem isNumeral_toString_int (i : Int) : IsNumeral (toString i) := by
  rw [Int.toString_eq_repr, Int.repr_eq_if]
  split
  · exact isNumeral_toString_nat i.toNat
  · refine ⟨Nat.toDigits 10 (-i).toNat, Nat.toDigits_ne_nil, fun _ => isFigure_of_mem_toDigits, .inr ?_⟩
    rw [String.toList_append, Nat.toList_repr]
    rfl

/-- A decimal is written in figures. -/
theorem figures_text (d : Decimal) :
    d.text.toList ≠ [] ∧ ∀ c ∈ d.text.toList, isFigure c = true := by
  have hzeros : ∀ n, ∀ c ∈ List.replicate n '0', isFigure c = true := by
    intro n c hc
    rw [List.eq_of_mem_replicate hc]
    rfl
  have hdigits : ∀ c ∈ Nat.toDigits 10 d.digits, isFigure c = true :=
    fun _ => isFigure_of_mem_toDigits
  -- zeros at the end, a point inside, or zeros in front
  simp only [Decimal.text]
  split
  · rw [String.toList_ofList]
    exact ⟨by simp [Nat.toDigits_ne_nil], List.forall_mem_append.mpr ⟨hdigits, hzeros _⟩⟩
  · split
    · rw [String.toList_ofList]
      refine ⟨by simp, List.forall_mem_append.mpr ⟨fun c hc => hdigits c (List.mem_of_mem_take hc), ?_⟩⟩
      exact List.forall_mem_cons.mpr ⟨rfl, fun c hc => hdigits c (List.mem_of_mem_drop hc)⟩
    · rw [String.toList_ofList]
      refine ⟨by simp, List.forall_mem_cons.mpr ⟨rfl, List.forall_mem_cons.mpr ⟨rfl, ?_⟩⟩⟩
      exact List.forall_mem_append.mpr ⟨hzeros _, hdigits⟩

/-- So are floating-point numbers, by their shortest digits. -/
theorem isNumeral_text (x : Binary64) : IsNumeral x.text := by
  obtain ⟨hne, hfigures⟩ := figures_text x.shortest
  refine ⟨x.shortest.text.toList, hne, hfigures, ?_⟩
  rw [Binary64.text, String.toList_append]
  cases x.negative with
  | true => exact .inr rfl
  | false => exact .inl rfl

end QueryCatalog.Text
