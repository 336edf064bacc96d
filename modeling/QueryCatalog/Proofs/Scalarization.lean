/-
  Scalarizing what is scalarized.

  The statement of a query that can stand for a single value is its body, or its body and a limit of
  one row.  Either way it is trimmed and ends in a limit of one row (`IsScalar`), so in a digit.
  Hence there is nothing to cut off at its end, with a semicolon behind it or without, and the
  limit that is found in it is the one that it ends in: scalarizing it gives it back.

  Nothing is assumed of the text that was stored.  It may have other limits in it, or end in half of one;
  what is put behind it does not join with that, since no limit starts in front of an L.
-/
import QueryCatalog.Proofs.TrailingLimit

namespace QueryCatalog

namespace Statement

/-! ## Bodies of any text -/

/-- What is left of a text that is read backwards starts with no blank. -/
theorem head_openEnd (back : List Char) :
    ∀ c ∈ (openEnd back).head?, Text.isWhiteSpace c = false := by
  have hdrop : ∀ cs : List Char, ∀ c ∈ (Text.dropBlanks cs).head?, Text.isWhiteSpace c = false := by
    intro cs c hc
    have hhead := List.head?_dropWhile_not Text.isWhiteSpace cs
    rw [Text.dropBlanks] at hc
    rw [Option.mem_def.mp hc] at hhead
    exact hhead
  rw [openEnd]
  split
  · exact hdrop _
  · exact hdrop _

/-- The body of a statement has no blanks at its end. -/
theorem isTrimmed_body (sql : String) : Text.IsTrimmed (body sql).toList := by
  intro c hc
  rw [body, String.toList_ofList, List.getLast?_reverse] at hc
  exact head_openEnd _ c hc

/-- A text that ends in neither a blank nor a semicolon is its own body. -/
theorem body_eq_self {s : String} (htrimmed : Text.IsTrimmed s.toList)
    (hend : ∀ c ∈ s.toList.getLast?, c ≠ ';') : body s = s := by
  have hopen : openEnd s.toList.reverse = s.toList.reverse := by
    rw [openEnd, Text.dropBlanks_reverse htrimmed]
    split
    · rename_i rest hback
      rw [← List.head?_reverse, hback] at hend
      exact absurd rfl (hend ';' rfl)
    · rfl
  rw [body, hopen, List.reverse_reverse, String.ofList_toList]

/-- A trimmed text with a limit at its end ends in a digit. -/
theorem LimitShaped.last_digit {cs : List Char} (h : LimitShaped cs) (htrimmed : Text.IsTrimmed cs) :
    ∀ c ∈ cs.getLast?, Text.isDecimalDigit c = true := by
  obtain ⟨front, t, blanks, digits, trailing, rfl, -, -, hdigits, htrailing⟩ := h
  intro c hc
  rcases List.eq_nil_or_concat trailing with rfl | ⟨bs, b, rfl⟩
  · obtain ⟨ds, d, rfl⟩ := (List.eq_nil_or_concat digits).resolve_left hdigits.ne_nil
    have hlast : front ++ t :: (blanks ++ (ds.concat d ++ [])) =
        (front ++ t :: (blanks ++ ds)) ++ [d] := by
      simp
    rw [hlast, List.getLast?_concat] at hc
    have heq : d = c := Option.some.inj hc
    exact heq ▸ hdigits.all d (by simp)
  · -- a blank at the end would have been trimmed off
    have hlast : front ++ t :: (blanks ++ (digits ++ bs.concat b)) =
        (front ++ t :: (blanks ++ (digits ++ bs))) ++ [b] := by
      simp
    rw [hlast] at htrimmed
    have hb : Text.isWhiteSpace b = false := htrimmed b List.getLast?_concat
    rw [htrailing b (by simp)] at hb
    cases hb

/-! ## Texts that are limited to one row -/

/-- The text is trimmed and ends in a limit of one row. -/
structure IsScalar (s : String) : Prop where
  trimmed : Text.IsTrimmed s.toList
  limit : ∃ rows, trailingLimit? s.toList = some rows ∧ isOne rows = true

/-- Behind whatever text, a limit of one row is a limit of its own. -/
theorem trailingLimit?_append_one (front : List Char) :
    trailingLimit? (front ++ " LIMIT 1".toList) = some ['1'] := by
  have hpart := isPart_written "LIMIT" (w := "limit".toList) (by decide) 1
  have htail : LimitTail [] := .blank fun _ h => absurd h List.not_mem_nil
  refine limitFrom?_iff.mpr ⟨front ++ [' '], _, [], ?_, ?_, hpart, htail⟩
  · rw [List.append_nil, List.append_assoc]
    rfl
  · intro c hc
    rw [List.getLast?_concat] at hc
    cases hc
    decide

/-- Whatever gets a limit of one row has one. -/
theorem isScalar_append_one (s : String) : IsScalar (s ++ " LIMIT 1") where
  trimmed := by
    intro c hc
    have hlast : (s ++ " LIMIT 1").toList = (s.toList ++ " LIMIT ".toList) ++ ['1'] := by
      rw [String.toList_append, List.append_assoc]
      rfl
    rw [hlast, List.getLast?_concat] at hc
    cases hc
    decide
  limit := ⟨['1'], by rw [String.toList_append]; exact trailingLimit?_append_one _, by decide⟩

namespace IsScalar

variable {s : String} (h : IsScalar s)
include h

/-- A text that is limited to one row is its own body. -/
theorem body_eq : body s = s := by
  refine body_eq_self h.trimmed fun c hc => ?_
  obtain ⟨rows, hrows, -⟩ := h.limit
  have hdigit := (limitShaped_of_trailingLimit? hrows).last_digit h.trimmed c hc
  rintro rfl
  exact absurd hdigit (by decide)

/-- A query of one column with this text for its body is scalarized to it. -/
theorem scalar_eq {q : QueryBody} (hcount : q.columnCount = 1) (hbody : q.statement = s) :
    q.scalar = .ok s := by
  obtain ⟨rows, hrows, hone⟩ := h.limit
  rw [QueryBody.scalar, if_neg (not_not_intro hcount), hbody, hrows]
  show (if isOne rows then Except.ok s else _) = _
  rw [if_pos hone]

end IsScalar

end Statement

namespace QueryBody

/-- A query that is scalarized has one column, and the text ends in a limit of one row. -/
theorem scalar_isScalar {q : QueryBody} {s : String} (h : q.scalar = .ok s) :
    q.columnCount = 1 ∧ Statement.IsScalar s := by
  have hcount := columnCount_of_scalar h
  refine ⟨hcount, ?_⟩
  rw [scalar, if_neg (not_not_intro hcount)] at h
  split at h
  · rename_i rows hrows
    split at h
    · rename_i hone
      cases h
      exact ⟨Statement.isTrimmed_body q.sql, rows, hrows, hone⟩
    · cases h
  · cases h
    exact Statement.isScalar_append_one _

/-- **Scalarizing is idempotent.**  Whatever text a query is stored with, if it can stand for a single
    value then its statement is its body with a limit of one row or without; that is its own body, also
    with a semicolon behind it; it ends in a limit whose row count is found, is written in ASCII digits
    and is worth one; and stored in place of the text, it is scalarized to itself. -/
theorem scalar_idempotent (q : QueryBody) (s : String) (h : q.scalar = .ok s) :
    (s = q.statement ∨ s = q.statement ++ " LIMIT 1") ∧
    (Statement.body s = s ∧ Statement.body (s ++ ";") = s) ∧
    (∃ rows, Statement.EndsLimited none s.toList rows ∧ Statement.trailingLimit? s.toList = some rows ∧
      (∀ c ∈ rows, c.isDigit = true) ∧ Nat.ofDigitChars 10 rows 0 = 1) ∧
    ({ q with sql := s } : QueryBody).scalar = .ok s ∧
    ({ q with sql := s ++ ";" } : QueryBody).scalar = .ok s := by
  obtain ⟨hcount, hscalar⟩ := scalar_isScalar h
  have hterminated := Statement.body_terminated hscalar.trimmed
  refine ⟨scalar_ok h, ⟨hscalar.body_eq, hterminated⟩, ?_, ?_, ?_⟩
  · obtain ⟨rows, hrows, hone⟩ := hscalar.limit
    obtain ⟨hdigits, hvalue⟩ := Statement.isOne_iff.mp hone
    exact ⟨rows, Statement.limitFrom?_iff.mp hrows, hrows, hdigits, hvalue⟩
  · exact hscalar.scalar_eq hcount hscalar.body_eq
  · exact hscalar.scalar_eq hcount hterminated

/-- A text with a limit in its middle, half a limit at its end, and two semicolons. -/
def crowded : QueryBody := ⟨1, "crowded", "SELECT 7 LIMIT 1; LIMIT 2 OFFSET ; ; ", 1⟩

/-- Both semicolons are gone and a limit is added, and nothing more happens when it is done again. -/
theorem scalar_idempotent_crowded :
    let s := "SELECT 7 LIMIT 1; LIMIT 2 OFFSET ; LIMIT 1"
    crowded.scalar = .ok s ∧ Statement.body (s ++ ";") = s ∧
      ({ crowded with sql := s } : QueryBody).scalar = .ok s ∧
      ({ crowded with sql := s ++ ";" } : QueryBody).scalar = .ok s := by
  intro s
  have hscalar : crowded.scalar = .ok s := eq_ok_of_toOption (by decide +kernel)
  obtain ⟨-, ⟨-, hbody⟩, -, hagain, hterminated⟩ := scalar_idempotent crowded s hscalar
  exact ⟨hscalar, hbody, hagain, hterminated⟩

end QueryBody

end QueryCatalog
