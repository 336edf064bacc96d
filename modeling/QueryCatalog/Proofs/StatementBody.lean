/-
  Statements and their bodies.

  A compiled statement is a text without blanks at its end, and a semicolon.  Its body is that text
  (`body_terminated`), so embedding a stored query drops the semicolon and nothing else.
-/
import QueryCatalog.Sql.Query

namespace QueryCatalog

/-! ## Trimming -/

namespace Text

/-- A text that ends in no blank. -/
def IsTrimmed (cs : List Char) : Prop := ∀ c ∈ cs.getLast?, isWhiteSpace c = false

/-- Trimming cuts off blanks, and leaves none at the end. -/
theorem dropEndBlanks_spec (cs : List Char) :
    IsTrimmed (dropEndBlanks cs) ∧
      ∃ blanks, cs = dropEndBlanks cs ++ blanks ∧ ∀ c ∈ blanks, isWhiteSpace c = true := by
  constructor
  · intro c hc
    rw [dropEndBlanks, dropBlanks, List.getLast?_reverse] at hc
    have hhead := List.head?_dropWhile_not isWhiteSpace cs.reverse
    rw [Option.mem_def.mp hc] at hhead
    exact hhead
  · refine ⟨(cs.reverse.takeWhile isWhiteSpace).reverse, ?_, ?_⟩
    · rw [dropEndBlanks, dropBlanks, ← List.reverse_append, List.takeWhile_append_dropWhile,
        List.reverse_reverse]
    · intro c hc
      exact List.all_eq_true.mp List.all_takeWhile c (List.mem_reverse.mp hc)

/-- Behind a text without blanks at its end, read backwards, no blank is dropped. -/
theorem dropBlanks_reverse {cs : List Char} (h : IsTrimmed cs) :
    dropBlanks cs.reverse = cs.reverse := by
  rw [IsTrimmed, ← List.head?_reverse] at h
  cases hcs : cs.reverse with
  | nil => rfl
  | cons c rest =>
    rw [hcs] at h
    exact List.dropWhile_cons_of_neg (by simp [h c rfl])

theorem dropEndBlanks_eq {cs : List Char} (h : IsTrimmed cs) : dropEndBlanks cs = cs := by
  rw [dropEndBlanks, dropBlanks_reverse h, List.reverse_reverse]

end Text

/-! ## Bodies -/

namespace Statement

/-- The body of a statement is what stands in front of its semicolon. -/
theorem body_terminated {s : String} (h : Text.IsTrimmed s.toList) : body (s ++ ";") = s := by
  have hback : (s ++ ";").toList.reverse = ';' :: s.toList.reverse := by
    rw [String.toList_append, List.reverse_append]
    rfl
  have hopen : openEnd (';' :: s.toList.reverse) = Text.dropBlanks s.toList.reverse := rfl
  rw [body, hback, hopen, Text.dropBlanks_reverse h, List.reverse_reverse, String.ofList_toList]

end Statement

/-- A query as a single value is its statement, with a limit or without. -/
theorem QueryBody.scalar_ok {q : QueryBody} {sql : String} (h : q.scalar = .ok sql) :
    sql = q.statement ∨ sql = q.statement ++ " LIMIT 1" := by
  simp only [scalar] at h
  split at h
  · cases h
  · split at h
    · split at h
      · cases h
        exact .inl rfl
      · cases h
    · cases h
      exact .inr rfl

namespace Sql.Query

/-- The statement without its semicolon. -/
def unterminated (q : Query) : String :=
  Text.trimEnd (Text.joined " " (q.clauses.filter fun clause => !clause.isEmpty))

/-- A statement has no blanks in front of its semicolon. -/
theorem isTrimmed_unterminated (q : Query) : Text.IsTrimmed q.unterminated.toList := by
  rw [unterminated, Text.trimEnd, String.toList_ofList]
  exact (Text.dropEndBlanks_spec _).1

/-- A compiled query that is stored has the clauses for its statement. -/
theorem statement_compiled (q : Query) (owner : Owner) (name : String) (columnCount : Int64) :
    (⟨owner, name, q.compiled.sql, columnCount⟩ : QueryBody).statement = q.unterminated :=
  Statement.body_terminated q.isTrimmed_unterminated

end Sql.Query

end QueryCatalog
