/-
  No name, literal or alias breaks out of a compiled statement.

  Texts of owners enter a statement in three ways: as literals and quoted names, by alias targets, and
  by the statements of stored queries.  The first are quoted.  The others are pasted as they are, so
  they need an invariant over the whole history, and it has to hold of entities that are gone from
  the store too, since the cache may still serve them: being a fragment is a law of entities
  (`embeddingLaw`), and with it `compile_contained` is what the scan of one statement says.
-/
import QueryCatalog.Proofs.History
import QueryCatalog.Proofs.RenderedText

namespace QueryCatalog

namespace Statement

/-! ## Terminated statements -/

/-- A semicolon completes no pair that starts a comment. -/
theorem not_pair_infix_terminated {a b : Char} (hb : b ≠ ';') {cs : List Char}
    (h : ¬ [a, b] <:+: cs) : ¬ [a, b] <:+: cs ++ [';'] := by
  rw [List.infix_concat_iff, List.suffix_concat_iff]
  rintro ((hnil | ⟨front, heq, -⟩) | hbehind)
  · cases hnil
  · have hlast := congrArg List.getLast? heq
    rw [List.getLast?_concat] at hlast
    exact hb (Option.some.inj hlast)
  · exact h hbehind

/-- A text that can be embedded is contained once it is terminated. -/
theorem Enclosable.contained {s : String} (h : Enclosable s) : Contained (s ++ ";") := by
  obtain ⟨p, hrun⟩ := h 0
  obtain ⟨hregion, hdepth, hterm, hhash, hline, hblock⟩ := Guard.run_sound hrun
  simp only [Guard.clean, Pending.chars, List.nil_append] at hregion hdepth hterm hhash hline hblock
  have hlist : (s ++ ";").toList = s.toList ++ [';'] := String.toList_append
  have hcode : code .outside (s ++ ";").toList = code .outside s.toList ++ [';'] := by
    rw [hlist, code_append, hregion]
    rfl
  -- all of it is said by the guard of what stands in front of the semicolon
  refine ⟨?_, ?_, ?_, ?_, ?_, ?_, ?_⟩
  · rw [hlist, regionAfter_append, hregion]
    rfl
  · rw [hcode, depthAfter_append, hdepth]
    rfl
  · rw [hcode, List.count_append, List.count_eq_zero.mpr hterm]
    rfl
  · rw [hlist, List.getLast?_concat]
  · rw [hcode]
    exact not_pair_infix_terminated (by decide) hline
  · rw [hcode]
    exact not_pair_infix_terminated (by decide) hblock
  · rw [hcode, List.mem_append, not_or]
    exact ⟨hhash, by decide⟩

/-! ## The law -/

/-- Every alias target is a fragment, and every statement of a stored query can be embedded. -/
def embeddingLaw (access : TableAccess) : EntityLaw access where
  aliased body := Fragment body.target
  query body := Enclosable body.statement
  ofBuilt h := by
    cases h with
    | table _ => exact fragment_quotedName _
    | expr huses _ => exact fragment_expr ⟨id, id⟩ _ huses
    | cond huses _ => exact fragment_cond ⟨id, id⟩ _ huses
  ofQuery {_ _ q} h := by
    rw [q.statement_compiled]
    exact enclosable_unterminated ⟨id, id⟩ h

end Statement

/-- **Injection containment.**  Whatever was created, fetched and deleted before, by whomever and over
    whatever schema, a compiled statement is contained. -/
theorem Catalog.compile_contained (settings : Settings) (schema : Schema) (steps : List Step)
    (owner : Owner) (input : Input.Query) (compiled : Sql.Compiled)
    (hcompile : ((compile owner input).run ((fresh settings schema .empty).run steps)).1 =
      .ok compiled) : Statement.Contained compiled.sql := by
  obtain ⟨past, hcoherent⟩ := run_coherent settings schema steps
  obtain ⟨q, huses, -, rfl⟩ := hcoherent.compile_ok hcompile (Statement.embeddingLaw _)
  exact (Statement.enclosable_unterminated ⟨id, id⟩ huses).contained

/-! ## A hostile schema -/

/-- A table and a column whose names try to leave their quotes. -/
def hostileSchema : Schema := .ofTables [.ofColumns "a`b; --" [("c'", "int")]]

/-- An owner names the table, the column, and a text that tries the same. -/
def hostileSteps : List Step :=
  [ .request 1 (.createAlias ⟨"t", .expr (.table "a`b; --")⟩),
    .request 1 (.createAlias ⟨"v", .expr (.column "a`b; --" "c'")⟩),
    .request 1 (.createAlias ⟨"x", .expr (.literal (.text "'); DROP TABLE `t`; #"))⟩) ]

/-- Selects the column where it is the text. -/
def hostileQuery : Input.Query where
  select := ⟨.list [.aliased (.name "v")], .aliased (.name "t"), none⟩
  filter := some (.comparison (.aliased (.id 2)) "=" (.aliased (.name "x")))
  groups := none
  having := none
  order := none
  limit := some ⟨1, 0⟩

/-- The statement that it is compiled to. -/
def hostileStatement : String :=
  "SELECT `a``b; --`.`c'` AS `v` FROM `a``b; --` " ++
    "WHERE (`a``b; --`.`c'` = '''); DROP TABLE `t`; #') LIMIT 1 OFFSET 0;"

/-- Names and texts full of quotes, comments and semicolons stay where they are put. -/
theorem Catalog.compile_contained_hostile :
    ((compile 1 hostileQuery).run
      ((fresh .standard hostileSchema .empty).run hostileSteps)).1 = .ok ⟨hostileStatement, 1⟩ ∧
    Statement.Contained hostileStatement := by
  have hrun : ((compile 1 hostileQuery).run
      ((fresh .standard hostileSchema .empty).run hostileSteps)).1 = .ok ⟨hostileStatement, 1⟩ :=
    eq_ok_of_toOption (by decide +kernel)
  exact ⟨hrun, compile_contained .standard hostileSchema hostileSteps 1 hostileQuery _ hrun⟩

end QueryCatalog
