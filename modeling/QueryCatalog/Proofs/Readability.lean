/-
  Rendered trees can be read again.

  A tree that refers to no entity is read back from its text, up to the text of its literals, wherever
  it stands: behind it may come a blank, a comma, a closing parenthesis, or nothing (`Ends`).  That is
  what follows a tree inside another one, so the statement carries itself through all nodes
  (`expr_reads`, `cond_reads`); each node adds only what its own words and marks do to the reader.

  Two facts about how trees begin are needed beside that (`Front`): no tree looks like the word that
  negates a condition, and none looks like a star or the end of a list.

  `render_determines` follows, since what is read depends on the text alone.
-/
import QueryCatalog.Proofs.TreeReader

namespace QueryCatalog

/-- No entities at all. -/
def Known.none : Known := ⟨fun _ => False, fun _ => False⟩

namespace Sql.Reader

/-! ## What follows a tree -/

/-- What can follow a tree. -/
def Ends (rest : List Char) : Prop := ∀ c ∈ rest.head?, c = ' ' ∨ c = ',' ∨ c = ')'

theorem ends_nil : Ends [] := fun _ h => absurd h (Option.not_mem_none _)

/-- A blank, a comma or a closing parenthesis ends a tree, whatever comes then. -/
theorem ends_append {cs : List Char} {c : Char} (hcs : cs.head? = some c)
    (hc : c = ' ' ∨ c = ',' ∨ c = ')') (rest : List Char) : Ends (cs ++ rest) := by
  intro d hd
  rw [List.head?_append, hcs] at hd
  have heq : c = d := Option.some.inj hd
  rw [← heq]
  exact hc

theorem ends_blank (rest : List Char) : Ends (" ".toList ++ rest) := ends_append rfl (.inl rfl) rest

theorem ends_close (rest : List Char) : Ends (")".toList ++ rest) :=
  ends_append rfl (.inr (.inr rfl)) rest

/-- What ends a tree ends a word. -/
theorem Ends.endsWord {rest : List Char} (h : Ends rest) : EndsWord rest := by
  intro c hc
  rcases h c hc with rfl | rfl | rfl <;> rfl

/-- No other character follows a tree. -/
theorem Ends.head?_ne {rest : List Char} (h : Ends rest) {c : Char} (hc : c ≠ ' ') (hc' : c ≠ ',')
    (hc'' : c ≠ ')') : rest.head? ≠ some c := by
  intro heq
  rcases h c heq with h | h | h
  · exact hc h
  · exact hc' h
  · exact hc'' h

/-! ## How a tree begins -/

/-- How a tree begins: not like the end of a list, not like a star, and not like the word that
    negates. -/
def Front (cs : List Char) : Prop :=
  ∃ c rest, cs = c :: rest ∧ c ≠ ')' ∧ c ≠ '*' ∧ (c = 'N' → rest.head? = some 'U')

/-- The front of a text is the front of any longer one. -/
theorem Front.append {cs : List Char} (h : Front cs) (rest : List Char) : Front (cs ++ rest) := by
  obtain ⟨c, cs', rfl, hclose, hstar, hnot⟩ := h
  refine ⟨c, cs' ++ rest, rfl, hclose, hstar, fun hc => ?_⟩
  rw [List.head?_append, hnot hc]
  rfl

/-- A first character that is none of the three is enough. -/
theorem Front.of_head {c : Char} {rest : List Char} (hclose : c ≠ ')') (hstar : c ≠ '*')
    (hnot : c ≠ 'N') : Front (c :: rest) :=
  ⟨c, rest, rfl, hclose, hstar, fun hc => absurd hc hnot⟩

/-- No value starts with the word NOT and a blank, which is for conditions. -/
theorem Front.skip_not {cs : List Char} (h : Front cs) : skip "NOT " cs = none := by
  obtain ⟨c, rest, rfl, -, -, hnot⟩ := h
  by_cases hc : c = 'N'
  · subst hc
    obtain ⟨rest', rfl⟩ : ∃ rest', rest = 'U' :: rest' := by
      cases rest with
      | nil => cases hnot rfl
      | cons d rest => exact ⟨rest, by rw [Option.some.inj (hnot rfl)]⟩
    rfl
  · have hne : ('N' == c) = false := beq_eq_false_iff_ne.mpr (Ne.symm hc)
    show List.isPrefixOf? ('N' :: "OT ".toList) (c :: rest) = none
    rw [List.isPrefixOf?, hne]
    rfl

/-- No tree starts with a closing parenthesis or with a star. -/
theorem Front.head?_ne {cs : List Char} (h : Front cs) :
    cs.head? ≠ some ')' ∧ cs.head? ≠ some '*' := by
  obtain ⟨c, rest, rfl, hclose, hstar, -⟩ := h
  exact ⟨fun heq => hclose (Option.some.inj heq), fun heq => hstar (Option.some.inj heq)⟩

/-! ## Readable phrases -/

/-- The reader finds the phrase wherever it stands. -/
structure Reads (read : Reader Phrase) (p : Phrase) : Prop where
  front : Front p.render.toList
  back : ∀ rest, Ends rest → read (p.render.toList ++ rest) = some (p.spelled, rest)

variable {read : Reader Phrase} {n : Nat}

/-- A value that is read is read as a value. -/
theorem Reads.expr {e : Expr} (h : Reads read (.expr e)) {rest : List Char} (hrest : Ends rest) :
    expr read (e.render.toList ++ rest) = some (e.spelled, rest) := by
  have hread : read (e.render.toList ++ rest) = some (.expr e.spelled, rest) := h.back rest hrest
  rw [Reader.expr, hread]

/-- A truth value that is read is read as one. -/
theorem Reads.cond {c : Cond} (h : Reads read (.cond c)) {rest : List Char} (hrest : Ends rest) :
    cond read (c.render.toList ++ rest) = some (c.spelled, rest) := by
  have hread : read (c.render.toList ++ rest) = some (.cond c.spelled, rest) := h.back rest hrest
  rw [Reader.cond, hread]

/-! ## Words -/

/-- A word with which a tree can begin. -/
def LeadingWord (w : String) : Prop :=
  IsWord w ∧ ∃ c cs, w.toList = c :: cs ∧ c ≠ '\x60' ∧ c ≠ '\x27'

/-- A tree that starts with a word is read by that word. -/
theorem tree_worded {w : String} {rest : List Char} (hw : LeadingWord w) (hrest : EndsWord rest) :
    tree (n + 1) (w.toList ++ rest) = worded (tree n) n w rest := by
  obtain ⟨hword, c, cs, hcs, hname, htext⟩ := hw
  have hopen : c ≠ '(' := by
    rintro rfl
    have hpart := List.all_eq_true.mp hword '(' (hcs ▸ List.mem_cons_self)
    cases hpart
  obtain ⟨hw, hafter⟩ := word_append hword hrest
  rw [hcs, List.cons_append] at hw hafter
  rw [hcs, List.cons_append, tree, if_neg hopen, if_neg hname, if_neg htext, hw, hafter]

/-- A word that stands for itself. -/
structure LiteralWord (w : String) : Prop where
  leading : LeadingWord w
  front : Front w.toList
  not_interval : w ≠ "INTERVAL"
  not_case : w ≠ "CASE"

/-- The word of a literal is read as that literal. -/
theorem LiteralWord.tree_eq {w : String} (hw : LiteralWord w) {rest : List Char} (hrest : Ends rest) :
    tree (n + 1) (w.toList ++ rest) = some (.expr (.literal (.text w)), rest) := by
  have hcall : rest.head? ≠ some '(' := hrest.head?_ne (by decide) (by decide) (by decide)
  rw [tree_worded hw.leading hrest.endsWord, worded, if_neg hcall, if_neg hw.not_interval,
    if_neg hw.not_case]

theorem literalWord_null : LiteralWord "NULL" where
  leading := ⟨by decide, 'N', "ULL".toList, rfl, by decide, by decide⟩
  front := ⟨'N', "ULL".toList, rfl, by decide, by decide, fun _ => rfl⟩
  not_interval := by decide
  not_case := by decide

/-- A figure is none of the characters that mean something else, and neither is a sign. -/
theorem ne_of_isFigure {c d : Char} (hc : Text.isFigure c = true ∨ c = '-')
    (hd : (Text.isFigure d || d == '-') = false) : c ≠ d := by
  rintro rfl
  rcases hc with hc | rfl
  · rw [hc] at hd
    cases hd
  · cases hd

/-- A numeral begins with a figure or with its sign. -/
theorem exists_head_numeral {s : String} (h : Text.IsNumeral s) :
    ∃ c cs, s.toList = c :: cs ∧ (Text.isFigure c = true ∨ c = '-') := by
  obtain ⟨figures, hne, hfigures, hs | hs⟩ := h
  · obtain ⟨c, cs, rfl⟩ := List.exists_cons_of_ne_nil hne
    exact ⟨c, cs, hs, .inl (hfigures c List.mem_cons_self)⟩
  · exact ⟨'-', figures, hs, .inr rfl⟩

/-- A numeral is one word, its sign and its point included. -/
theorem isWord_numeral {s : String} (h : Text.IsNumeral s) : IsWord s := by
  refine List.all_eq_true.mpr fun c hc => ?_
  obtain ⟨figures, -, hfigures, hs | hs⟩ := h
  · rw [hs] at hc
    exact isWordPart_of_isFigure (hfigures c hc)
  · rw [hs] at hc
    rcases List.mem_cons.mp hc with rfl | hc
    · rfl
    · exact isWordPart_of_isFigure (hfigures c hc)

/-- It is no keyword, so that it is read as a literal. -/
theorem literalWord_numeral {s : String} (h : Text.IsNumeral s) : LiteralWord s := by
  obtain ⟨c, cs, hs, hc⟩ := exists_head_numeral h
  refine ⟨⟨isWord_numeral h, c, cs, hs, ne_of_isFigure hc rfl, ne_of_isFigure hc rfl⟩, ?_, ?_, ?_⟩
  · rw [hs]
    exact .of_head (ne_of_isFigure hc rfl) (ne_of_isFigure hc rfl) (ne_of_isFigure hc rfl)
  · rintro rfl
    exact ne_of_isFigure hc rfl (List.cons.inj hs).1.symm
  · rintro rfl
    exact ne_of_isFigure hc rfl (List.cons.inj hs).1.symm

/-- So is a single digit. -/
theorem literalWord_digit {c : Char} (hc : Text.isFigure c = true) :
    LiteralWord (String.ofList [c]) := by
  refine literalWord_numeral ⟨[c], List.cons_ne_nil c [], ?_, .inl String.toList_ofList⟩
  intro d hd
  rw [List.mem_singleton.mp hd]
  exact hc

/-! ## Values that have no parts -/

/-- Literals that are words are read back by their text. -/
theorem reads_literalWord {value : Literal} (h : LiteralWord value.sql) :
    Reads (tree (n + 1)) (.expr (.literal value)) where
  front := h.front
  back _ hrest := h.tree_eq hrest

/-- Text literals are read back without their quotes. -/
theorem reads_text (s : String) : Reads (tree (n + 1)) (.expr (.literal (.text s))) where
  front := by
    have htext := toList_quoted '\x27' s []
    rw [List.append_nil] at htext
    show Front (Text.quoted '\x27' s).toList
    rw [htext]
    exact .of_head (by decide) (by decide) (by decide)
  back rest hrest := by
    have hclose : rest.head? ≠ some '\x27' := hrest.head?_ne (by decide) (by decide) (by decide)
    show tree (n + 1) ((Text.quoted '\x27' s).toList ++ rest) = _
    rw [toList_quoted]
    show quotedText _ = _
    rw [quotedText, unquoted_doubled _ hclose]
    show some (Phrase.expr (.literal (.text (Text.quotedText (.ofList s.toList)))), rest) = _
    rw [String.ofList_toList]
    rfl

/-- All literals are read back, up to their text. -/
theorem reads_literal (value : Literal) : Reads (tree (n + 1)) (.expr (.literal value)) := by
  cases value with
  | null => exact reads_literalWord literalWord_null
  | bool b =>
    cases b
    · exact reads_literalWord (literalWord_digit (c := '0') rfl)
    · exact reads_literalWord (literalWord_digit (c := '1') rfl)
  | int i => exact reads_literalWord (literalWord_numeral (Text.isNumeral_toString_int i.toInt))
  | float x => exact reads_literalWord (literalWord_numeral (Text.isNumeral_text x))
  | text s => exact reads_text s

/-- A column is read back as its table and its name, both quoted. -/
theorem reads_column (table column : String) :
    Reads (tree (n + 1)) (.expr (.column table column)) where
  front := by
    simp only [Phrase.render, Expr.render, String.toList_append, List.append_assoc, Text.quotedName]
    rw [toList_quoted]
    exact .of_head (by decide) (by decide) (by decide)
  back rest hrest := by
    -- a second quote behind the last one would be taken for a doubled one
    have hclose : rest.head? ≠ some '\x60' := hrest.head?_ne (by decide) (by decide) (by decide)
    have hcolumn := unquoted_doubled column.toList hclose
    have hpoint : (".\x60".toList ++ (Text.doubled '\x60' column.toList ++ '\x60' :: rest)).head? ≠
        some '\x60' := fun h => absurd (Option.some.inj h) (by decide)
    have htable := unquoted_doubled table.toList hpoint
    simp only [Phrase.render, Expr.render, String.toList_append, List.append_assoc, Text.quotedName]
    rw [toList_quoted, toList_quoted]
    show Reader.column
      (Text.doubled '\x60' table.toList ++ '\x60' :: (".\x60".toList ++ (Text.doubled _ _ ++ _))) = _
    simp only [Reader.column, htable, skip_append, hcolumn, Option.bind_eq_bind, Option.bind_some,
      String.ofList_toList]
    rfl

/-- The units of time are words that tell themselves apart. -/
theorem named?_unit (unit : DateUnit) :
    IsWord (Keyword.text unit) ∧ named? DateUnit (Keyword.text unit) = some unit := by
  cases unit <;> decide

/-- An interval is read back: a number of 64 bits between quotes, and its unit. -/
theorem reads_interval (value : Int64) (unit : DateUnit) :
    Reads (tree (n + 1)) (.expr (.interval value unit)) where
  front := by
    simp only [Phrase.render, Expr.render, String.toList_append, List.append_assoc]
    exact .of_head (by decide) (by decide) (by decide)
  back rest hrest := by
    have hinterval : LeadingWord "INTERVAL" :=
      ⟨by decide, 'I', "NTERVAL".toList, rfl, by decide, by decide⟩
    obtain ⟨hword, hname⟩ := named?_unit unit
    -- what follows the tree must not lengthen the unit
    obtain ⟨hunit, hrest⟩ := word_append hword hrest.endsWord
    obtain ⟨hvalue, hafter⟩ := word_append (isWord_numeral (Text.isNumeral_toString_int value.toInt))
      (ends_blank ((Keyword.text unit).toList ++ rest)).endsWord
    simp only [Phrase.render, Expr.render, String.toList_append, List.append_assoc]
    have htext : "INTERVAL ".toList = "INTERVAL".toList ++ " ".toList := rfl
    rw [htext, List.append_assoc, tree_worded hinterval (ends_blank _).endsWord]
    show interval _ = _
    simp only [interval, skip_append, hvalue, hafter, whole?_toString, hunit, hname, hrest,
      Option.bind_eq_bind, Option.bind_some]
    rfl

/-! ## Groups -/

/-- A group is a tree if it is one behind its parenthesis. -/
theorem reads_group {p : Phrase} {inner : List Char} (hp : p.render.toList = "(".toList ++ inner)
    (hgroup : ∀ rest, group (tree n) n (inner ++ rest) = some (p.spelled, rest)) :
    Reads (tree (n + 1)) p where
  front := by
    rw [hp]
    exact .of_head (by decide) (by decide) (by decide)
  back rest hrest := by
    rw [hp, List.append_assoc]
    exact hgroup rest

/-- A negation is read back, by the NOT behind its parenthesis. -/
theorem reads_negation {operand : Cond} (hoperand : Reads (tree n) (.cond operand)) :
    Reads (tree (n + 1)) (.cond (.negation operand)) := by
  have hp : (Phrase.cond (.negation operand)).render.toList =
      "(".toList ++ ("NOT ".toList ++ (operand.render.toList ++ ")".toList)) := by
    simp only [Phrase.render, Cond.render, String.toList_append, List.append_assoc]
    rfl
  refine reads_group hp fun rest => ?_
  simp only [List.append_assoc, group, skip_append, hoperand.cond (ends_close rest),
    Option.bind_eq_bind, Option.bind_some]
  rfl

/-- A group that begins with an operand is read by the word behind it. -/
theorem reads_operation {p first : Phrase} {w : String} {behind : List Char}
    (hp : p.render.toList =
      "(".toList ++ (first.render.toList ++ (" ".toList ++ (w.toList ++ (behind ++ ")".toList)))))
    (hfirst : Reads (tree n) first) (hw : IsWord w) (hbehind : behind.head? = some ' ')
    (hoperation : ∀ rest, Ends rest →
      operation (tree n) n w (behind ++ rest) first.spelled = some (p.spelled, rest)) :
    Reads (tree (n + 1)) p := by
  refine reads_group hp fun rest => ?_
  have hends := ends_append hbehind (.inl rfl) (")".toList ++ rest)
  obtain ⟨hword, hafter⟩ := word_append hw hends.endsWord
  have hread := hfirst.back _ (ends_blank (w.toList ++ (behind ++ (")".toList ++ rest))))
  simp only [List.append_assoc]
  rw [group, (hfirst.front.append _).skip_not]
  simp only [hread, skip_append, hword, hafter, hoperation _ (ends_close rest), Option.bind_eq_bind,
    Option.bind_some]
  rfl

/-- A group of two operands is read by the operator between them. -/
theorem reads_infix {p first second : Phrase} {w : String}
    (hp : p.render = "(" ++ first.render ++ " " ++ w ++ " " ++ second.render ++ ")")
    (hfirst : Reads (tree n) first) (hw : IsWord w)
    (hoperation : ∀ rest, Ends rest →
      operation (tree n) n w (" ".toList ++ (second.render.toList ++ rest)) first.spelled =
        some (p.spelled, rest)) :
    Reads (tree (n + 1)) p := by
  have htext : p.render.toList =
      "(".toList ++ (first.render.toList ++ (" ".toList ++ (w.toList ++
        ((" ".toList ++ second.render.toList) ++ ")".toList)))) := by
    simp only [hp, String.toList_append, List.append_assoc]
  refine reads_operation htext hfirst hw rfl fun rest hrest => ?_
  rw [List.append_assoc]
  exact hoperation rest hrest

/-- The operations on numbers are words, and none of the two that start a test. -/
theorem named?_arithmetic (o : Arithmetic) :
    IsWord (Keyword.text o) ∧ Keyword.text o ≠ "IS" ∧ Keyword.text o ≠ "NOT" ∧
      named? Arithmetic (Keyword.text o) = some o := by
  cases o <;> decide

theorem reads_binary {left right : Expr} (o : Arithmetic) (hleft : Reads (tree n) (.expr left))
    (hright : Reads (tree n) (.expr right)) :
    Reads (tree (n + 1)) (.expr (.binary left o right)) := by
  obtain ⟨hword, hnull, hnot, hname⟩ := named?_arithmetic o
  have hp : (Phrase.expr (.binary left o right)).render = "(" ++ (Phrase.expr left).render ++ " " ++
      Keyword.text o ++ " " ++ (Phrase.expr right).render ++ ")" := by
    simp only [Phrase.render, Expr.render]
  refine reads_infix hp hleft hword fun rest hrest => ?_
  have hread : expr (tree n) ((Phrase.expr right).render.toList ++ rest) = some (right.spelled, rest) :=
    hright.expr hrest
  simp only [Phrase.spelled, Expr.spelled, operation, if_neg hnull, if_neg hnot, hname, skip_append,
    hread, Option.bind_eq_bind, Option.bind_some]
  rfl

/-- The comparisons are words, and none of the operations on numbers. -/
theorem named?_comparison (o : Comparison) :
    IsWord (Keyword.text o) ∧ Keyword.text o ≠ "IS" ∧ Keyword.text o ≠ "NOT" ∧
      named? Arithmetic (Keyword.text o) = none ∧ named? Comparison (Keyword.text o) = some o := by
  cases o <;> decide

theorem reads_comparison {left right : Expr} (o : Comparison) (hleft : Reads (tree n) (.expr left))
    (hright : Reads (tree n) (.expr right)) :
    Reads (tree (n + 1)) (.cond (.comparison left o right)) := by
  obtain ⟨hword, hnull, hnot, hother, hname⟩ := named?_comparison o
  have hp : (Phrase.cond (.comparison left o right)).render = "(" ++ (Phrase.expr left).render ++
      " " ++ Keyword.text o ++ " " ++ (Phrase.expr right).render ++ ")" := by
    simp only [Phrase.render, Cond.render]
  refine reads_infix hp hleft hword fun rest hrest => ?_
  have hread : expr (tree n) ((Phrase.expr right).render.toList ++ rest) = some (right.spelled, rest) :=
    hright.expr hrest
  simp only [Phrase.spelled, Cond.spelled, operation, if_neg hnull, if_neg hnot, hother, hname,
    skip_append, hread, Option.bind_eq_bind, Option.bind_some]
  rfl

/-- The connectives are words that tell themselves apart. -/
theorem named?_connective (o : Connective) :
    IsWord (Keyword.text o) ∧ named? Connective (Keyword.text o) = some o := by
  cases o <;> decide

/-- Two conditions with a connective between them are read back. -/
theorem reads_connective {left right : Cond} (o : Connective) (hleft : Reads (tree n) (.cond left))
    (hright : Reads (tree n) (.cond right)) :
    Reads (tree (n + 1)) (.cond (.connective left o right)) := by
  obtain ⟨hword, hname⟩ := named?_connective o
  have hp : (Phrase.cond (.connective left o right)).render = "(" ++ (Phrase.cond left).render ++
      " " ++ Keyword.text o ++ " " ++ (Phrase.cond right).render ++ ")" := by
    simp only [Phrase.render, Cond.render]
  refine reads_infix hp hleft hword fun rest hrest => ?_
  have hread : cond (tree n) ((Phrase.cond right).render.toList ++ rest) = some (right.spelled, rest) :=
    hright.cond hrest
  simp only [Phrase.spelled, Cond.spelled, operation, hname, skip_append, hread, Option.bind_eq_bind,
    Option.bind_some]
  rfl

/-- A test for NULL is read back, negated or not. -/
theorem reads_isNull {value : Expr} (negated : Bool) (hvalue : Reads (tree n) (.expr value)) :
    Reads (tree (n + 1)) (.cond (.isNull value negated)) := by
  cases negated with
  | false =>
    have hp : (Phrase.cond (.isNull value false)).render.toList =
        "(".toList ++ ((Phrase.expr value).render.toList ++ (" ".toList ++ ("IS".toList ++
          (" NULL".toList ++ ")".toList)))) := by
      simp only [Phrase.render, Cond.render, String.toList_append, List.append_assoc]
      rfl
    exact reads_operation hp hvalue (by decide) rfl fun rest _ => rfl
  | true =>
    have hp : (Phrase.cond (.isNull value true)).render.toList =
        "(".toList ++ ((Phrase.expr value).render.toList ++ (" ".toList ++ ("IS".toList ++
          (" NOT NULL".toList ++ ")".toList)))) := by
      simp only [Phrase.render, Cond.render, String.toList_append, List.append_assoc]
      rfl
    exact reads_operation hp hvalue (by decide) rfl fun rest _ => rfl

/-- A test that can be negated is read the same with the word that negates it and without. -/
theorem reads_test {c : Cond} {value : Expr} {negated : Bool} {w : String} {behind : List Char}
    (hc : c.render.toList = "(".toList ++ (value.render.toList ++ (" ".toList ++
      ((notText negated).toList ++ (w.toList ++ (behind ++ ")".toList))))))
    (hvalue : Reads (tree n) (.expr value)) (hw : w = "BETWEEN" ∨ w = "IN")
    (hbehind : behind.head? = some ' ')
    (htest : ∀ rest, Ends rest →
      test (tree n) n value.spelled negated w (behind ++ rest) = some (.cond c.spelled, rest)) :
    Reads (tree (n + 1)) (.cond c) := by
  have hword : IsWord w := by
    rcases hw with rfl | rfl <;> decide
  cases negated with
  | false =>
    have hp : (Phrase.cond c).render.toList =
        "(".toList ++ ((Phrase.expr value).render.toList ++ (" ".toList ++ (w.toList ++
          (behind ++ ")".toList)))) := hc
    refine reads_operation hp hvalue hword hbehind fun rest hrest => ?_
    -- the two words are no operators
    have hoperation : operation (tree n) n w (behind ++ rest) (.expr value.spelled) =
        test (tree n) n value.spelled false w (behind ++ rest) := by
      rcases hw with rfl | rfl <;> rfl
    exact hoperation.trans (htest rest hrest)
  | true =>
    have hp : (Phrase.cond c).render.toList =
        "(".toList ++ ((Phrase.expr value).render.toList ++ (" ".toList ++ ("NOT".toList ++
          ((" ".toList ++ (w.toList ++ behind)) ++ ")".toList)))) := by
      simp only [List.append_assoc]
      exact hc
    refine reads_operation hp hvalue (by decide) rfl fun rest hrest => ?_
    have hends := ends_append hbehind (.inl rfl) rest
    obtain ⟨hword, hafter⟩ := word_append hword hends.endsWord
    have hnull : ¬("NOT" = "IS") := by decide
    simp only [List.append_assoc, Phrase.spelled, operation, if_neg hnull, if_pos, skip_append, hword,
      hafter, Option.bind_eq_bind, Option.bind_some]
    exact htest rest hrest

/-- A test for a range is read back; its AND is no connective, since values stand on both sides. -/
theorem reads_between {value lower upper : Expr} (negated : Bool)
    (hvalue : Reads (tree n) (.expr value)) (hlower : Reads (tree n) (.expr lower))
    (hupper : Reads (tree n) (.expr upper)) :
    Reads (tree (n + 1)) (.cond (.between value lower upper negated)) := by
  have hc : (Cond.between value lower upper negated).render.toList =
      "(".toList ++ (value.render.toList ++ (" ".toList ++ ((notText negated).toList ++
        ("BETWEEN".toList ++ ((" ".toList ++ (lower.render.toList ++ (" AND ".toList ++
          upper.render.toList))) ++ ")".toList))))) := by
    simp only [Cond.render, String.toList_append, List.append_assoc]
    rfl
  refine reads_test hc hvalue (.inl rfl) rfl fun rest hrest => ?_
  have hand : Ends (" AND ".toList ++ (upper.render.toList ++ rest)) := ends_append rfl (.inl rfl) _
  simp only [test, if_pos, List.append_assoc, skip_append, hlower.expr hand, hupper.expr hrest,
    Cond.spelled, Option.bind_eq_bind, Option.bind_some]
  rfl

/-! ## Lists -/

/-- The reader finds the argument, which does not look like the end of a list. -/
structure ReadsArg (read : Reader Phrase) (a : Arg) : Prop where
  front : ∀ rest, (a.render.toList ++ rest).head? ≠ some ')'
  back : ∀ rest, Ends rest → arg read (a.render.toList ++ rest) = some (a.spelled, rest)

/-- The star is an argument by itself. -/
theorem readsArg_star : ReadsArg read .star where
  front _ := by
    simp only [Arg.render]
    exact fun h => absurd (Option.some.inj h) (by decide)
  back _ _ := by
    simp only [Arg.render, Arg.spelled]
    rfl

/-- A value that is read is read as an argument. -/
theorem Reads.arg {e : Expr} (h : Reads read (.expr e)) : ReadsArg read (.expr e) where
  front rest := by
    rw [Arg.render]
    exact (h.front.append rest).head?_ne.1
  back rest hrest := by
    have hstar : (e.render.toList ++ rest).head? ≠ some '*' := (h.front.append rest).head?_ne.2
    simp only [Arg.render, Arg.spelled, Reader.arg, if_neg hstar, h.expr hrest, Option.map_some]

/-- Arguments with commas between them are read back up to the closing parenthesis.  The induction is
    on the list, and there are steps enough for it. -/
theorem items_read {as : List Arg} (has : ∀ a ∈ as, ReadsArg read a) (hne : as ≠ [])
    (hn : as.length ≤ n) (rest : List Char) :
    items read n ((Text.joined ", " (renderArgs as)).toList ++ (")".toList ++ rest)) =
      some (spelledArgs as, rest) := by
  induction as generalizing n with
  | nil => exact absurd rfl hne
  | cons a as ih =>
    obtain ⟨ha, has⟩ := List.forall_mem_cons.mp has
    rw [List.length_cons] at hn
    obtain ⟨n, rfl⟩ : ∃ m, n = m + 1 := ⟨n - 1, by omega⟩
    cases as with
    | nil =>
      simp only [renderArgs, Text.joined, spelledArgs, items, ha.back _ (ends_close rest),
        Option.bind_eq_bind, Option.bind_some]
      rfl
    | cons b as =>
      -- the comma ends the first item, and the others are read from behind it
      have hitems := ih has (List.cons_ne_nil b as) (show (b :: as).length ≤ n by omega)
      simp only [renderArgs, Text.joined, spelledArgs, items, String.toList_append, List.append_assoc]
        at hitems ⊢
      have hcomma : ∀ cs, Ends (", ".toList ++ cs) := ends_append rfl (.inr (.inl rfl))
      rw [ha.back _ (hcomma _)]
      show (items read n ((Text.joined ", " (b.render :: renderArgs as)).toList ++
        (")".toList ++ rest)) >>= _) = _
      rw [hitems]
      rfl

/-- So are arguments that may be none. -/
theorem args_read {as : List Arg} (has : ∀ a ∈ as, ReadsArg read a) (hn : as.length ≤ n)
    (rest : List Char) :
    args read n ((Text.joined ", " (renderArgs as)).toList ++ (")".toList ++ rest)) =
      some (spelledArgs as, rest) := by
  cases as with
  | nil =>
    simp only [renderArgs, spelledArgs, Text.joined]
    rfl
  | cons a as =>
    have hitems := items_read has (List.cons_ne_nil a as) hn rest
    -- no argument starts with the parenthesis that closes an empty list
    have hfront : ((Text.joined ", " (renderArgs (a :: as))).toList ++ (")".toList ++ rest)).head? ≠
        some ')' := by
      have ha := (has a List.mem_cons_self).front
      cases as with
      | nil =>
        simp only [renderArgs, Text.joined]
        exact ha _
      | cons b as =>
        simp only [renderArgs, Text.joined, String.toList_append, List.append_assoc]
        exact ha _
    rw [args, if_neg hfront, hitems]

/-- The functions are words that tell themselves apart, and none of them starts like NOT. -/
theorem named?_function (f : SqlFunction) :
    LeadingWord (Keyword.text f) ∧ Front (Keyword.text f).toList ∧
      named? SqlFunction (Keyword.text f) = some f := by
  cases f <;>
    exact ⟨⟨by decide, _, _, rfl, by decide, by decide⟩,
      .of_head (by decide) (by decide) (by decide), rfl⟩

theorem reads_call {as : List Arg} (f : SqlFunction) (has : ∀ a ∈ as, ReadsArg (tree n) a)
    (hn : as.length ≤ n) : Reads (tree (n + 1)) (.expr (.call f as)) where
  front := by
    simp only [Phrase.render, Expr.render, String.toList_append, List.append_assoc]
    exact (named?_function f).2.1.append _
  back rest _ := by
    obtain ⟨hword, -, hname⟩ := named?_function f
    -- the parenthesis ends the name of the function
    have hopen : ∀ cs, EndsWord ("(".toList ++ cs) := by
      intro cs c hc
      rw [← Option.some.inj hc]
      rfl
    have hargs := args_read has hn rest
    simp only [Phrase.render, Expr.render, String.toList_append, List.append_assoc]
    rw [tree_worded hword (hopen _)]
    show ((named? SqlFunction (Keyword.text f)).bind fun function =>
      (args (tree n) n ((Text.joined ", " (renderArgs as)).toList ++ (")".toList ++ rest))).bind _) = _
    rw [hname, hargs]
    simp only [Phrase.spelled, Expr.spelled, Option.bind_some]
    rfl

/-- The values of a list are written like arguments. -/
theorem renderArgs_map (es : List Expr) : renderArgs (es.map .expr) = renderExprs es := by
  induction es with
  | nil => simp only [List.map_nil, renderArgs, renderExprs]
  | cons e es ih => simp only [List.map_cons, renderArgs, renderExprs, Arg.render, ih]

/-- Arguments that are all values are a list of values. -/
theorem exprs?_map (es : List Expr) : exprs? (spelledArgs (es.map .expr)) = some (spelledExprs es) := by
  induction es with
  | nil => simp only [List.map_nil, spelledArgs, spelledExprs, exprs?]
  | cons e es ih =>
    simp only [List.map_cons, spelledArgs, spelledExprs, Arg.spelled, exprs?, ih, Option.map_some]

/-- A membership test among listed values is read back, an empty list included. -/
theorem reads_member {value : Expr} {es : List Expr} (negated : Bool)
    (hvalue : Reads (tree n) (.expr value)) (hes : ∀ e ∈ es, Reads (tree n) (.expr e))
    (hn : es.length ≤ n) :
    Reads (tree (n + 1)) (.cond (.member value (.list es) negated)) := by
  have hc : (Cond.member value (.list es) negated).render.toList =
      "(".toList ++ (value.render.toList ++ (" ".toList ++ ((notText negated).toList ++
        ("IN".toList ++ ((" (".toList ++ ((Text.joined ", " (renderArgs (es.map .expr))).toList ++
          ")".toList)) ++ ")".toList))))) := by
    simp only [Cond.render, MemberSource.render, renderArgs_map, String.toList_append,
      List.append_assoc]
    rfl
  refine reads_test hc hvalue (.inr rfl) rfl fun rest _ => ?_
  have has : ∀ a ∈ es.map Arg.expr, ReadsArg (tree n) a := by
    intro a ha
    obtain ⟨e, he, rfl⟩ := List.mem_map.mp ha
    exact (hes e he).arg
  have hlength : (es.map Arg.expr).length ≤ n := by
    rw [List.length_map]
    exact hn
  have hargs := args_read has hlength rest
  have hne : ¬("IN" = "BETWEEN") := by decide
  simp only [test, if_neg hne, if_pos, List.append_assoc, skip_append, hargs, exprs?_map,
    Option.bind_eq_bind, Option.bind_some, Cond.spelled, MemberSource.spelled]
  rfl

/-! ## Conditional expressions -/

/-- The reader finds the branch behind the blank and the word that come before it. -/
def ReadsBranch (read : Reader Phrase) (b : Branch) : Prop :=
  ∀ rest, Ends rest →
    (skip " WHEN " (" ".toList ++ (b.render.toList ++ rest))).bind (branch read) = some (b.spelled, rest)

/-- A branch is read back by the words around its condition and its result. -/
theorem readsBranch_mk {condition : Cond} {result : Expr} (hcondition : Reads read (.cond condition))
    (hresult : Reads read (.expr result)) : ReadsBranch read (.mk condition result) := by
  intro rest hrest
  have hthen : Ends (" THEN ".toList ++ (result.render.toList ++ rest)) :=
    ends_append rfl (.inl rfl) _
  simp only [Branch.render, Branch.spelled, String.toList_append, List.append_assoc]
  show branch read (condition.render.toList ++ _) = _
  simp only [branch, hcondition.cond hthen, skip_append, hresult.expr hrest, Option.bind_eq_bind,
    Option.bind_some]
  rfl

/-- Texts with a blank before each. -/
def spaced : List String → List Char
  | [] => []
  | t :: ts => " ".toList ++ (t.toList ++ spaced ts)

/-- Texts with blanks between them have a blank before each as soon as one stands before the first. -/
theorem toList_spaced (t : String) (ts : List String) (rest : List Char) :
    " ".toList ++ ((Text.joined " " (t :: ts)).toList ++ rest) = spaced (t :: ts) ++ rest := by
  induction ts generalizing t with
  | nil => simp only [Text.joined, spaced, List.append_assoc, List.append_nil]
  | cons u ts ih =>
    rw [spaced]
    simp only [Text.joined, String.toList_append, List.append_assoc]
    rw [ih u]

/-- A blank stands in front of each of the spaced texts, so that they end a tree. -/
theorem ends_spaced (ts : List String) {rest : List Char} (hrest : Ends rest) :
    Ends (spaced ts ++ rest) := by
  cases ts with
  | nil => exact hrest
  | cons t ts =>
    rw [spaced, List.append_assoc]
    exact ends_blank _

/-- Branches are read back up to a text that starts none. -/
theorem branches_read {bs : List Branch} (hbs : ∀ b ∈ bs, ReadsBranch read b) (hn : bs.length < n)
    {rest : List Char} (hrest : Ends rest) (hstop : skip " WHEN " rest = none) :
    branches read n (spaced (renderBranches bs) ++ rest) = some (spelledBranches bs, rest) := by
  induction bs generalizing n with
  | nil =>
    obtain ⟨n, rfl⟩ : ∃ m, n = m + 1 := ⟨n - 1, by omega⟩
    simp only [renderBranches, spelledBranches, spaced, List.nil_append, branches, hstop]
  | cons b bs ih =>
    obtain ⟨hb, hbs⟩ := List.forall_mem_cons.mp hbs
    rw [List.length_cons] at hn
    obtain ⟨n, rfl⟩ : ∃ m, n = m + 1 := ⟨n - 1, by omega⟩
    have hfirst := hb _ (ends_spaced (renderBranches bs) hrest)
    obtain ⟨cs, hskip, hbranch⟩ := Option.bind_eq_some_iff.mp hfirst
    have hothers := ih hbs (show bs.length < n by omega)
    simp only [renderBranches, spelledBranches, spaced, List.append_assoc, branches, hskip, hbranch,
      hothers, Option.bind_eq_bind, Option.bind_some]
    rfl

/-- The branches end where the other value begins; with no branch, one more blank stands there. -/
theorem branches_read_else {bs : List Branch} (hbs : ∀ b ∈ bs, ReadsBranch read b)
    (hn : bs.length < n) (rest : List Char) :
    ∃ behind,
      branches read n (" ".toList ++ ((Text.joined " " (renderBranches bs)).toList ++
        (" ELSE ".toList ++ rest))) = some (spelledBranches bs, behind) ∧
      (skip "  ELSE " behind).or (skip " ELSE " behind) = some rest := by
  cases bs with
  | nil =>
    have hends : Ends ("  ELSE ".toList ++ rest) := ends_append rfl (.inl rfl) rest
    have hread := branches_read hbs hn hends rfl
    simp only [renderBranches] at hread ⊢
    exact ⟨_, hread, rfl⟩
  | cons b bs =>
    have hends : Ends (" ELSE ".toList ++ rest) := ends_append rfl (.inl rfl) rest
    have hread := branches_read hbs hn hends rfl
    simp only [renderBranches] at hread ⊢
    rw [toList_spaced]
    exact ⟨_, hread, rfl⟩

/-- A conditional is read back, also one without branches. -/
theorem reads_conditional {bs : List Branch} {otherwise : Expr}
    (hbs : ∀ b ∈ bs, ReadsBranch (tree n) b) (hn : bs.length < n)
    (hotherwise : Reads (tree n) (.expr otherwise)) :
    Reads (tree (n + 1)) (.expr (.conditional bs otherwise)) where
  front := by
    simp only [Phrase.render, Expr.render, String.toList_append, List.append_assoc]
    exact .of_head (by decide) (by decide) (by decide)
  back rest _ := by
    have hcase : LeadingWord "CASE" := ⟨by decide, 'C', "ASE".toList, rfl, by decide, by decide⟩
    have hend : Ends (" END".toList ++ rest) := ends_append rfl (.inl rfl) rest
    obtain ⟨behind, hbranches, helse⟩ :=
      branches_read_else hbs hn (otherwise.render.toList ++ (" END".toList ++ rest))
    simp only [Phrase.render, Expr.render, String.toList_append, List.append_assoc]
    have htext : "CASE ".toList = "CASE".toList ++ " ".toList := rfl
    rw [htext, List.append_assoc, tree_worded hcase (ends_blank _).endsWord]
    show conditional (tree n) n _ = _
    simp only [conditional, hbranches, helse, hotherwise.expr hend, skip_append, Option.bind_eq_bind,
      Option.bind_some, Phrase.spelled, Expr.spelled]
    rfl

/-! ## All trees -/

/-- A list is shorter than its size, so that the size is fuel enough. -/
theorem length_lt_sizeOf {α : Type} [SizeOf α] (as : List α) : as.length < sizeOf as := by
  induction as with
  | nil => simp
  | cons a as ih =>
    rw [List.length_cons, List.cons.sizeOf_spec]
    omega

mutual

/-- A value of any size is read back, with its size for fuel.  The induction is on the tree, together
    with its arguments, branches and conditions. -/
theorem expr_reads : ∀ (e : Expr) {n : Nat}, e.Uses .none → sizeOf e ≤ n → Reads (tree n) (.expr e)
  | .literal value, n, _, hn => by
    rw [Expr.literal.sizeOf_spec] at hn
    obtain ⟨n, rfl⟩ : ∃ m, n = m + 1 := ⟨n - 1, by omega⟩
    exact reads_literal value
  | .binary left o right, n, h, hn => by
    rw [Expr.binary.sizeOf_spec] at hn
    obtain ⟨n, rfl⟩ : ∃ m, n = m + 1 := ⟨n - 1, by omega⟩
    exact reads_binary o (expr_reads left h.1 (by omega)) (expr_reads right h.2 (by omega))
  | .call f as, n, h, hn => by
    rw [Expr.call.sizeOf_spec] at hn
    obtain ⟨n, rfl⟩ : ∃ m, n = m + 1 := ⟨n - 1, by omega⟩
    -- the reader takes a step for each argument, and the arguments make up part of the size
    have hlength := length_lt_sizeOf as
    exact reads_call f (argList_reads as h (by omega)) (by omega)
  | .interval value unit, n, _, hn => by
    rw [Expr.interval.sizeOf_spec] at hn
    obtain ⟨n, rfl⟩ : ∃ m, n = m + 1 := ⟨n - 1, by omega⟩
    exact reads_interval value unit
  | .conditional bs otherwise, n, h, hn => by
    rw [Expr.conditional.sizeOf_spec] at hn
    obtain ⟨n, rfl⟩ : ∃ m, n = m + 1 := ⟨n - 1, by omega⟩
    have hlength := length_lt_sizeOf bs
    exact reads_conditional (branchList_reads bs h.1 (by omega)) (by omega)
      (expr_reads otherwise h.2 (by omega))
  | .column table column, n, _, hn => by
    rw [Expr.column.sizeOf_spec] at hn
    obtain ⟨n, rfl⟩ : ∃ m, n = m + 1 := ⟨n - 1, by omega⟩
    exact reads_column table column
  | .aliased _, _, h, _ => h.1.elim
  | .subquery _, _, h, _ => h.1.elim

theorem arg_reads : ∀ (a : Arg) {n : Nat}, a.Uses .none → sizeOf a ≤ n → ReadsArg (tree n) a
  | .star, _, _, _ => readsArg_star
  | .expr value, n, h, hn => by
    rw [Arg.expr.sizeOf_spec] at hn
    exact (expr_reads value h (by omega)).arg

theorem branch_reads :
    ∀ (b : Branch) {n : Nat}, b.Uses .none → sizeOf b ≤ n → ReadsBranch (tree n) b
  | .mk condition result, n, h, hn => by
    rw [Branch.mk.sizeOf_spec] at hn
    exact readsBranch_mk (cond_reads condition h.1 (by omega)) (expr_reads result h.2 (by omega))

/-- A truth value of any size is read back. -/
theorem cond_reads : ∀ (c : Cond) {n : Nat}, c.Uses .none → sizeOf c ≤ n → Reads (tree n) (.cond c)
  | .negation operand, n, h, hn => by
    rw [Cond.negation.sizeOf_spec] at hn
    obtain ⟨n, rfl⟩ : ∃ m, n = m + 1 := ⟨n - 1, by omega⟩
    exact reads_negation (cond_reads operand h (by omega))
  | .connective left o right, n, h, hn => by
    rw [Cond.connective.sizeOf_spec] at hn
    obtain ⟨n, rfl⟩ : ∃ m, n = m + 1 := ⟨n - 1, by omega⟩
    exact reads_connective o (cond_reads left h.1 (by omega)) (cond_reads right h.2 (by omega))
  | .comparison left o right, n, h, hn => by
    rw [Cond.comparison.sizeOf_spec] at hn
    obtain ⟨n, rfl⟩ : ∃ m, n = m + 1 := ⟨n - 1, by omega⟩
    exact reads_comparison o (expr_reads left h.1 (by omega)) (expr_reads right h.2 (by omega))
  | .between value lower upper negated, n, h, hn => by
    rw [Cond.between.sizeOf_spec] at hn
    obtain ⟨n, rfl⟩ : ∃ m, n = m + 1 := ⟨n - 1, by omega⟩
    exact reads_between negated (expr_reads value h.1 (by omega))
      (expr_reads lower h.2.1 (by omega)) (expr_reads upper h.2.2 (by omega))
  | .isNull value negated, n, h, hn => by
    rw [Cond.isNull.sizeOf_spec] at hn
    obtain ⟨n, rfl⟩ : ∃ m, n = m + 1 := ⟨n - 1, by omega⟩
    exact reads_isNull negated (expr_reads value h (by omega))
  | .member value (.list es) negated, n, h, hn => by
    rw [Cond.member.sizeOf_spec, MemberSource.list.sizeOf_spec] at hn
    obtain ⟨n, rfl⟩ : ∃ m, n = m + 1 := ⟨n - 1, by omega⟩
    have hlength := length_lt_sizeOf es
    exact reads_member negated (expr_reads value h.1 (by omega)) (exprList_reads es h.2 (by omega))
      (by omega)
  | .member _ (.query _) _, _, h, _ => h.2.1.elim
  | .existence _ _, _, h, _ => h.elim
  | .aliased _, _, h, _ => h.1.elim

theorem exprList_reads : ∀ (es : List Expr) {n : Nat}, usesExprs .none es → sizeOf es ≤ n →
    ∀ e ∈ es, Reads (tree n) (.expr e)
  | [], _, _, _ => fun _ he => absurd he List.not_mem_nil
  | e :: es, n, h, hn => by
    rw [List.cons.sizeOf_spec] at hn
    exact List.forall_mem_cons.mpr ⟨expr_reads e h.1 (by omega), exprList_reads es h.2 (by omega)⟩

theorem argList_reads : ∀ (as : List Arg) {n : Nat}, usesArgs .none as → sizeOf as ≤ n →
    ∀ a ∈ as, ReadsArg (tree n) a
  | [], _, _, _ => fun _ ha => absurd ha List.not_mem_nil
  | a :: as, n, h, hn => by
    rw [List.cons.sizeOf_spec] at hn
    exact List.forall_mem_cons.mpr ⟨arg_reads a h.1 (by omega), argList_reads as h.2 (by omega)⟩

theorem branchList_reads : ∀ (bs : List Branch) {n : Nat}, usesBranches .none bs → sizeOf bs ≤ n →
    ∀ b ∈ bs, ReadsBranch (tree n) b
  | [], _, _, _ => fun _ hb => absurd hb List.not_mem_nil
  | b :: bs, n, h, hn => by
    rw [List.cons.sizeOf_spec] at hn
    exact List.forall_mem_cons.mpr ⟨branch_reads b h.1 (by omega), branchList_reads bs h.2 (by omega)⟩

end

/-- One text is read in one way. -/
theorem Reads.spelled_eq {p p' : Phrase} (h : Reads read p) (h' : Reads read p')
    (hrender : p.render = p'.render) : p.spelled = p'.spelled := by
  have hread := h.back [] ends_nil
  have hread' := h'.back [] ends_nil
  rw [hrender, hread'] at hread
  exact (Prod.mk.inj (Option.some.inj hread)).1.symm

end Sql.Reader

namespace Sql

open Reader

/-- **Rendering loses no structure.**  Two trees over no entities that are written alike are the same
    tree, up to literals that are written alike; and no value is written like a truth value. -/
theorem render_determines :
    (∀ e e' : Expr, e.Uses .none → e'.Uses .none → e.render = e'.render → e.spelled = e'.spelled) ∧
    (∀ c c' : Cond, c.Uses .none → c'.Uses .none → c.render = c'.render → c.spelled = c'.spelled) ∧
    ∀ (e : Expr) (c : Cond), e.Uses .none → c.Uses .none → e.render ≠ c.render := by
  -- the reader that goes deep enough for both finds each of them in the one text
  refine ⟨fun e e' he he' hrender => ?_, fun c c' hc hc' hrender => ?_, fun e c he hc hrender => ?_⟩
  · have hreads := expr_reads e he (Nat.le_add_right _ (sizeOf e'))
    have hreads' := expr_reads e' he' (Nat.le_add_left _ (sizeOf e))
    exact Phrase.expr.inj (hreads.spelled_eq hreads' hrender)
  · have hreads := cond_reads c hc (Nat.le_add_right _ (sizeOf c'))
    have hreads' := cond_reads c' hc' (Nat.le_add_left _ (sizeOf c))
    exact Phrase.cond.inj (hreads.spelled_eq hreads' hrender)
  · have hreads := expr_reads e he (Nat.le_add_right _ (sizeOf c))
    have hreads' := cond_reads c hc (Nat.le_add_left _ (sizeOf e))
    cases hreads.spelled_eq hreads' hrender

/-- A condition over a literal, with all sorts of marks inside its names and texts. -/
def crowdedCond (value : Literal) : Cond :=
  .connective
    (.between (.literal value) (.literal (.int (-2))) (.column "a\x60 AND \x60b" "c).(") true)
    .and
    (.negation
      (.member (.literal (.text "it\x27s, (")) (.list [.literal value, .call .count [.star]]) false))

/-- A value over a literal, with that condition in it. -/
def crowdedExpr (value : Literal) : Expr :=
  .conditional
    [ .mk (crowdedCond value) (.interval 3 .day),
      .mk (.isNull (.literal value) true) (.literal value) ]
    (.binary (.literal value) .intDiv (.call .round []))

/-- Two trees that differ in a literal only, which is written the same. -/
theorem render_determines_crowded :
    crowdedExpr (.bool true) ≠ crowdedExpr (.int 1) ∧
    (crowdedExpr (.bool true)).render = (crowdedExpr (.int 1)).render ∧
    (crowdedExpr (.bool true)).spelled = (crowdedExpr (.int 1)).spelled ∧
    (crowdedCond (.bool true)).spelled = (crowdedCond (.int 1)).spelled ∧
    (crowdedExpr (.int 1)).render ≠ (crowdedCond (.int 1)).render := by
  have hcond : ∀ value, (crowdedCond value).Uses .none := fun _ =>
    ⟨⟨trivial, trivial, trivial⟩, trivial, trivial, ⟨trivial, trivial⟩, trivial⟩
  have hexpr : ∀ value, (crowdedExpr value).Uses .none := fun value =>
    ⟨⟨⟨hcond value, trivial⟩, ⟨trivial, trivial⟩, trivial⟩, trivial, trivial⟩
  obtain ⟨hexprs, hconds, hother⟩ := render_determines
  -- a truth value and the number 1 are the same text, and so the same up to spelling
  have hrender : (crowdedExpr (.bool true)).render = (crowdedExpr (.int 1)).render := by decide +kernel
  refine ⟨?_, hrender, ?_, ?_, ?_⟩
  · intro heq
    cases heq
  · exact hexprs _ _ (hexpr _) (hexpr _) hrender
  · exact hconds _ _ (hcond _) (hcond _) (by decide +kernel)
  · exact hother _ _ (hexpr _) (hcond _)

end Sql

end QueryCatalog
