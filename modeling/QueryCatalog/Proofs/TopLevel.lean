/-
  What is seen of a statement from outside its quotes and parentheses.

  Cut into tokens, a statement shows its words and its other characters where they stand outside of
  quotes and at depth zero, and hides all the rest.  A word is as long as letters meet, so a text does
  not have the tokens of its parts: two words that touch are one.  They never touch in what is rendered,
  and texts that are kept apart have the tokens of both (`tokensFrom_append`).

  Of the tokens only two things matter here, the keywords of clauses among the words and the commas.
  `Shows` counts both, and adds up along concatenation.  A target that may be pasted into any clause
  shows neither (`Calm`), which is the induction over the trees (`calm_expr`): a tree shows the words of
  its own node, and its operands either stand in parentheses or are calm themselves.
-/
import Mathlib.Data.List.Forall2
import QueryCatalog.Proofs.RenderedText

namespace QueryCatalog.Statement

/-! ## Tokens -/

/-- A piece of a statement: a word or another character in the open, or a hidden character. -/
inductive Token where
  | word (letters : List Char)
  | mark (c : Char)
  | hidden (c : Char)
deriving DecidableEq, Repr

/-- A character in its region, at its depth of parentheses. -/
def tokenOf (r : Region) (depth : Nat) (c : Char) : Token :=
  if r.isCode c && depth == 0 then (if c.isAlpha then .word [c] else .mark c) else .hidden c

/-- The depth behind a character in its region. -/
def levelBehind (r : Region) (depth : Nat) (c : Char) : Nat :=
  if r.isCode c then (depthBehind depth c).getD 0 else depth

/-- A token in front of others: words that meet are one. -/
def Token.before : Token → List Token → List Token
  | .word letters, .word more :: ts => .word (letters ++ more) :: ts
  | t, ts => t :: ts

/-- The tokens of some characters, read from a region and a depth on. -/
def tokensFrom : Region → Nat → List Char → List Token
  | _, _, [] => []
  | r, depth, c :: cs => (tokenOf r depth c).before (tokensFrom (r.behind c) (levelBehind r depth c) cs)

/-- The tokens of a text. -/
def tokens (s : String) : List Token := tokensFrom .outside 0 s.toList

/-- The keywords that start the clauses of a statement, in statement order. -/
def clauseKeywords : List String :=
  ["SELECT", "FROM", "JOIN", "WHERE", "GROUP", "HAVING", "ORDER", "LIMIT"]

/-- The keyword that a word is, in whatever case. -/
def Token.clauseWord? : Token → Option String
  | .word letters => clauseKeywords.find? fun keyword => keyword.toList == letters.map Char.toUpper
  | .mark _ => none
  | .hidden _ => none

/-- The keywords of clauses among some tokens. -/
def clauseWords (ts : List Token) : List String := ts.filterMap Token.clauseWord?

/-- The commas among some tokens. -/
def commas (ts : List Token) : Nat := ts.count (.mark ',')

/-- Keywords are found in one part of the tokens or in the other. -/
theorem clauseWords_append (ts us : List Token) :
    clauseWords (ts ++ us) = clauseWords ts ++ clauseWords us := List.filterMap_append

theorem commas_append (ts us : List Token) : commas (ts ++ us) = commas ts + commas us :=
  List.count_append

/-- The characters of a token. -/
def Token.chars : Token → List Char
  | .word letters => letters
  | .mark c => [c]
  | .hidden c => [c]

/-- Joining words neither loses nor adds characters. -/
theorem Token.chars_before (t : Token) (ts : List Token) :
    (t.before ts).flatMap Token.chars = t.chars ++ ts.flatMap Token.chars := by
  cases t with
  | word letters =>
    cases ts with
    | nil => rfl
    | cons u us =>
      cases u with
      | word more => exact List.append_assoc letters more _
      | mark c => rfl
      | hidden c => rfl
  | mark c => rfl
  | hidden c => rfl

/-- A single character is all that its token holds. -/
theorem chars_tokenOf (r : Region) (depth : Nat) (c : Char) : (tokenOf r depth c).chars = [c] := by
  rw [tokenOf]
  split
  · split <;> rfl
  · rfl

/-- The tokens of a text are all of it. -/
theorem chars_tokensFrom (r : Region) (depth : Nat) (cs : List Char) :
    (tokensFrom r depth cs).flatMap Token.chars = cs := by
  induction cs generalizing r depth with
  | nil => rfl
  | cons c cs ih => rw [tokensFrom, Token.chars_before, chars_tokenOf, ih, List.singleton_append]

example : tokens "AB(C), 'D' E" =
    [.word ['A', 'B'], .mark '(', .hidden 'C', .hidden ')', .mark ',', .mark ' ', .hidden '\x27', .hidden 'D',
      .hidden '\x27', .mark ' ', .word ['E']] := by
  decide

/-! ## Texts that are kept apart -/

/-- Whether a text ends in no letter. -/
def endsApart (cs : List Char) : Bool := cs.getLast?.all fun c => !c.isAlpha

/-- Whether a text starts with no letter. -/
def startsApart (cs : List Char) : Bool := cs.head?.all fun c => !c.isAlpha

/-- What is no letter is no word. -/
theorem tokenOf_ne_word {r : Region} {depth : Nat} {c : Char} (hc : c.isAlpha = false)
    (letters : List Char) : tokenOf r depth c ≠ .word letters := by
  rw [tokenOf, hc]
  split <;> simp

/-- Only words are joined to what follows. -/
theorem Token.before_of_ne_word {t : Token} (h : ∀ letters, t ≠ .word letters) (ts : List Token) :
    t.before ts = t :: ts := by
  cases t with
  | word letters => exact absurd rfl (h letters)
  | mark c => rfl
  | hidden c => rfl

/-- A character in front of a text that starts with no letter is a token of its own. -/
theorem before_startsApart {cs : List Char} (h : startsApart cs = true) (t : Token) (r : Region)
    (depth : Nat) : t.before (tokensFrom r depth cs) = t :: tokensFrom r depth cs := by
  cases cs with
  | nil => cases t <;> rfl
  | cons c cs =>
    have hc : c.isAlpha = false := by simpa [startsApart] using h
    rw [tokensFrom, Token.before_of_ne_word (tokenOf_ne_word hc)]
    have hne : ∀ letters, tokenOf r depth c ≠ .word letters := tokenOf_ne_word hc
    cases t with
    | word letters =>
      cases hu : tokenOf r depth c with
      | word more => exact absurd hu (hne more)
      | mark c => rfl
      | hidden c => rfl
    | mark c => rfl
    | hidden c => rfl

/-- Tokens are joined to their next neighbour alone. -/
theorem Token.before_append (t : Token) {ts : List Token} (h : ts ≠ []) (us : List Token) :
    t.before (ts ++ us) = t.before ts ++ us := by
  cases ts with
  | nil => exact absurd rfl h
  | cons u ts =>
    cases t with
    | word letters => cases u <;> rfl
    | mark c => rfl
    | hidden c => rfl

theorem tokensFrom_ne_nil (r : Region) (depth : Nat) (c : Char) (cs : List Char) :
    tokensFrom r depth (c :: cs) ≠ [] := by
  intro h
  have hchars := chars_tokensFrom r depth (c :: cs)
  rw [h] at hchars
  cases hchars

/-- What the guard remembers of a character is what the tokens depend on. -/
theorem step_state {g g' : Guard} {c : Char} (h : g.step c = some g') :
    g'.region = g.region.behind c ∧ g'.depth = levelBehind g.region g.depth c := by
  rw [Guard.step] at h
  rw [levelBehind]
  split at h
  · rename_i hcode
    split at h
    · cases h
    · obtain ⟨depth, hdepth, rfl⟩ := Option.map_eq_some_iff.mp h
      have hbehind : g.region.behind c = .outside := by simpa using (Bool.and_eq_true_iff.mp hcode).2
      exact ⟨hbehind.symm, by rw [if_pos hcode, hdepth]; rfl⟩
  · rename_i hcode
    cases h
    exact ⟨rfl, by rw [if_neg hcode]⟩

/-- Texts that are kept apart have the tokens of both. -/
theorem tokensFrom_append {g g' : Guard} {cs ds : List Char} (hrun : g.run cs = some g')
    (hapart : endsApart cs = true ∨ startsApart ds = true) :
    tokensFrom g.region g.depth (cs ++ ds) =
      tokensFrom g.region g.depth cs ++ tokensFrom g'.region g'.depth ds := by
  -- the texts meet at the last character of the first, which the induction leaves for its end
  induction cs generalizing g with
  | nil =>
    cases hrun
    rfl
  | cons c cs ih =>
    rw [Guard.run, Option.bind_eq_some_iff] at hrun
    obtain ⟨g₁, hstep, hrun⟩ := hrun
    obtain ⟨hregion, hdepth⟩ := step_state hstep
    rw [List.cons_append, tokensFrom, tokensFrom, ← hregion, ← hdepth]
    cases cs with
    | nil =>
      cases hrun
      rcases hapart with hends | hstarts
      · -- the last character is no letter
        have hc : c.isAlpha = false := by simpa [endsApart] using hends
        rw [Token.before_of_ne_word (tokenOf_ne_word hc), Token.before_of_ne_word (tokenOf_ne_word hc)]
        rfl
      · rw [List.nil_append, before_startsApart hstarts]
        cases tokenOf g.region g.depth c <;> rfl
    | cons c' cs =>
      have hrest : endsApart (c' :: cs) = true ∨ startsApart ds = true := by
        simpa [endsApart, List.getLast?_cons_cons] using hapart
      rw [ih hrun hrest, Token.before_append _ (tokensFrom_ne_nil _ _ _ _)]

/-! ## Texts that show nothing -/

/-- One level deeper, a character leads from and to one level deeper. -/
theorem depthBehind_succ {depth depth' : Nat} {c : Char} (h : depthBehind depth c = some depth') :
    depthBehind (depth + 1) c = some (depth' + 1) := by
  rw [depthBehind] at h ⊢
  split at h
  · rename_i hopen
    rw [if_pos hopen, ← Option.some.inj h]
  · rename_i hopen
    rw [if_neg hopen]
    split at h
    · rename_i hclose
      split at h
      · cases h
      · have heq := Option.some.inj h
        rw [if_pos hclose, if_neg (Nat.succ_ne_zero depth), Option.some.injEq]
        omega
    · rename_i hclose
      rw [if_neg hclose, Option.some.inj h]

/-- One level up, the guard comes to where it comes one level down. -/
theorem levelBehind_succ {g g' : Guard} {c : Char} (h : g.step c = some g') :
    levelBehind g.region (g.depth + 1) c = g'.depth + 1 := by
  rw [levelBehind]
  rw [Guard.step] at h
  split at h
  · rename_i hcode
    split at h
    · cases h
    · obtain ⟨depth, hdepth, rfl⟩ := Option.map_eq_some_iff.mp h
      rw [if_pos hcode, depthBehind_succ hdepth]
      rfl
  · rename_i hcode
    cases h
    rw [if_neg hcode]

/-- Inside of parentheses that it does not close itself, all of a text is hidden. -/
theorem tokensFrom_nested {g g' : Guard} {cs : List Char} (h : g.run cs = some g') :
    tokensFrom g.region (g.depth + 1) cs = cs.map .hidden := by
  -- a guard that does not stop closes nothing below its depth, so one level up depth zero is out of reach
  induction cs generalizing g with
  | nil => rfl
  | cons c cs ih =>
    rw [Guard.run, Option.bind_eq_some_iff] at h
    obtain ⟨g₁, hstep, hrun⟩ := h
    have hhidden : tokenOf g.region (g.depth + 1) c = .hidden c := by simp [tokenOf]
    rw [tokensFrom, hhidden, levelBehind_succ hstep, ← (step_state hstep).1, ih hrun]
    rfl

/-- No keyword is seen of what is hidden. -/
theorem clauseWords_hidden (cs : List Char) : clauseWords (cs.map .hidden) = [] := by
  induction cs with
  | nil => rfl
  | cons c cs ih => exact ih

theorem commas_hidden (cs : List Char) : commas (cs.map .hidden) = 0 := by
  rw [commas, List.count_eq_zero]
  simp

/-- A text without letters shows no keyword. -/
theorem clauseWords_letterless {cs : List Char} (h : ∀ c ∈ cs, c.isAlpha = false) (r : Region)
    (depth : Nat) : clauseWords (tokensFrom r depth cs) = [] := by
  induction cs generalizing r depth with
  | nil => rfl
  | cons c cs ih =>
    obtain ⟨hc, hcs⟩ := List.forall_mem_cons.mp h
    have hne : ∀ letters, tokenOf r depth c ≠ .word letters := tokenOf_ne_word hc
    have hnone : (tokenOf r depth c).clauseWord? = none := by
      cases ht : tokenOf r depth c with
      | word letters => exact absurd ht (hne letters)
      | mark c => rfl
      | hidden c => rfl
    rw [tokensFrom, Token.before_of_ne_word hne, clauseWords, List.filterMap_cons_none hnone]
    exact ih hcs _ _

/-- A text without commas shows none. -/
theorem commas_commaless {cs : List Char} (h : ',' ∉ cs) (r : Region) (depth : Nat) :
    commas (tokensFrom r depth cs) = 0 := by
  rw [commas, List.count_eq_zero]
  intro hmem
  have hchar : ',' ∈ (tokensFrom r depth cs).flatMap Token.chars :=
    List.mem_flatMap.mpr ⟨_, hmem, List.mem_singleton.mpr rfl⟩
  rw [chars_tokensFrom] at hchar
  exact h hchar

/-! ## Counting along concatenation -/

/-- A fragment with the keywords and the number of commas that it shows. -/
structure Shows (s : String) (ws : List String) (n : Nat) : Prop where
  fragment : Fragment s
  words : clauseWords (tokens s) = ws
  commas : commas (tokens s) = n

/-- A fragment that shows neither keywords nor commas. -/
abbrev Calm (s : String) : Prop := Shows s [] 0

/-- Texts that are kept apart have the tokens of both. -/
theorem tokens_append {s s' : String} (h : Fragment s)
    (hapart : endsApart s.toList = true ∨ startsApart s'.toList = true) :
    tokens (s ++ s') = tokens s ++ tokens s' := by
  rw [tokens, String.toList_append]
  exact tokensFrom_append (h 0) hapart

namespace Shows

variable {s s' : String} {ws ws' : List String} {n n' : Nat}

theorem empty : Calm "" := ⟨.empty, rfl, rfl⟩

/-- What two texts show adds up, as long as no word of theirs meets. -/
theorem append (h : Shows s ws n) (h' : Shows s' ws' n')
    (hapart : endsApart s.toList = true ∨ startsApart s'.toList = true) :
    Shows (s ++ s') (ws ++ ws') (n + n') where
  fragment := h.fragment.append h'.fragment
  words := by rw [tokens_append h.fragment hapart, clauseWords_append, h.words, h'.words]
  commas := by rw [tokens_append h.fragment hapart, commas_append, h.commas, h'.commas]

end Shows

/-- A fragment that keeps apart what stands on its two sides. -/
structure Separates (s : String) (ws : List String) (n : Nat) : Prop extends Shows s ws n where
  nonempty : s.toList ≠ []
  starts : startsApart s.toList = true
  ends : endsApart s.toList = true

/-- Two texts with a separator between them. -/
theorem Shows.around {s c s' : String} {ws wc ws' : List String} {n nc n' : Nat} (h : Shows s ws n)
    (hc : Separates c wc nc) (h' : Shows s' ws' n') :
    Shows (s ++ c ++ s') (ws ++ wc ++ ws') (n + nc + n') := by
  refine (h.append hc.toShows (.inr hc.starts)).append h' (.inl ?_)
  have hlast := List.getLast?_eq_some_getLast hc.nonempty
  have hends := hc.ends
  rw [endsApart, hlast] at hends
  rw [String.toList_append, endsApart, List.getLast?_append, hlast]
  exact hends

theorem separates_blank : Separates " " [] 0 :=
  ⟨⟨fragment_space, rfl, rfl⟩, List.cons_ne_nil _ _, rfl, rfl⟩

/-- A comma and a blank show one comma. -/
theorem separates_comma : Separates ", " [] 1 :=
  ⟨⟨fragment_comma, rfl, rfl⟩, List.cons_ne_nil _ _, rfl, rfl⟩

theorem separates_as : Separates " AS " [] 0 :=
  ⟨⟨fun _ => rfl, rfl, rfl⟩, List.cons_ne_nil _ _, rfl, rfl⟩

/-! ## Calm texts -/

/-- Of what stands in parentheses only the first of them is seen. -/
theorem Enclosable.tokens_parenthesized {s : String} (h : Enclosable s) :
    tokens ("(" ++ s ++ ")") = .mark '(' :: s.toList.map .hidden ++ [.hidden ')'] := by
  obtain ⟨p, hinner⟩ := h 0
  obtain ⟨p', hdeeper⟩ := h 1
  have hopen : tokensFrom .outside 0 ("(".toList ++ (s.toList ++ ")".toList)) =
      [.mark '('] ++ tokensFrom .outside 1 (s.toList ++ ")".toList) :=
    tokensFrom_append (g := .clean 0) (reads_open 0) (.inl rfl)
  have hclose : tokensFrom .outside 1 (s.toList ++ ")".toList) =
      tokensFrom .outside 1 s.toList ++ [.hidden ')'] :=
    tokensFrom_append (g := .clean 1) hdeeper (.inr rfl)
  have hhidden : tokensFrom .outside 1 s.toList = s.toList.map .hidden :=
    tokensFrom_nested (g := .clean 0) hinner
  rw [tokens, String.toList_append, String.toList_append, List.append_assoc, hopen, hclose, hhidden]
  rfl

/-- Parentheses hide whatever they hold. -/
theorem Enclosable.calm {s : String} (h : Enclosable s) : Calm ("(" ++ s ++ ")") where
  fragment := h.parenthesized
  words := by
    rw [h.tokens_parenthesized, clauseWords_append]
    exact congrArg (· ++ []) (clauseWords_hidden s.toList)
  commas := by
    have hinner := commas_hidden s.toList
    rw [h.tokens_parenthesized, commas_append]
    rw [commas] at hinner ⊢
    rw [List.count_cons_of_ne (by decide), hinner]
    rfl

namespace Region.QuotedBy

variable {r : Region} {q : Char} (h : r.QuotedBy q)
include h

/-- Nothing between quotes is code. -/
theorem isCode_inside (c : Char) : r.isCode c = false := by
  simp [Region.isCode, h.inside]

theorem isCode_opening : Region.outside.isCode q = false := by
  simp [Region.isCode, h.opens, h.inside]

/-- Inside of quotes, a text with its quotes doubled is hidden. -/
theorem tokensFrom_doubled (depth : Nat) (cs rest : List Char) :
    tokensFrom r depth (Text.doubled q cs ++ rest) =
      (Text.doubled q cs).map .hidden ++ tokensFrom r depth rest := by
  induction cs with
  | nil => rfl
  | cons c cs ih =>
    by_cases hc : c = q
    · -- out of the region and in again, and neither of the two quotes is code
      simp only [Text.doubled, hc, if_true, List.cons_append, tokensFrom, tokenOf, levelBehind,
        h.isCode_inside, h.isCode_opening, h.closes, h.opens, Bool.false_and, Bool.false_eq_true, if_false,
        ih, List.map_cons]
      rfl
    · simp only [Text.doubled, hc, if_false, List.cons_append, tokensFrom, tokenOf, levelBehind,
        h.isCode_inside, h.stays c hc, Bool.false_and, Bool.false_eq_true, ih, List.map_cons]
      rfl

/-- A quoted text is hidden as a whole. -/
theorem tokens_quoted (s : String) :
    tokens (Text.quoted q s) = (q :: (Text.doubled q s.toList ++ [q])).map .hidden := by
  rw [tokens, Text.quoted, String.toList_ofList]
  simp only [tokensFrom, tokenOf, levelBehind, h.isCode_opening, h.opens, h.tokensFrom_doubled,
    h.isCode_inside, Bool.false_and, Bool.false_eq_true, if_false, List.map_cons, List.map_append,
    List.map_nil]
  rfl

/-- Quoted texts show nothing, whatever they quote. -/
theorem calm_quoted (s : String) : Calm (Text.quoted q s) where
  fragment := h.fragment_quoted s
  words := by rw [h.tokens_quoted, clauseWords_hidden]
  commas := by rw [h.tokens_quoted, commas_hidden]

end Region.QuotedBy

theorem calm_quotedName (name : String) : Calm (Text.quotedName name) := name_quotedBy.calm_quoted name

theorem calm_quotedText (text : String) : Calm (Text.quotedText text) := text_quotedBy.calm_quoted text

/-- A text without letters and commas is calm. -/
theorem Fragment.calm {s : String} (h : Fragment s)
    (hchars : ∀ c ∈ s.toList, c.isAlpha = false ∧ c ≠ ',') : Calm s where
  fragment := h
  words := clauseWords_letterless (fun c hc => (hchars c hc).1) _ _
  commas := commas_commaless (fun hmem => (hchars _ hmem).2 rfl) _ _

/-- What is no letter stands below, between or above the two ranges of letters. -/
theorem isAlpha_eq_false_iff (c : Char) :
    c.isAlpha = false ↔ c.toNat < 65 ∨ (90 < c.toNat ∧ c.toNat < 97) ∨ 122 < c.toNat := by
  have hbounds : 'A'.val.toNat = 65 ∧ 'Z'.val.toNat = 90 ∧ 'a'.val.toNat = 97 ∧ 'z'.val.toNat = 122 :=
    ⟨rfl, rfl, rfl, rfl⟩
  change (decide ('A'.val ≤ c.val ∧ c.val ≤ 'Z'.val) ||
    decide ('a'.val ≤ c.val) && decide (c.val ≤ 'z'.val)) = false ↔ _
  simp only [Bool.or_eq_false_iff, Bool.and_eq_false_iff, decide_eq_false_iff_not,
    UInt32.le_iff_toNat_le, Char.toNat]
  omega

/-- The figures of numbers are no letters. -/
theorem isAlpha_of_isFigure {c : Char} (hc : Text.isFigure c = true) : c.isAlpha = false := by
  have hbounds : '0'.val.toNat = 48 ∧ '9'.val.toNat = 57 := ⟨rfl, rfl⟩
  simp only [Text.isFigure, Bool.or_eq_true, beq_iff_eq] at hc
  rcases hc with hc | rfl
  · simp only [Char.isDigit, Bool.and_eq_true, decide_eq_true_eq, ge_iff_le, UInt32.le_iff_toNat_le] at hc
    rw [isAlpha_eq_false_iff, Char.toNat]
    omega
  · rfl

/-- White space has no letters. -/
theorem isAlpha_of_isWhiteSpace {c : Char} (hc : Text.isWhiteSpace c = true) : c.isAlpha = false := by
  simp only [Text.isWhiteSpace, Bool.or_eq_true, Bool.and_eq_true, decide_eq_true_eq, beq_iff_eq] at hc
  rw [isAlpha_eq_false_iff]
  omega

theorem calm_numeral {s : String} (h : Text.IsNumeral s) : Calm s := by
  have hfigure : ∀ c, Text.isFigure c = true → c.isAlpha = false ∧ c ≠ ',' := by
    intro c hc
    refine ⟨isAlpha_of_isFigure hc, ?_⟩
    rintro rfl
    cases hc
  refine (fragment_numeral h).calm ?_
  obtain ⟨figures, -, hfigures, hs | hs⟩ := h
  · rw [hs]
    exact fun c hc => hfigure c (hfigures c hc)
  · rw [hs]
    exact List.forall_mem_cons.mpr ⟨⟨rfl, by decide⟩, fun c hc => hfigure c (hfigures c hc)⟩

/-- Literals show nothing: they are numbers, quoted texts or NULL. -/
theorem calm_literal (value : Literal) : Calm value.sql := by
  cases value with
  | null => exact ⟨fun _ => rfl, rfl, rfl⟩
  | bool b => cases b <;> exact ⟨fun _ => rfl, rfl, rfl⟩
  | int i => exact calm_numeral (Text.isNumeral_toString_int i.toInt)
  | float x => exact calm_numeral (Text.isNumeral_text x)
  | text s => exact calm_quotedText s

/-- The names of functions are no keywords of clauses. -/
theorem calm_function (function : SqlFunction) : Calm (Keyword.text function) := by
  cases function <;> exact ⟨fun _ => rfl, rfl, rfl⟩

theorem calm_dateUnit (unit : DateUnit) : Calm (Keyword.text unit) := by
  cases unit <;> exact ⟨fun _ => rfl, rfl, rfl⟩

theorem calm_direction (direction : Direction) : Calm (Keyword.text direction) := by
  cases direction <;> exact ⟨fun _ => rfl, rfl, rfl⟩

/-- The kinds of joins are no keywords of clauses, the word JOIN itself being written apart from them. -/
theorem calm_joinKind (kind : JoinKind) : Calm (Keyword.text kind) := by
  cases kind <;> exact ⟨fun _ => rfl, rfl, rfl⟩

/-- Calm texts with blanks between them. -/
theorem calm_joined {ss : List String} (h : ∀ s ∈ ss, Calm s) : Calm (Text.joined " " ss) := by
  induction ss with
  | nil => exact .empty
  | cons s ss ih =>
    obtain ⟨hs, hss⟩ := List.forall_mem_cons.mp h
    cases ss with
    | nil => exact hs
    | cons t rest => exact hs.around separates_blank (ih hss)

/-- Calm texts with commas between them show those commas. -/
theorem shows_listed {ss : List String} (h : ∀ s ∈ ss, Calm s) :
    Shows (Text.joined ", " ss) [] (ss.length - 1) := by
  induction ss with
  | nil => exact .empty
  | cons s ss ih =>
    obtain ⟨hs, hss⟩ := List.forall_mem_cons.mp h
    cases ss with
    | nil => exact hs
    | cons t rest =>
      have hrest := hs.around separates_comma (ih hss)
      have hcount : 0 + 1 + ((t :: rest).length - 1) = (s :: t :: rest).length - 1 := by
        simp only [List.length_cons]
        omega
      exact hcount ▸ hrest

/-! ## Trees -/

/-- What can stand in parentheses is a fragment once a blank follows. -/
theorem Enclosable.spaced {s : String} (h : Enclosable s) : Fragment (s ++ " ") := by
  intro d
  obtain ⟨p, hs⟩ := h d
  exact hs.append (reads_blank d p)

/-- Two operands with an operator between them, in parentheses. -/
theorem calm_infixed {left operation right : String} (hleft : Fragment left)
    (hoperation : Enclosable operation) (hright : Fragment right) :
    Calm ("(" ++ left ++ " " ++ operation ++ " " ++ right ++ ")") := by
  have hinner := ((hleft.append fragment_space).append hoperation.spaced).append hright
  have heq : "(" ++ left ++ " " ++ operation ++ " " ++ right ++ ")" =
      "(" ++ (left ++ " " ++ (operation ++ " ") ++ right) ++ ")" := by
    simp only [String.append_assoc]
  rw [heq]
  exact hinner.enclosable.calm

/-- Targets of known entities are calm, and statements can stand in parentheses. -/
structure Surfaces (k : Known) : Prop where
  target : ∀ {target : Alias}, k.aliased target → Calm target.body.target
  statement : ∀ {query : StoredQuery}, k.query query → Enclosable query.body.statement

variable {k : Known} (hk : Surfaces k)
include hk

/-- Entities that are calm on the surface can be embedded. -/
theorem Surfaces.embeds : Embeds k := ⟨fun h => (hk.target h).fragment, hk.statement⟩

/-- Every condition but an alias stands in parentheses as a whole. -/
theorem calm_cond (c : Sql.Cond) (h : c.Uses k) : Calm c.render := by
  have hand : Fragment " AND " := fun _ => rfl
  have hbetween : Fragment "BETWEEN " := fun _ => rfl
  have hexists : Fragment "EXISTS " := fun _ => rfl
  have hin : Fragment "IN " := fun _ => rfl
  have his : Fragment " IS " := fun _ => rfl
  have hnot : Fragment "NOT " := fun _ => rfl
  have hnull : Fragment "NULL" := fun _ => rfl
  have hopenNot : "(NOT " = "(" ++ "NOT " := rfl
  have hopenIn : "IN (" = "IN " ++ "(" := rfl
  have hopenExists : "EXISTS (" = "EXISTS " ++ "(" := rfl
  have hcloseNull : "NULL)" = "NULL" ++ ")" := rfl
  have hcloseBoth : "))" = ")" ++ ")" := rfl
  -- each condition but an alias is in parentheses, and so hides whatever it holds
  cases c with
  | negation operand =>
    have hinner := hnot.append (fragment_cond hk.embeds operand h)
    have heq : (Sql.Cond.negation operand).render = "(" ++ ("NOT " ++ operand.render) ++ ")" := by
      simp only [Sql.Cond.render, hopenNot, String.append_assoc]
    rw [heq]
    exact hinner.enclosable.calm
  | connective left operation right =>
    rw [Sql.Cond.render]
    exact calm_infixed (fragment_cond hk.embeds left h.1) (fragment_connective operation).enclosable
      (fragment_cond hk.embeds right h.2)
  | comparison left operation right =>
    rw [Sql.Cond.render]
    exact calm_infixed (fragment_expr hk.embeds left h.1) (fragment_comparison operation).enclosable
      (fragment_expr hk.embeds right h.2)
  | between value lower upper negated =>
    have hinner := (((((fragment_expr hk.embeds value h.1).append fragment_space).append
      (fragment_notText negated)).append hbetween).append
      (fragment_expr hk.embeds lower h.2.1)).append hand |>.append
      (fragment_expr hk.embeds upper h.2.2)
    have heq : (Sql.Cond.between value lower upper negated).render = "(" ++ (value.render ++ " " ++
        Sql.notText negated ++ "BETWEEN " ++ lower.render ++ " AND " ++ upper.render) ++ ")" := by
      simp only [Sql.Cond.render, String.append_assoc]
    rw [heq]
    exact hinner.enclosable.calm
  | isNull value negated =>
    have hinner := (((fragment_expr hk.embeds value h).append his).append
      (fragment_notText negated)).append hnull
    have heq : (Sql.Cond.isNull value negated).render = "(" ++ (value.render ++ " IS " ++
        Sql.notText negated ++ "NULL") ++ ")" := by
      simp only [Sql.Cond.render, hcloseNull, String.append_assoc]
    rw [heq]
    exact hinner.enclosable.calm
  | member value source negated =>
    have hinner := ((((fragment_expr hk.embeds value h.1).append fragment_space).append
      (fragment_notText negated)).append hin).append
      (enclosable_memberSource hk.embeds source h.2).parenthesized
    have heq : (Sql.Cond.member value source negated).render = "(" ++ (value.render ++ " " ++
        Sql.notText negated ++ "IN " ++ ("(" ++ source.render ++ ")")) ++ ")" := by
      simp only [Sql.Cond.render, hopenIn, hcloseBoth, String.append_assoc]
    rw [heq]
    exact hinner.enclosable.calm
  | existence query negated =>
    have hinner := ((fragment_notText negated).append hexists).append
      (Enclosable.parenthesized (hk.statement h))
    have heq : (Sql.Cond.existence query negated).render = "(" ++ (Sql.notText negated ++
        "EXISTS " ++ ("(" ++ query.body.statement ++ ")")) ++ ")" := by
      simp only [Sql.Cond.render, hopenExists, hcloseBoth, String.append_assoc]
    rw [heq]
    exact hinner.enclosable.calm
  | aliased target => exact hk.target h.1

theorem calm_scalar {s : Sql.ScalarSubquery} (h : k.Scalar s) : Calm s.render :=
  (enclosable_scalar hk.embeds h).calm

-- inside the induction the hypothesis is used by the calls of the other cases only
set_option linter.unusedSectionVars false

mutual

/-- Values show nothing.  The induction follows the tree, with an alias as its only leaf that is not
    known in full. -/
theorem calm_expr : ∀ e : Sql.Expr, e.Uses k → Calm e.render
  | .literal value, _ => calm_literal value
  | .binary left operation right, ⟨hleft, hright⟩ => by
    rw [Sql.Expr.render]
    exact calm_infixed (fragment_expr hk.embeds left hleft) (enclosable_arithmetic operation)
      (fragment_expr hk.embeds right hright)
  | .call function args, hargs => by
    have hlist := fragment_joined fragment_comma (fragment_args hk.embeds args hargs)
    -- the parenthesis keeps the name of the function from joining what follows
    have hstarts : startsApart ("(" ++ Text.joined ", " (Sql.renderArgs args) ++ ")").toList = true := by
      rw [String.toList_append, String.toList_append]
      rfl
    have heq : (Sql.Expr.call function args).render =
        Keyword.text function ++ ("(" ++ Text.joined ", " (Sql.renderArgs args) ++ ")") := by
      simp only [Sql.Expr.render, String.append_assoc]
    rw [heq]
    exact (calm_function function).append hlist.enclosable.calm (.inr hstarts)
  | .interval value unit, _ => by
    have hword : Calm "INTERVAL " := ⟨fun _ => rfl, rfl, rfl⟩
    have hvalue := calm_numeral (Text.isNumeral_toString_int value.toInt)
    rw [Sql.Expr.render]
    exact (hword.append hvalue (.inl rfl)).around separates_blank (calm_dateUnit unit)
  | .conditional branches otherwise, ⟨hbranches, hotherwise⟩ => by
    have hcase : Calm "CASE " := ⟨fun _ => rfl, rfl, rfl⟩
    have helse : Separates " ELSE " [] 0 := ⟨⟨fun _ => rfl, rfl, rfl⟩, List.cons_ne_nil _ _, rfl, rfl⟩
    have hend : Calm " END" := ⟨fun _ => rfl, rfl, rfl⟩
    have hlist := calm_joined (calm_branches branches hbranches)
    rw [Sql.Expr.render]
    exact ((hcase.append hlist (.inl rfl)).around helse (calm_expr otherwise hotherwise)).append hend
      (.inr rfl)
  | .column table column, _ => by
    have hpoint : Separates "." [] 0 := ⟨⟨fun _ => rfl, rfl, rfl⟩, List.cons_ne_nil _ _, rfl, rfl⟩
    rw [Sql.Expr.render]
    exact (calm_quotedName table).around hpoint (calm_quotedName column)
  | .aliased _, htarget => hk.target htarget.1
  | .subquery _, hscalar => calm_scalar hk hscalar

theorem calm_branches : ∀ bs : List Sql.Branch, Sql.usesBranches k bs →
    ∀ s ∈ Sql.renderBranches bs, Calm s
  | [], _ => fun _ h => absurd h List.not_mem_nil
  | .mk condition result :: bs, ⟨⟨hcondition, hresult⟩, hbs⟩ => by
    have hwhen : Calm "WHEN " := ⟨fun _ => rfl, rfl, rfl⟩
    have hthen : Separates " THEN " [] 0 := ⟨⟨fun _ => rfl, rfl, rfl⟩, List.cons_ne_nil _ _, rfl, rfl⟩
    refine List.forall_mem_cons.mpr ⟨?_, calm_branches bs hbs⟩
    rw [Sql.Branch.render]
    exact (hwhen.append (calm_cond hk condition hcondition) (.inl rfl)).around hthen
      (calm_expr result hresult)

end

/-! ## Clauses -/

/-- A source shows nothing: it is a table's target or a statement in parentheses. -/
theorem calm_source {s : Sql.Source} (h : s.Uses k) : Calm s.render := by
  have hcloseAs : ") AS " = ")" ++ " AS " := rfl
  cases s with
  | table target => exact hk.target h.1
  | subquery query =>
    have hstatement : Enclosable query.body.statement := hk.statement h
    rw [Sql.Source.render, hcloseAs, ← String.append_assoc]
    exact hstatement.calm.around separates_as (calm_quotedName query.body.name)

/-- An item shows nothing, its name being quoted. -/
theorem calm_selectItem {i : Sql.SelectItem} (h : i.Uses k) : Calm i.render := by
  cases i with
  | aliased target => exact (hk.target h.1).around separates_as (calm_quotedName target.body.name)
  | subquery s => exact (calm_scalar hk h).around separates_as (calm_quotedName s.query.body.name)

/-- A select list shows a comma between each two of its items. -/
theorem shows_items {items : List Sql.SelectItem} (h : ∀ i ∈ items, i.Uses k) :
    Shows (Sql.Columns.list items).render [] (items.length - 1) := by
  have hitems : ∀ s ∈ items.map Sql.SelectItem.render, Calm s :=
    List.forall_mem_map.mpr fun i hi => calm_selectItem hk (h i hi)
  have hlist := shows_listed hitems
  rw [List.length_map] at hlist
  exact hlist

/-- Columns show commas at most. -/
theorem shows_columns {c : Sql.Columns} (h : c.Uses k) : ∃ n, Shows c.render [] n := by
  cases c with
  | all => exact ⟨0, fun _ => rfl, rfl, rfl⟩
  | list items => exact ⟨_, shows_items hk h⟩

/-- A join shows its keyword alone. -/
theorem shows_join {j : Sql.Join} (h : j.Uses k) : Shows j.render ["JOIN"] 0 := by
  have hjoin : Separates " JOIN " ["JOIN"] 0 :=
    ⟨⟨fun _ => rfl, rfl, rfl⟩, List.cons_ne_nil _ _, rfl, rfl⟩
  have hon : Separates " ON " [] 0 := ⟨⟨fun _ => rfl, rfl, rfl⟩, List.cons_ne_nil _ _, rfl, rfl⟩
  exact ((calm_joinKind j.kind).around hjoin (calm_source hk h.1)).around hon
    (calm_cond hk j.condition h.2)

omit hk in
/-- The keyword of a clause that may be absent. -/
def wordIf {α : Type} (clause : Option α) (word : String) : List String :=
  if clause.isSome then [word] else []

/-- The head of a statement shows its keywords, with the one of the join where there is a join. -/
theorem shows_select {s : Sql.Select} (h : s.Uses k) :
    ∃ n, Shows s.render (["SELECT", "FROM"] ++ wordIf s.join "JOIN") n := by
  have hselect : Shows "SELECT " ["SELECT"] 0 := ⟨fun _ => rfl, rfl, rfl⟩
  have hfrom : Separates " FROM " ["FROM"] 0 :=
    ⟨⟨fun _ => rfl, rfl, rfl⟩, List.cons_ne_nil _ _, rfl, rfl⟩
  obtain ⟨hsource, hjoin, hcolumns⟩ := h
  obtain ⟨n, hlist⟩ := shows_columns hk hcolumns
  have hplain := (hselect.append hlist (.inl rfl)).around hfrom (calm_source hk hsource)
  rw [Sql.Select.render]
  cases hj : s.join with
  | none => exact ⟨_, hplain.append .empty (.inr rfl)⟩
  | some j =>
    have hjoined := hplain.around separates_blank (shows_join hk (hjoin j hj))
    rw [String.append_assoc] at hjoined
    exact ⟨_, hjoined⟩

theorem shows_filter {c : Sql.Cond} (h : c.Uses k) : ∃ n, Shows (Sql.renderFilter c) ["WHERE"] n := by
  have hwhere : Shows "WHERE " ["WHERE"] 0 := ⟨fun _ => rfl, rfl, rfl⟩
  exact ⟨_, hwhere.append (calm_cond hk c h) (.inl rfl)⟩

theorem calm_exprs {es : List Sql.Expr} (h : Sql.usesExprs k es) : ∀ s ∈ Sql.renderExprs es, Calm s := by
  induction es with
  | nil => exact fun _ hmem => absurd hmem List.not_mem_nil
  | cons e es ih => exact List.forall_mem_cons.mpr ⟨calm_expr hk e h.1, ih h.2⟩

/-- A grouping shows its keyword, and a comma between any two values. -/
theorem shows_groups {es : List Sql.Expr} (h : Sql.usesExprs k es) :
    ∃ n, Shows (Sql.renderGroups es) ["GROUP"] n := by
  have hgroup : Shows "GROUP BY " ["GROUP"] 0 := ⟨fun _ => rfl, rfl, rfl⟩
  exact ⟨_, hgroup.append (shows_listed (calm_exprs hk h)) (.inl rfl)⟩

theorem shows_having {c : Sql.Cond} (h : c.Uses k) : ∃ n, Shows (Sql.renderHaving c) ["HAVING"] n := by
  have hhaving : Shows "HAVING " ["HAVING"] 0 := ⟨fun _ => rfl, rfl, rfl⟩
  exact ⟨_, hhaving.append (calm_cond hk c h) (.inl rfl)⟩

/-- An order shows its keyword, and a comma between any two items. -/
theorem shows_order {items : List Sql.OrderItem} (h : ∀ item ∈ items, item.operand.Uses k) :
    ∃ n, Shows (Sql.renderOrder items) ["ORDER"] n := by
  have horder : Shows "ORDER BY " ["ORDER"] 0 := ⟨fun _ => rfl, rfl, rfl⟩
  have hitems : ∀ s ∈ items.map Sql.OrderItem.render, Calm s :=
    List.forall_mem_map.mpr fun item hitem =>
      (calm_expr hk item.operand (h item hitem)).around separates_blank (calm_direction item.direction)
  exact ⟨_, horder.append (shows_listed hitems) (.inl rfl)⟩

omit hk in
theorem shows_limit (limit : Input.Limit) : ∃ n, Shows (Sql.renderLimit limit) ["LIMIT"] n := by
  have hlimit : Shows "LIMIT " ["LIMIT"] 0 := ⟨fun _ => rfl, rfl, rfl⟩
  have hoffset : Separates " OFFSET " [] 0 :=
    ⟨⟨fun _ => rfl, rfl, rfl⟩, List.cons_ne_nil _ _, rfl, rfl⟩
  exact ⟨_, (hlimit.append (calm_numeral (Text.isNumeral_toString_nat _)) (.inl rfl)).around hoffset
    (calm_numeral (Text.isNumeral_toString_nat _))⟩

omit hk in
/-- An absent clause shows nothing, so the keyword goes with the clause. -/
theorem shows_optional {α : Type} {render : α → String} {a : Option α} {word : String}
    (h : ∀ x ∈ a, ∃ n, Shows (render x) [word] n) :
    ∃ n, Shows ((a.map render).getD "") (wordIf a word) n := by
  cases a with
  | none => exact ⟨0, .empty⟩
  | some x => exact h x rfl

omit hk in
/-- One more text in front of others that are joined. -/
theorem shows_joined_cons {s : String} {ss : List String} {ws ws' : List String} {n n' : Nat}
    (h : Shows s ws n) (h' : Shows (Text.joined " " ss) ws' n') :
    ∃ m, Shows (Text.joined " " (s :: ss)) (ws ++ ws') m := by
  cases ss with
  | nil =>
    -- nothing follows, so no keyword does
    have hnone : ws' = [] := h'.words.symm
    rw [hnone, List.append_nil]
    exact ⟨n, h⟩
  | cons t rest =>
    have hjoined := h.around separates_blank h'
    rw [List.append_nil] at hjoined
    exact ⟨_, hjoined⟩

omit hk in
/-- Leaving out empty texts leaves out no keyword. -/
theorem shows_filtered {ss : List String} {wss : List (List String)}
    (h : List.Forall₂ (fun s ws => ∃ n, Shows s ws n) ss wss) :
    ∃ n, Shows (Text.joined " " (ss.filter fun s => !s.isEmpty)) wss.flatten n := by
  induction h with
  | nil => exact ⟨0, .empty⟩
  | @cons s ws ss wss hs _ ih =>
    obtain ⟨n, hs⟩ := hs
    obtain ⟨n', hrest⟩ := ih
    rw [List.flatten_cons]
    cases hempty : s.isEmpty with
    | true =>
      have hs' : s = "" := String.isEmpty_iff.mp hempty
      subst hs'
      -- an empty clause shows nothing, and is not joined
      have hnone : ws = [] := hs.words.symm
      rw [hnone, List.nil_append, List.filter_cons_of_neg (by simp)]
      exact ⟨n', hrest⟩
    | false =>
      rw [List.filter_cons_of_pos (by simp [hempty])]
      exact shows_joined_cons hs hrest

end QueryCatalog.Statement
