/-
  The limit at the end of a text, and texts without one.

  LIMIT n and OFFSET m are two parts of one form, a word, blanks and digits (`IsPart`), and a limit is
  the first of them or both, with blanks behind (`limitHere?_iff`).  Two facts follow.  A text with a
  limit at its end has a T, blanks and digits there (`LimitShaped`); a text that ends in anything else
  has none (`Unlimited.trailingLimit?_eq_none`).  And no L stands in a limit behind its first letter
  (`foldCase_ne_l`), so that a limit is not mistaken for the rest of one that starts earlier: the search
  from left to right finds the limit at the end exactly if there is one (`limitFrom?_iff`).
-/
import QueryCatalog.Proofs.Numeral
import QueryCatalog.Proofs.StatementBody

namespace QueryCatalog.Statement

/-! ## Characters -/

/-- The code points of the blanks. -/
def blankCodes : List Nat :=
  [ 0x09, 0x0A, 0x0B, 0x0C, 0x0D, 0x20, 0x85, 0xA0, 0x1680, 0x2000, 0x2001, 0x2002, 0x2003, 0x2004,
    0x2005, 0x2006, 0x2007, 0x2008, 0x2009, 0x200A, 0x2028, 0x2029, 0x202F, 0x205F, 0x3000 ]

/-- There are no blanks but those. -/
theorem toNat_mem_blankCodes {c : Char} (h : Text.isWhiteSpace c = true) : c.toNat ∈ blankCodes := by
  simp only [Text.isWhiteSpace, Bool.or_eq_true, Bool.and_eq_true, decide_eq_true_iff,
    beq_iff_eq] at h
  simp only [blankCodes, List.mem_cons, List.not_mem_nil, or_false]
  omega

theorem foldCase_of_blank {c : Char} (h : Text.isWhiteSpace c = true) : foldCase c = c := by
  have hcodes : ∀ n ∈ blankCodes, foldCase (Char.ofNat n) = Char.ofNat n := by decide +kernel
  rw [← Char.ofNat_toNat c]
  exact hcodes _ (toNat_mem_blankCodes h)

/-- No digit of any script is a blank. -/
theorem isWhiteSpace_of_digit {c : Char} (h : Text.isDecimalDigit c = true) :
    Text.isWhiteSpace c = false := by
  have hcodes : ∀ n ∈ blankCodes, Text.isDecimalDigit (Char.ofNat n) = false := by decide +kernel
  cases hblank : Text.isWhiteSpace c with
  | false => rfl
  | true =>
    rw [← Char.ofNat_toNat c, hcodes _ (toNat_mem_blankCodes hblank)] at h
    exact absurd h Bool.false_ne_true

/-- A letter that is folded to no blank is none. -/
theorem isWhiteSpace_of_foldCase {c : Char} (h : Text.isWhiteSpace (foldCase c) = false) :
    Text.isWhiteSpace c = false := by
  cases hblank : Text.isWhiteSpace c with
  | false => rfl
  | true =>
    rw [foldCase_of_blank hblank, hblank] at h
    exact h

theorem foldCase_ne_l_of_blank {c : Char} (h : Text.isWhiteSpace c = true) : foldCase c ≠ 'l' := by
  rw [foldCase_of_blank h]
  rintro rfl
  exact absurd h (by decide)

/-- No digit is an L, in any script. -/
theorem foldCase_ne_l_of_digit {c : Char} (h : Text.isDecimalDigit c = true) : foldCase c ≠ 'l' := by
  intro hfold
  rw [foldCase] at hfold
  split at hfold
  · exact absurd hfold (by decide)
  · delta Char.toLower at hfold
    split at hfold
    · have hval : c.val + ('a'.val - 'A'.val) = 'L'.val + ('a'.val - 'A'.val) :=
        congrArg Char.val hfold
      cases Char.ext ((UInt32.add_left_inj _).mp hval)
      exact absurd h (by decide)
    · cases hfold
      exact absurd h (by decide)

/-- The ten digits of the numbers are among the decimal digits. -/
theorem isDecimalDigit_of_isDigit {c : Char} (h : c.isDigit = true) :
    Text.isDecimalDigit c = true := by
  rw [Char.isDigit, Bool.and_eq_true, decide_eq_true_iff, decide_eq_true_iff] at h
  have hascii : c.toNat < 0x80 := Nat.lt_of_le_of_lt (UInt32.le_iff_toNat_le.mp h.2) (by decide)
  rw [Text.isDecimalDigit, if_pos hascii, Bool.and_eq_true, decide_eq_true_iff, decide_eq_true_iff]
  exact h

/-! ## The parts of a limit -/

/-- A row of at least one character of a class. -/
structure IsRun (p : Char → Bool) (cs : List Char) : Prop where
  ne_nil : cs ≠ []
  all : ∀ c ∈ cs, p c = true

/-- A word in any case, blanks, and a number. -/
structure IsPart (w : List Char) (cs rows : List Char) : Prop where
  split : ∃ word blanks, cs = word ++ (blanks ++ rows) ∧ word.map foldCase = w ∧
    IsRun Text.isWhiteSpace blanks
  rows : IsRun Text.isDecimalDigit rows

/-- What is read over by a word is that word, in some case. -/
theorem afterWord?_some {w cs rest : List Char} (h : afterWord? w cs = some rest) :
    ∃ word, cs = word ++ rest ∧ word.map foldCase = w := by
  induction w generalizing cs with
  | nil =>
    cases h
    exact ⟨[], rfl, rfl⟩
  | cons x w ih =>
    cases cs with
    | nil => cases h
    | cons c cs =>
      rw [afterWord?] at h
      split at h
      · rename_i hc
        obtain ⟨word, rfl, hword⟩ := ih h
        exact ⟨c :: word, rfl, by rw [List.map_cons, hc, hword]⟩
      · cases h

theorem afterBlanks?_some {cs rest : List Char} (h : afterBlanks? cs = some rest) :
    ∃ blanks, cs = blanks ++ rest ∧ IsRun Text.isWhiteSpace blanks := by
  cases cs with
  | nil => cases h
  | cons c cs =>
    rw [afterBlanks?] at h
    split at h
    · rename_i hc
      cases h
      refine ⟨c :: cs.takeWhile Text.isWhiteSpace, ?_, List.cons_ne_nil _ _, ?_⟩
      · rw [List.cons_append, Text.dropBlanks, List.takeWhile_append_dropWhile]
      · exact List.forall_mem_cons.mpr ⟨hc, List.all_eq_true.mp List.all_takeWhile⟩
    · cases h

/-- A number is read up to its end, and is a row of digits. -/
theorem number?_some {cs rows rest : List Char} (h : number? cs = some (rows, rest)) :
    cs = rows ++ rest ∧ IsRun Text.isDecimalDigit rows := by
  rw [number?] at h
  split at h
  · cases h
  · rename_i hne
    cases h
    exact ⟨List.takeWhile_append_dropWhile.symm, hne, List.all_eq_true.mp List.all_takeWhile⟩

/-- A word, blanks and a number that are read one after the other are a part. -/
theorem isPart_of_read {w cs cs₁ cs₂ rows rest : List Char} (hword : afterWord? w cs = some cs₁)
    (hblanks : afterBlanks? cs₁ = some cs₂) (hnumber : number? cs₂ = some (rows, rest)) :
    ∃ part, cs = part ++ rest ∧ IsPart w part rows := by
  obtain ⟨word, rfl, hfold⟩ := afterWord?_some hword
  obtain ⟨blanks, rfl, hrun⟩ := afterBlanks?_some hblanks
  obtain ⟨rfl, hrows⟩ := number?_some hnumber
  exact ⟨word ++ (blanks ++ rows), by simp, ⟨word, blanks, rfl, hfold, hrun⟩, hrows⟩

/-- Blanks, the part for the offset, and blanks. -/
theorem isOffset_spec {cs : List Char} (h : isOffset cs = true) :
    ∃ blanks part rows trailing, cs = blanks ++ (part ++ trailing) ∧
      IsRun Text.isWhiteSpace blanks ∧ IsPart "offset".toList part rows ∧
      ∀ c ∈ trailing, Text.isWhiteSpace c = true := by
  simp only [isOffset, Option.getD_eq_iff, Bool.false_eq_true, and_false, or_false,
    Option.bind_eq_some_iff, Option.map_eq_some_iff] at h
  obtain ⟨cs₁, hblanks, cs₂, hword, cs₃, hblanks', ⟨rows, trailing⟩, hnumber, htrailing⟩ := h
  obtain ⟨blanks, rfl, hrun⟩ := afterBlanks?_some hblanks
  obtain ⟨part, rfl, hpart⟩ := isPart_of_read hword hblanks' hnumber
  exact ⟨blanks, part, rows, trailing, rfl, hrun, hpart, List.all_eq_true.mp htrailing⟩

/-- A limit is its own part, alone or with the part for the offset, and blanks. -/
theorem limitHere?_spec {cs rows : List Char} (h : limitHere? cs = some rows) :
    ∃ part tail, cs = part ++ tail ∧ IsPart "limit".toList part rows ∧
      ((∀ c ∈ tail, Text.isWhiteSpace c = true) ∨ isOffset tail = true) := by
  simp only [limitHere?, Option.bind_eq_bind, Option.bind_eq_some_iff] at h
  obtain ⟨cs₁, hword, cs₂, hblanks, ⟨rows', tail⟩, hnumber, h⟩ := h
  obtain ⟨part, rfl, hpart⟩ := isPart_of_read hword hblanks hnumber
  simp only [Option.ite_none_right_eq_some, Bool.or_eq_true, Option.some.injEq] at h
  obtain ⟨htail, rfl⟩ := h
  exact ⟨part, tail, rfl, hpart, htail.imp_left List.all_eq_true.mp⟩

/-! ## Texts without a limit -/

/-- A text splits in one way only at the last character of a class. -/
theorem last_split_unique {p : Char → Bool} {xs xs' ys ys' : List Char} {a a' : Char}
    (h : xs ++ a :: ys = xs' ++ a' :: ys') (ha : p a = true) (ha' : p a' = true)
    (hys : ∀ c ∈ ys, p c = false) (hys' : ∀ c ∈ ys', p c = false) : xs = xs' ∧ a = a' ∧ ys = ys' := by
  rcases List.append_eq_append_iff.mp h with ⟨zs, rfl, hzs⟩ | ⟨zs, rfl, hzs⟩
  · -- one of the two marks would stand in the other's tail
    cases zs with
    | nil =>
      cases hzs
      exact ⟨by simp, rfl, rfl⟩
    | cons z zs =>
      cases hzs
      exact absurd ha' (by simp [hys a' (by simp)])
  · cases zs with
    | nil =>
      cases hzs
      exact ⟨by simp, rfl, rfl⟩
    | cons z zs =>
      cases hzs
      exact absurd ha (by simp [hys' a (by simp)])

/-- What a text with a limit at its end looks like there: a T, blanks, digits and blanks. -/
structure LimitShaped (cs : List Char) : Prop where
  split : ∃ front t blanks digits trailing, cs = front ++ t :: (blanks ++ (digits ++ trailing)) ∧
    foldCase t = 't' ∧ IsRun Text.isWhiteSpace blanks ∧ IsRun Text.isDecimalDigit digits ∧
    ∀ c ∈ trailing, Text.isWhiteSpace c = true

/-- Blanks behind it do not change the shape. -/
theorem LimitShaped.append_blanks {cs more : List Char} (h : LimitShaped cs)
    (hmore : ∀ c ∈ more, Text.isWhiteSpace c = true) : LimitShaped (cs ++ more) := by
  obtain ⟨front, t, blanks, digits, trailing, rfl, ht, hblanks, hdigits, htrailing⟩ := h
  exact ⟨front, t, blanks, digits, trailing ++ more, by simp, ht, hblanks, hdigits,
    List.forall_mem_append.mpr ⟨htrailing, hmore⟩⟩

/-- Only the end of a text has a shape. -/
theorem LimitShaped.append_left {cs : List Char} (h : LimitShaped cs) (front : List Char) :
    LimitShaped (front ++ cs) := by
  obtain ⟨front', t, blanks, digits, trailing, rfl, hrest⟩ := h
  exact ⟨front ++ front', t, blanks, digits, trailing, by simp, hrest⟩

/-- Both words end in a T. -/
theorem IsPart.limitShaped {w cs rows : List Char} (h : IsPart (w ++ ['t']) cs rows) :
    LimitShaped cs := by
  obtain ⟨⟨word, blanks, rfl, hword, hblanks⟩, hrows⟩ := h
  obtain ⟨front, last, rfl, -, hlast⟩ := List.map_eq_append_iff.mp hword
  obtain ⟨t, rest, rfl, ht, hrest⟩ := List.map_eq_cons_iff.mp hlast
  cases List.map_eq_nil_iff.mp hrest
  exact ⟨front, t, blanks, rows, [], by simp, ht, hblanks, hrows, fun _ h => absurd h List.not_mem_nil⟩

/-- A limit has the shape: its last part ends in a T of LIMIT or of OFFSET, blanks and digits. -/
theorem limitShaped_of_limitHere? {cs rows : List Char} (h : limitHere? cs = some rows) :
    LimitShaped cs := by
  obtain ⟨part, tail, rfl, hpart, hblank | hoffset⟩ := limitHere?_spec h
  · exact (IsPart.limitShaped (w := "limi".toList) hpart).append_blanks hblank
  · obtain ⟨blanks, offset, rows', trailing, rfl, -, hpart', htrailing⟩ := isOffset_spec hoffset
    have hshaped := (IsPart.limitShaped (w := "offse".toList) hpart').append_blanks htrailing
    exact (hshaped.append_left blanks).append_left part

/-- A limit that is found in the text stands at its end. -/
theorem limitShaped_of_trailingLimit? {cs rows : List Char} (h : trailingLimit? cs = some rows) :
    LimitShaped cs := by
  have hfrom : ∀ before, limitFrom? before cs = some rows → LimitShaped cs := by
    clear h
    induction cs with
    | nil => exact fun _ h => by cases h
    | cons c cs ih =>
      intro before h
      rw [limitFrom?] at h
      split at h
      · rename_i hhere
        exact limitShaped_of_limitHere? hhere
      · exact (ih _ h).append_left [c]
  exact hfrom none h

/-- Ends of texts that are no limits: a character that is neither a digit nor a blank, blanks aside; or
    one word behind a single blank, where the character in front of that blank is no T. -/
inductive Unlimited : List Char → Prop
  | mark {front blanks : List Char} {c : Char} (hdigit : Text.isDecimalDigit c = false)
    (hblank : Text.isWhiteSpace c = false) (hblanks : ∀ c ∈ blanks, Text.isWhiteSpace c = true) :
    Unlimited (front ++ c :: blanks)
  | word {front word : List Char} {c : Char} (hfold : foldCase c ≠ 't')
    (hblank : Text.isWhiteSpace c = false) (hword : IsRun (fun c => !Text.isWhiteSpace c) word) :
    Unlimited (front ++ c :: ' ' :: word)

/-- None of these ends has the shape of a limit.  The last character that is no blank tells them
    apart, or the one in front of the last word. -/
theorem Unlimited.not_limitShaped {cs : List Char} (h : Unlimited cs) : ¬ LimitShaped cs := by
  rintro ⟨front', t, blanks', digits, trailing, hcs, ht, hblanks', hdigits, htrailing⟩
  -- split at the last character that is no blank, which is a digit
  obtain ⟨ds, d, rfl⟩ := (List.eq_nil_or_concat digits).resolve_left hdigits.ne_nil
  have hd : Text.isDecimalDigit d = true := hdigits.all d (by simp)
  have hsplit : cs = (front' ++ t :: (blanks' ++ ds)) ++ d :: trailing := by simp [hcs]
  cases h with
  | mark hdigit hblank hblanks =>
    obtain ⟨-, rfl, -⟩ := last_split_unique (p := fun c => !Text.isWhiteSpace c) hsplit
      (by simp [hblank]) (by simp [isWhiteSpace_of_digit hd]) (by simpa using hblanks)
      (by simpa using htrailing)
    exact absurd hd (by simp [hdigit])
  | @word front word c hfold hblank hword =>
    obtain ⟨ws, x, rfl⟩ := (List.eq_nil_or_concat word).resolve_left hword.ne_nil
    have hend : (front ++ c :: ' ' :: ws) ++ x :: [] =
        (front' ++ t :: (blanks' ++ ds)) ++ d :: trailing := by simpa using hsplit
    obtain ⟨hrest, -, -⟩ := last_split_unique (p := fun c => !Text.isWhiteSpace c) hend
      (hword.all x (by simp)) (by simp [isWhiteSpace_of_digit hd]) (by simp)
      (by simpa using htrailing)
    -- then at the last blank, and then at what stands in front of the blanks
    obtain ⟨bs, b, rfl⟩ := (List.eq_nil_or_concat blanks').resolve_left hblanks'.ne_nil
    have hgap : (front ++ [c]) ++ ' ' :: ws = (front' ++ t :: bs) ++ b :: ds := by simpa using hrest
    obtain ⟨hleft, -, -⟩ := last_split_unique (p := Text.isWhiteSpace) hgap (by decide)
      (hblanks'.all b (by simp)) (fun y hy => by simpa using hword.all y (by simp [hy]))
      (fun y hy => isWhiteSpace_of_digit (hdigits.all y (by simp [hy])))
    have htblank : Text.isWhiteSpace t = false := isWhiteSpace_of_foldCase (by rw [ht]; decide)
    obtain ⟨-, rfl, -⟩ := last_split_unique (p := fun c => !Text.isWhiteSpace c) hleft
      (by simp [hblank]) (by simp [htblank]) (by simp)
      (fun y hy => by simp [hblanks'.all y (by simp [hy])])
    exact hfold ht

/-- Trimmed, a text with such an end has no limit. -/
theorem Unlimited.trailingLimit?_eq_none {cs : List Char} (h : Unlimited cs) :
    trailingLimit? (Text.dropEndBlanks cs) = none := by
  cases hlimit : trailingLimit? (Text.dropEndBlanks cs) with
  | none => rfl
  | some rows =>
    obtain ⟨-, blanks, hcs, hblanks⟩ := Text.dropEndBlanks_spec cs
    have hshaped := (limitShaped_of_trailingLimit? hlimit).append_blanks hblanks
    rw [← hcs] at hshaped
    exact absurd hshaped h.not_limitShaped

/-! ## Written limits -/

/-- In a part for a word without an L there is none. -/
theorem IsPart.foldCase_ne_l {w cs rows : List Char} (h : IsPart w cs rows) (hw : 'l' ∉ w) :
    ∀ c ∈ cs, foldCase c ≠ 'l' := by
  obtain ⟨⟨word, blanks, rfl, rfl, hblanks⟩, hrows⟩ := h
  intro c hc
  simp only [List.mem_append] at hc
  rcases hc with hc | hc | hc
  · intro hl
    exact hw (List.mem_map.mpr ⟨c, hc, hl⟩)
  · exact foldCase_ne_l_of_blank (hblanks.all c hc)
  · exact foldCase_ne_l_of_digit (hrows.all c hc)

/-- In a limit, no L stands behind the first letter. -/
theorem foldCase_ne_l {c : Char} {cs rows : List Char} (h : limitHere? (c :: cs) = some rows) :
    ∀ d ∈ cs, foldCase d ≠ 'l' := by
  obtain ⟨part, tail, hcs, ⟨⟨word, blanks, rfl, hword, hblanks⟩, hrows⟩, htail⟩ := limitHere?_spec h
  have htail' : ∀ d ∈ tail, foldCase d ≠ 'l' := by
    rcases htail with hblank | hoffset
    · exact fun d hd => foldCase_ne_l_of_blank (hblank d hd)
    · obtain ⟨gap, offset, rows', trailing, rfl, hgap, hoffset', htrailing⟩ := isOffset_spec hoffset
      simp only [List.forall_mem_append]
      exact ⟨fun d hd => foldCase_ne_l_of_blank (hgap.all d hd), hoffset'.foldCase_ne_l (by decide),
        fun d hd => foldCase_ne_l_of_blank (htrailing d hd)⟩
  -- without its first letter, the part of the limit is one for the rest of its word
  obtain ⟨first, rest, rfl, -, hrest⟩ := List.map_eq_cons_iff.mp hword
  cases hcs
  have hbehind : IsPart "imit".toList (rest ++ (blanks ++ rows)) rows :=
    ⟨⟨rest, blanks, rfl, hrest, hblanks⟩, hrows⟩
  exact List.forall_mem_append.mpr ⟨hbehind.foldCase_ne_l (by decide), htail'⟩

/-! ## Reading a limit back -/

/-- A word is read over in whatever case it is written. -/
theorem afterWord?_append (word rest : List Char) :
    afterWord? (word.map foldCase) (word ++ rest) = some rest := by
  induction word with
  | nil => cases rest <;> rfl
  | cons c word ih =>
    rw [List.map_cons, List.cons_append, afterWord?, if_pos rfl]
    exact ih

/-- Blanks are read over as far as they go. -/
theorem afterBlanks?_append {blanks rest : List Char} (hblanks : IsRun Text.isWhiteSpace blanks)
    (hrest : ∀ c ∈ rest.head?, Text.isWhiteSpace c = false) :
    afterBlanks? (blanks ++ rest) = some rest := by
  have hdrop : Text.dropBlanks rest = rest := by
    cases rest with
    | nil => rfl
    | cons c rest => exact List.dropWhile_cons_of_neg (by simp [hrest c rfl])
  cases blanks with
  | nil => exact absurd rfl hblanks.ne_nil
  | cons b blanks =>
    obtain ⟨hb, hbs⟩ := List.forall_mem_cons.mp hblanks.all
    rw [List.cons_append, afterBlanks?, if_pos hb, Text.dropBlanks, List.dropWhile_append_of_pos hbs]
    exact congrArg some hdrop

/-- A number is read as far as its digits go. -/
theorem number?_append {ds : List Char} (hds : IsRun Text.isDecimalDigit ds) (rest : List Char)
    (hrest : ∀ c ∈ rest.head?, Text.isDecimalDigit c = false) :
    number? (ds ++ rest) = some (ds, rest) := by
  have hstop : rest.takeWhile Text.isDecimalDigit = [] ∧ rest.dropWhile Text.isDecimalDigit = rest := by
    cases rest with
    | nil => exact ⟨rfl, rfl⟩
    | cons c rest =>
      have hc := hrest c rfl
      exact ⟨List.takeWhile_cons_of_neg (by simp [hc]), List.dropWhile_cons_of_neg (by simp [hc])⟩
  rw [number?, List.takeWhile_append_of_pos hds.all, List.dropWhile_append_of_pos hds.all, hstop.1,
    hstop.2, List.append_nil]
  cases ds with
  | nil => exact absurd rfl hds.ne_nil
  | cons d ds => rfl

/-- What starts with a run starts with a character of its class. -/
theorem IsRun.head {p : Char → Bool} {run : List Char} (h : IsRun p run) (rest : List Char) :
    ∀ c ∈ (run ++ rest).head?, p c = true := by
  cases run with
  | nil => exact absurd rfl h.ne_nil
  | cons d run =>
    rintro _ ⟨⟩
    exact h.all d List.mem_cons_self

/-- A part is read as its word, its blanks and its number, unless the number goes on behind it. -/
theorem IsPart.read {w part rows : List Char} (h : IsPart w part rows) {rest : List Char}
    (hrest : ∀ c ∈ rest.head?, Text.isDecimalDigit c = false) :
    ∃ cs₁ cs₂, afterWord? w (part ++ rest) = some cs₁ ∧ afterBlanks? cs₁ = some cs₂ ∧
      number? cs₂ = some (rows, rest) := by
  obtain ⟨⟨word, blanks, rfl, rfl, hblanks⟩, hrows⟩ := h
  refine ⟨blanks ++ (rows ++ rest), rows ++ rest, ?_, ?_, number?_append hrows rest hrest⟩
  · rw [List.append_assoc, List.append_assoc]
    exact afterWord?_append word _
  · refine afterBlanks?_append hblanks fun c hc => ?_
    exact isWhiteSpace_of_digit (hrows.head rest c hc)

/-- What may stand behind the row count of a limit: blanks, or an offset and blanks. -/
inductive LimitTail : List Char → Prop
  | blank {tail : List Char} (htail : ∀ c ∈ tail, Text.isWhiteSpace c = true) : LimitTail tail
  | offset {gap part rows trailing : List Char} (hgap : IsRun Text.isWhiteSpace gap)
    (hpart : IsPart "offset".toList part rows)
    (htrailing : ∀ c ∈ trailing, Text.isWhiteSpace c = true) :
    LimitTail (gap ++ (part ++ trailing))

theorem isDecimalDigit_of_blank {c : Char} (h : Text.isWhiteSpace c = true) :
    Text.isDecimalDigit c = false := by
  cases hdigit : Text.isDecimalDigit c with
  | false => rfl
  | true =>
    rw [isWhiteSpace_of_digit hdigit] at h
    cases h

/-- Behind the row count no further digit follows. -/
theorem LimitTail.head_not_digit {tail : List Char} (h : LimitTail tail) :
    ∀ c ∈ tail.head?, Text.isDecimalDigit c = false := by
  intro c hc
  cases h with
  | blank htail => exact isDecimalDigit_of_blank (htail c (List.mem_of_mem_head? hc))
  | offset hgap _ _ => exact isDecimalDigit_of_blank (hgap.head _ c hc)

/-- The part of an offset starts with its O, and so with no blank. -/
theorem offset_head_not_blank {part rows : List Char} (h : IsPart "offset".toList part rows)
    (rest : List Char) : ∀ c ∈ (part ++ rest).head?, Text.isWhiteSpace c = false := by
  obtain ⟨⟨word, blanks, rfl, hword, -⟩, -⟩ := h
  obtain ⟨o, word, rfl, ho, -⟩ := List.map_eq_cons_iff.mp hword
  rintro _ ⟨⟩
  exact isWhiteSpace_of_foldCase (by rw [ho]; decide)

/-- Blanks, an offset and blanks are taken for an offset. -/
theorem isOffset_of_parts {gap part rows trailing : List Char} (hgap : IsRun Text.isWhiteSpace gap)
    (hpart : IsPart "offset".toList part rows)
    (htrailing : ∀ c ∈ trailing, Text.isWhiteSpace c = true) :
    isOffset (gap ++ (part ++ trailing)) = true := by
  have hend : ∀ c ∈ trailing.head?, Text.isDecimalDigit c = false := fun c hc =>
    isDecimalDigit_of_blank (htrailing c (List.mem_of_mem_head? hc))
  obtain ⟨cs₁, cs₂, hword, hblanks, hnumber⟩ := hpart.read hend
  have hfirst := afterBlanks?_append hgap (offset_head_not_blank hpart trailing)
  rw [isOffset, hfirst, Option.bind_some, hword, Option.bind_some, hblanks, Option.bind_some, hnumber]
  exact List.all_eq_true.mpr htrailing

/-- The two checks behind a row count accept exactly its possible tails. -/
theorem limitTail_iff {tail : List Char} :
    LimitTail tail ↔ (isBlank tail || isOffset tail) = true := by
  rw [Bool.or_eq_true]
  constructor
  · intro h
    cases h with
    | blank htail => exact .inl (List.all_eq_true.mpr htail)
    | offset hgap hpart htrailing => exact .inr (isOffset_of_parts hgap hpart htrailing)
  · rintro (hblank | hoffset)
    · exact .blank (List.all_eq_true.mp hblank)
    · obtain ⟨gap, part, rows, trailing, rfl, hgap, hpart, htrailing⟩ := isOffset_spec hoffset
      exact .offset hgap hpart htrailing

/-- A limit starts here exactly if its part and its tail stand here. -/
theorem limitHere?_iff {cs rows : List Char} :
    limitHere? cs = some rows ↔
      ∃ part tail, cs = part ++ tail ∧ IsPart "limit".toList part rows ∧ LimitTail tail := by
  constructor
  · intro h
    obtain ⟨part, tail, rfl, hpart, hblank | hoffset⟩ := limitHere?_spec h
    · exact ⟨part, tail, rfl, hpart, .blank hblank⟩
    · exact ⟨part, tail, rfl, hpart, limitTail_iff.mpr (by rw [hoffset, Bool.or_true])⟩
  · rintro ⟨part, tail, rfl, hpart, htail⟩
    obtain ⟨cs₁, cs₂, hword, hblanks, hnumber⟩ := hpart.read htail.head_not_digit
    simp only [limitHere?, Option.bind_eq_bind, hword, hblanks, hnumber, Option.bind_some,
      limitTail_iff.mp htail, if_true]

/-! ## The limit at the end -/

/-- Behind the character `before`, the text ends in a limit of this row count, and the limit starts a
    word. -/
structure EndsLimited (before : Option Char) (cs rows : List Char) : Prop where
  split : ∃ front part tail, cs = front ++ (part ++ tail) ∧
    (∀ c ∈ front.getLast?.or before, Text.isWordCharacter c = false) ∧
    IsPart "limit".toList part rows ∧ LimitTail tail

/-- A limit at the end of a text is at its end with one more character in front. -/
theorem EndsLimited.cons {c : Char} {cs rows : List Char} (h : EndsLimited (some c) cs rows)
    (before : Option Char) : EndsLimited before (c :: cs) rows := by
  obtain ⟨front, part, tail, rfl, hfront, hpart, htail⟩ := h
  refine ⟨c :: front, part, tail, rfl, ?_, hpart, htail⟩
  cases hlast : front.getLast? with
  | none => simpa [List.getLast?_cons, hlast] using hfront
  | some d => simpa [List.getLast?_cons, hlast] using hfront

/-- No limit starts in front of an L. -/
theorem limitFrom?_cons {c l : Char} {cs : List Char} (hmem : l ∈ cs) (hl : foldCase l = 'l')
    (before : Option Char) : limitFrom? before (c :: cs) = limitFrom? (some c) cs := by
  rw [limitFrom?]
  split
  · rename_i hhere
    exact absurd hl (foldCase_ne_l hhere l hmem)
  · rfl

/-- So the search goes on to each L. -/
theorem limitFrom?_append {l : Char} {cs : List Char} (hl : foldCase l = 'l') (front : List Char)
    (before : Option Char) :
    limitFrom? before (front ++ l :: cs) = limitFrom? (front.getLast?.or before) (l :: cs) := by
  induction front generalizing before with
  | nil => rfl
  | cons c front ih =>
    rw [List.cons_append, limitFrom?_cons (List.mem_append_right _ List.mem_cons_self) hl, ih]
    congr 1
    cases hlast : front.getLast? with
    | none => simp [List.getLast?_cons, hlast]
    | some d => simp [List.getLast?_cons, hlast]

/-- The search gives a row count exactly if the text ends in a limit of that count, whatever else
    stands in the text. -/
theorem limitFrom?_iff {before : Option Char} {cs rows : List Char} :
    limitFrom? before cs = some rows ↔ EndsLimited before cs rows := by
  constructor
  · intro h
    induction cs generalizing before with
    | nil => cases h
    | cons c cs ih =>
      rw [limitFrom?] at h
      split at h
      · rename_i rows' hhere
        split at h
        · exact (ih h).cons before
        · rename_i hbefore
          cases h
          obtain ⟨part, tail, hcs, hpart, htail⟩ := limitHere?_iff.mp hhere
          refine ⟨[], part, tail, hcs, ?_, hpart, htail⟩
          rintro d hd
          have hd : before = some d := hd
          simpa [hd] using hbefore
      · exact (ih h).cons before
  · rintro ⟨front, part, tail, rfl, hfront, hpart, htail⟩
    have hhere : limitHere? (part ++ tail) = some rows :=
      limitHere?_iff.mpr ⟨part, tail, rfl, hpart, htail⟩
    obtain ⟨⟨word, blanks, rfl, hword, -⟩, -⟩ := hpart
    obtain ⟨l, rest, rfl, hl, -⟩ := List.map_eq_cons_iff.mp hword
    -- the search comes to the L of the limit, and there the character in front is no part of a word
    have hplain : (front.getLast?.or before).any Text.isWordCharacter = false := by
      cases hlast : front.getLast?.or before with
      | none => rfl
      | some c => exact hfront c hlast
    rw [List.cons_append, List.cons_append] at hhere ⊢
    rw [limitFrom?_append hl, limitFrom?, hhere, hplain]
    rfl

/-! ## Written limits -/

theorem isRun_blank : IsRun Text.isWhiteSpace [' '] :=
  ⟨List.cons_ne_nil _ _, List.forall_mem_singleton.mpr rfl⟩

theorem isRun_toDigits (n : Nat) : IsRun Text.isDecimalDigit (Nat.toDigits 10 n) :=
  ⟨Nat.toDigits_ne_nil, fun _ hc =>
    isDecimalDigit_of_isDigit (Nat.isDigit_of_mem_toDigits (by omega) (Nat.le_refl 10) hc)⟩

/-- A text that ends in digits has no blanks to trim. -/
theorem IsRun.isTrimmed {ds : List Char} (h : IsRun Text.isDecimalDigit ds) (front : List Char) :
    Text.IsTrimmed (front ++ ds) := by
  obtain ⟨ds, d, rfl⟩ := (List.eq_nil_or_concat ds).resolve_left h.ne_nil
  rw [List.concat_eq_append] at h ⊢
  intro c hc
  rw [← List.append_assoc, List.getLast?_concat] at hc
  cases hc
  exact isWhiteSpace_of_digit (h.all d (by simp))

/-- A word, a blank and the digits of a number are a part. -/
theorem isPart_written (word : String) {w : List Char} (hw : word.toList.map foldCase = w) (n : Nat) :
    IsPart w (word.toList ++ ([' '] ++ Nat.toDigits 10 n)) (Nat.toDigits 10 n) :=
  ⟨⟨word.toList, [' '], rfl, hw, isRun_blank⟩, isRun_toDigits n⟩

/-- The characters of a limit as it is written. -/
def limitChars (rows offset : Nat) : List Char :=
  "LIMIT ".toList ++ (Nat.toDigits 10 rows ++ (" OFFSET ".toList ++ Nat.toDigits 10 offset))

/-- A limit behind a blank at the end of a text is found, whatever stands in front of it. -/
theorem trailingLimit?_written (front : List Char) (rows offset : Nat) :
    trailingLimit? (front ++ ' ' :: limitChars rows offset) = some (Nat.toDigits 10 rows) := by
  have hrows := isPart_written "LIMIT" (w := "limit".toList) (by decide) rows
  have hoffset := isPart_written "OFFSET" (w := "offset".toList) (by decide) offset
  have htail : LimitTail ([' '] ++ (("OFFSET".toList ++ ([' '] ++ Nat.toDigits 10 offset)) ++ [])) :=
    .offset isRun_blank hoffset fun _ h => absurd h List.not_mem_nil
  refine limitFrom?_iff.mpr ⟨front ++ [' '], _, _, ?_, ?_, hrows, htail⟩
  · rw [List.append_nil, List.append_assoc, List.append_assoc]
    rfl
  · intro c hc
    rw [List.getLast?_concat] at hc
    cases hc
    decide

/-! ## A row count of one -/

/-- A digit is known by its value. -/
theorem digit_eq {c : Char} (hc : c.isDigit = true) (d : Char) (hd : d.isDigit = true)
    (h : c.toNat - '0'.toNat = d.toNat - '0'.toNat) : c = d := by
  have hbound : ∀ e : Char, e.isDigit = true → '0'.toNat ≤ e.toNat := by
    intro e he
    rw [Char.isDigit, Bool.and_eq_true, decide_eq_true_iff] at he
    exact UInt32.le_iff_toNat_le.mp he.1
  have hc := hbound c hc
  have hd := hbound d hd
  have hnat : c.toNat = d.toNat := by omega
  exact Char.toNat_inj.mp hnat

/-- Digits that are worth nothing are zeros. -/
theorem eq_zero_of_ofDigitChars {ds : List Char} (hds : ∀ c ∈ ds, c.isDigit = true)
    (h : Nat.ofDigitChars 10 ds 0 = 0) : ∀ c ∈ ds, c = '0' := by
  induction ds with
  | nil => exact fun _ hc => absurd hc List.not_mem_nil
  | cons d ds ih =>
    obtain ⟨hd, hds⟩ := List.forall_mem_cons.mp hds
    rw [Nat.ofDigitChars_cons, Nat.ofDigitChars_eq_ofDigitChars_zero] at h
    obtain ⟨hfirst, hrest⟩ := Nat.add_eq_zero_iff.mp h
    have hworth : d.toNat - '0'.toNat = 0 := by
      rcases Nat.mul_eq_zero.mp hfirst with hpow | hsum
      · exact absurd hpow (Nat.pos_iff_ne_zero.mp (Nat.pow_pos (by omega)))
      · omega
    exact List.forall_mem_cons.mpr ⟨digit_eq hd '0' rfl hworth, ih hds hrest⟩

/-- A row count says one if it is written in ASCII digits and they are worth one. -/
theorem isOne_iff {rows : List Char} :
    isOne rows = true ↔ (∀ c ∈ rows, c.isDigit = true) ∧ Nat.ofDigitChars 10 rows 0 = 1 := by
  constructor
  · intro h
    rw [isOne] at h
    split at h
    · rename_i zeros hback
      have hrows : rows = zeros.reverse ++ ['1'] := by
        rw [← List.reverse_reverse rows, hback, List.reverse_cons]
      have hzeros : zeros.reverse = List.replicate zeros.length '0' := by
        refine List.eq_replicate_iff.mpr ⟨List.length_reverse, fun c hc => ?_⟩
        exact beq_iff_eq.mp (List.all_eq_true.mp h c (List.mem_reverse.mp hc))
      rw [hrows, hzeros]
      constructor
      · refine List.forall_mem_append.mpr ⟨fun c hc => ?_, List.forall_mem_singleton.mpr rfl⟩
        rw [List.eq_of_mem_replicate hc]
        rfl
      · rw [Nat.ofDigitChars_append, Nat.ofDigitChars_replicate_zero]
        rfl
    · cases h
  · rintro ⟨hdigits, hvalue⟩
    rcases List.eq_nil_or_concat rows with rfl | ⟨ds, d, rfl⟩
    · cases hvalue
    · rw [List.concat_eq_append] at hdigits hvalue ⊢
      obtain ⟨hds, hd⟩ := List.forall_mem_append.mp hdigits
      have hd := hd d List.mem_cons_self
      rw [Nat.ofDigitChars_append, Nat.ofDigitChars_cons, Nat.ofDigitChars_nil] at hvalue
      -- all but the last digit count tenfold
      have hzero : Nat.ofDigitChars 10 ds 0 = 0 := by omega
      have hone : d = '1' := by
        refine digit_eq hd '1' rfl ?_
        show d.toNat - '0'.toNat = 1
        omega
      rw [hone, isOne, List.reverse_append]
      refine List.all_eq_true.mpr fun c hc => beq_iff_eq.mpr ?_
      exact eq_zero_of_ofDigitChars hds hzero c (List.mem_reverse.mp hc)

/-- The digits of a number say one if the number is one. -/
theorem isOne_toDigits (n : Nat) : isOne (Nat.toDigits 10 n) = true ↔ n = 1 := by
  rw [isOne_iff, Nat.ofDigitChars_ten_toDigits]
  refine and_iff_right fun c hc => ?_
  exact Nat.isDigit_of_mem_toDigits (by omega) (Nat.le_refl 10) hc

end QueryCatalog.Statement
