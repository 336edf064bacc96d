/-
  A flat record that is written is read again as it was.

  A flat record is an object of texts, truth values and whole numbers of 64 bits.  The proof follows
  the writer: what it escapes is read back piece by piece (`readText?_string`), a number ends where no
  digit follows (`readNumber?_toString`), and a row of members is read one after the other, each up to
  the comma or the brace behind it (`readMembers_written`).  Every reader is stated with the text that
  follows, so that the pieces can be put together.
-/
import QueryCatalog.Document.Reader
import QueryCatalog.Document.Written

namespace QueryCatalog.Doc

/-! ## Strings -/

/-- The hexadecimal digit of a number below 16 has that value. -/
theorem hexDigit?_hexDigit {n : Nat} (h : n < 16) : hexDigit? (Written.hexDigit n) = some n := by
  have hall : ∀ k, k < 16 → hexDigit? (Written.hexDigit k) = some k := by decide
  exact hall n h

/-- A control character is the unit that its last two hexadecimal digits say. -/
theorem hexUnit?_control {n : Nat} (h : n < 0x20) (rest : Source) :
    hexUnit? (some '0' :: some '0' :: some (Written.hexDigit (n / 16)) ::
      some (Written.hexDigit (n % 16)) :: rest) = some (n, rest) := by
  have hzero : hexDigit? '0' = some 0 := by decide
  have hhigh := hexDigit?_hexDigit (n := n / 16) (by omega)
  have hlow := hexDigit?_hexDigit (n := n % 16) (by omega)
  have hsum : n / 16 * 16 + n % 16 = n := by omega
  simp [hexUnit?, hzero, hhigh, hlow, hsum]

/-- A character that needs no escape is a piece of its own. -/
theorem nextPiece?_plain {c : Char} (hquote : c ≠ '"') (hback : c ≠ '\\') (hc : 0x20 ≤ c.toNat)
    (rest : Source) : nextPiece? (some c :: rest) = some (.char c, rest) := by
  have hcontrol : ¬ c.toNat < 0x20 := by omega
  unfold nextPiece?
  split <;> simp_all

/-- What a character is escaped to is one piece of a string: that character. -/
theorem nextPiece?_escaped (c : Char) (rest : Source) :
    nextPiece? ((Written.escaped c).map some ++ rest) = some (.char c, rest) := by
  unfold Written.escaped
  split
  -- the seven short escapes
  all_goals try rfl
  rename_i hquote hback _ _ _ _ _
  by_cases hc : c.toNat < 0x20
  · have hunit := hexUnit?_control hc rest
    have hhigh : isHighHalf c.toNat = false := by simp [isHighHalf]; omega
    have hlow : isLowHalf c.toNat = false := by simp [isLowHalf]; omega
    simp [hc, nextPiece?, hunit, hhigh, hlow, Char.ofNat_toNat]
  · have hplain := nextPiece?_plain hquote hback (by omega) rest
    simpa [hc] using hplain

/-- Escaped characters are read back, up to the closing quote. -/
theorem readChars_escaped (cs : List Char) : ∀ (fuel : Nat) (rest : Source), cs.length < fuel →
    readChars fuel ((cs.flatMap Written.escaped).map some ++ some '"' :: rest) =
      some (some cs, rest) := by
  induction cs with
  | nil =>
    intro fuel rest h
    obtain ⟨k, rfl⟩ : ∃ k, fuel = k + 1 := ⟨fuel - 1, by simp at h; omega⟩
    rfl
  | cons c cs ih =>
    intro fuel rest h
    obtain ⟨k, rfl⟩ : ∃ k, fuel = k + 1 := ⟨fuel - 1, by simp at h; omega⟩
    have hpiece := nextPiece?_escaped c
      ((cs.flatMap Written.escaped).map some ++ some '"' :: rest)
    have hrest := ih k rest (by simp at h; omega)
    rw [List.flatMap_cons, List.map_append, List.append_assoc]
    simp only [readChars, hpiece, hrest, Option.map_some]

/-- Escaping makes no text shorter. -/
theorem length_le_flatMap_escaped (cs : List Char) :
    cs.length ≤ (cs.flatMap Written.escaped).length := by
  induction cs with
  | nil => simp
  | cons c cs ih =>
    have hone : 1 ≤ (Written.escaped c).length := by
      unfold Written.escaped
      split <;> try simp
      split <;> simp
    simp only [List.flatMap_cons, List.length_append, List.length_cons]
    omega

/-- A string is read back behind its opening quote. -/
theorem readText?_string (s : String) (rest : Source) :
    readText? ((s.toList.flatMap Written.escaped).map some ++ some '"' :: rest) =
      some (some s, rest) := by
  have hlength := length_le_flatMap_escaped s.toList
  have hread := readChars_escaped s.toList
    (((s.toList.flatMap Written.escaped).map some ++ some '"' :: rest).length + 1) rest
    (by simp only [List.length_append, List.length_map, List.length_cons]; omega)
  rw [readText?, hread]
  simp

/-! ## Numbers -/

/-- The text ends a number: neither a digit nor a point nor an exponent follows. -/
def EndsNumber : Source → Prop
  | some c :: _ => isDigit c = false ∧ c ≠ '.' ∧ c ≠ 'e' ∧ c ≠ 'E'
  | _ => True

/-- Where a number ends there is no further digit. -/
theorem digitRow_of_endsNumber {rest : Source} (h : EndsNumber rest) :
    digitRow rest = ([], rest) := by
  unfold digitRow
  split
  · rename_i c cs
    simp [h.1]
  · rfl

/-- A row of digits is read whole when no digit follows. -/
theorem digitRow_append {ds : List Char} (hds : ∀ c ∈ ds, isDigit c = true) {rest : Source}
    (hrest : EndsNumber rest) : digitRow (ds.map some ++ rest) = (ds, rest) := by
  induction ds with
  | nil => exact digitRow_of_endsNumber hrest
  | cons d ds ih =>
    have htail := ih (fun c hc => hds c (List.mem_cons_of_mem d hc))
    have hhead := hds d List.mem_cons_self
    simp [digitRow, hhead, htail]

/-- The digits of a number are ASCII digits. -/
theorem isDigit_toDigits {n : Nat} {c : Char} (h : c ∈ Nat.toDigits 10 n) : isDigit c = true := by
  have hdigit := Nat.isDigit_of_mem_toDigits (by omega) (Nat.le_refl 10) h
  simpa [isDigit, Char.isDigit, UInt32.le_iff_toNat_le, Char.le_def] using hdigit

/-- The digits of a number are worth that number. -/
theorem digitsValue_toDigits (n : Nat) : digitsValue (Nat.toDigits 10 n) = n := by
  have hvalue : ∀ (ds : List Char) (k : Nat), ds.foldl withDigit k = Nat.ofDigitChars 10 ds k := by
    intro ds
    induction ds with
    | nil => intro k; rfl
    | cons d ds ih => intro k; rw [List.foldl_cons, ih, withDigit, Nat.ofDigitChars_cons, Nat.mul_comm]
  rw [digitsValue, hvalue, Nat.ofDigitChars_ten_toDigits]

/-- More digits make a number no smaller. -/
theorem le_foldl_withDigit (ds : List Char) (n : Nat) : n ≤ ds.foldl withDigit n := by
  induction ds generalizing n with
  | nil => exact Nat.le_refl n
  | cons d ds ih =>
    have hstep : n ≤ withDigit n d := by
      unfold withDigit
      omega
    exact Nat.le_trans hstep (ih (withDigit n d))

/-- All digits of a number that fits 64 bits are gathered. -/
theorem gathered_of_fits {ds : List Char} {n : Nat}
    (h : ds.foldl withDigit n < 0x10000000000000000) :
    gathered n ds = (ds.foldl withDigit n, []) := by
  induction ds generalizing n with
  | nil => rfl
  | cons d ds ih =>
    -- the number only grows, so it fits all the way
    have hfits : withDigit n d < 0x10000000000000000 :=
      Nat.lt_of_le_of_lt (le_foldl_withDigit ds (withDigit n d)) h
    rw [gathered, if_pos hfits]
    exact ih h

/-- No number but zero starts with the digit zero. -/
theorem head?_toDigits_ne_zero {n : Nat} (h : 0 < n) : (Nat.toDigits 10 n).head? ≠ some '0' := by
  induction n using Nat.strongRecOn with
  | ind n ih =>
    rw [Nat.toDigits_eq_if (by omega)]
    split
    · rename_i hsmall
      have hall : ∀ k, k < 10 → 0 < k → [Nat.digitChar k].head? ≠ some '0' := by decide
      exact hall n hsmall h
    · have hhead := ih (n / 10) (by omega) (by omega)
      cases hds : Nat.toDigits 10 (n / 10) with
      | nil => exact absurd hds Nat.toDigits_ne_nil
      | cons d ds =>
        rw [hds] at hhead
        exact hhead

/-- The whole part of a number is read as it was written. -/
theorem wholeDigits?_toDigits (n : Nat) {rest : Source} (hrest : EndsNumber rest) :
    wholeDigits? ((Nat.toDigits 10 n).map some ++ rest) = some (Nat.toDigits 10 n, rest) := by
  rcases Nat.eq_zero_or_pos n with hzero | hpos
  · subst hzero
    simp [Nat.toDigits_zero, wholeDigits?, digitRow_of_endsNumber hrest]
  · have hrow := digitRow_append (fun c hc => isDigit_toDigits (n := n) hc) hrest
    -- a number other than zero has no zero in front, which could not be followed by digits
    have hhead := head?_toDigits_ne_zero hpos
    cases hds : Nat.toDigits 10 n with
    | nil => exact absurd hds Nat.toDigits_ne_nil
    | cons d ds =>
      rw [hds] at hrow hhead
      have hd : d ≠ '0' := by simpa using hhead
      simp only [List.map_cons, List.cons_append] at hrow ⊢
      unfold wholeDigits?
      split
      · rename_i heq
        simp only [List.cons.injEq, Option.some.injEq] at heq
        exact absurd heq.1 hd
      · simp [digits?, hrow]

/-- Where a number ends no fraction follows. -/
theorem fractionDigits?_of_endsNumber {rest : Source} (h : EndsNumber rest) :
    fractionDigits? rest = some (none, rest) := by
  unfold fractionDigits?
  split
  · exact absurd rfl h.2.1
  · rfl

/-- Nor does an exponent. -/
theorem exponent?_of_endsNumber {rest : Source} (h : EndsNumber rest) :
    exponent? rest = some (none, rest) := by
  unfold exponent?
  split
  · rename_i c cs
    have hc : (c == 'e' || c == 'E') = false := by simp [h.2.2.1, h.2.2.2]
    simp [hc]
  · rfl

/-- A number of 64 bits whose sign has been read. -/
theorem readUnsigned?_toDigits (negative : Bool) {n : Nat} (hn : n < 0x10000000000000000)
    {rest : Source} (hrest : EndsNumber rest) :
    readUnsigned? negative ((Nat.toDigits 10 n).map some ++ rest) =
      some (ofWhole negative n, rest) := by
  have hwhole := wholeDigits?_toDigits n hrest
  have hfraction := fractionDigits?_of_endsNumber hrest
  have hexponent := exponent?_of_endsNumber hrest
  -- no digit is left over, since the number fits
  have hgathered : gathered 0 (Nat.toDigits 10 n) = (n, []) := by
    have hvalue : (Nat.toDigits 10 n).foldl withDigit 0 = n := digitsValue_toDigits n
    rw [gathered_of_fits (by rwa [hvalue]), hvalue]
  simp [readUnsigned?, hwhole, hfraction, hexponent, hgathered]

/-- The whole numbers that a record may hold: those of 64 bits, signed or unsigned. -/
def FitsWord (i : Int) : Prop := -0x8000000000000000 ≤ i ∧ i < 0x10000000000000000

/-- A digit is no sign. -/
theorem readNumber?_of_digit {d : Char} (hd : isDigit d = true) (cs : Source) :
    readNumber? (some d :: cs) = readUnsigned? false (some d :: cs) := by
  unfold readNumber?
  split
  · rename_i heq
    cases heq
    exact absurd hd (by decide)
  · rfl

/-- A number is read back as it was written. -/
theorem readNumber?_toString {i : Int} (hi : FitsWord i) {rest : Source}
    (hrest : EndsNumber rest) :
    readNumber? ((toString i).toList.map some ++ rest) = some (.int i, rest) := by
  obtain ⟨hlow, hhigh⟩ := hi
  rw [Int.toString_eq_repr, Int.repr_eq_if]
  split
  · rename_i hsign
    have hfits : i.toNat < 0x10000000000000000 := by omega
    have hread := readUnsigned?_toDigits false hfits hrest
    have hint : ofWhole false i.toNat = .int i := by
      have hvalue : ((i.toNat : Nat) : Int) = i := Int.toNat_of_nonneg hsign
      rw [ofWhole, if_neg Bool.false_ne_true, hvalue]
    rw [Nat.toList_repr]
    cases hds : Nat.toDigits 10 i.toNat with
    | nil => exact absurd hds Nat.toDigits_ne_nil
    | cons d ds =>
      have hdigit := isDigit_toDigits (n := i.toNat) (c := d) (by rw [hds]; exact List.mem_cons_self)
      rw [hds, hint] at hread
      exact (readNumber?_of_digit hdigit _).trans hread
  · rename_i hsign
    have hread := readUnsigned?_toDigits true (n := (-i).toNat) (by omega) hrest
    have hint : ofWhole true (-i).toNat = .int i := by
      -- neither minus zero nor below the least signed word
      have hfits : ¬ ((-i).toNat = 0 || 0x8000000000000000 < (-i).toNat) = true := by
        simp only [Bool.or_eq_true, decide_eq_true_eq]
        omega
      have hvalue : -(((-i).toNat : Nat) : Int) = i := by omega
      rw [ofWhole, if_pos rfl, if_neg hfits, hvalue]
    rw [String.toList_append, Nat.toList_repr]
    show readUnsigned? true ((Nat.toDigits 10 (-i).toNat).map some ++ rest) = _
    rw [hread, hint]

/-- The text of a whole number starts with a digit or with its sign. -/
theorem toString_int_start (i : Int) :
    ∃ c cs, (toString i).toList = c :: cs ∧ (c = '-' ∨ isDigit c = true) := by
  have hnat : ∀ n : Nat, ∃ c cs, n.repr.toList = c :: cs ∧ isDigit c = true := by
    intro n
    rw [Nat.toList_repr]
    cases hds : Nat.toDigits 10 n with
    | nil => exact absurd hds Nat.toDigits_ne_nil
    | cons d ds => exact ⟨d, ds, rfl, isDigit_toDigits (n := n) (by rw [hds]; exact List.mem_cons_self)⟩
  rw [Int.toString_eq_repr, Int.repr_eq_if]
  split
  · obtain ⟨c, cs, hcs, hc⟩ := hnat i.toNat
    exact ⟨c, cs, hcs, .inr hc⟩
  · exact ⟨'-', (-i).toNat.repr.toList, by simp, .inl rfl⟩

/-! ## Values -/

/-- A value that starts with a digit or a sign is a number. -/
theorem readScalar?_of_number {c : Char} (hc : c = '-' ∨ isDigit c = true) (cs : Source) :
    readScalar? (some c :: cs) = readNumber? (some c :: cs) := by
  unfold readScalar?
  split
  all_goals first | rfl | skip
  all_goals
    rename_i heq
    simp only [List.cons.injEq, Option.some.injEq] at heq
    rw [heq.1] at hc
    exact absurd hc (by decide)

/-- What a flat record may hold in a field. -/
def IsPlain : Doc → Prop
  | .bool _ | .text _ => True
  | .int i => FitsWord i
  | _ => False

/-- A plain value is read back as it was written. -/
theorem readScalar?_written {d : Doc} (hd : d.IsPlain) {rest : Source} (hrest : EndsNumber rest) :
    readScalar? ((Written.doc d).toList.map some ++ rest) = some (d, rest) := by
  cases d with
  | bool b => cases b <;> rfl
  | text s =>
    have hread := readText?_string s rest
    simp only [Written.doc, Written.string, String.toList_ofList, List.map_cons, List.cons_append,
      List.map_append, List.map_nil, List.append_assoc, List.nil_append]
    simp [readScalar?, hread]
  | int i =>
    have hread := readNumber?_toString hd hrest
    obtain ⟨c, cs, hcs, hc⟩ := toString_int_start i
    simp only [Written.doc, hcs, List.map_cons, List.cons_append] at hread ⊢
    rw [readScalar?_of_number hc, hread]
  | null => exact hd.elim
  | real x => exact hd.elim
  | array ds => exact hd.elim
  | object ms => exact hd.elim
  | unfit => exact hd.elim
  | broken => exact hd.elim

/-- The text of a plain value starts with neither a blank nor a bracket. -/
theorem written_plain_start {d : Doc} (hd : d.IsPlain) :
    ∃ c cs, (Written.doc d).toList = c :: cs ∧ isBlank c = false ∧ c ≠ '[' ∧ c ≠ '{' := by
  cases d with
  | bool b =>
    cases b
    · exact ⟨'f', ['a', 'l', 's', 'e'], rfl, by decide⟩
    · exact ⟨'t', ['r', 'u', 'e'], rfl, by decide⟩
  | text s =>
    refine ⟨'"', s.toList.flatMap Written.escaped ++ ['"'], ?_, by decide⟩
    simp only [Written.doc, Written.string, String.toList_ofList]
  | int i =>
    obtain ⟨c, cs, hcs, hc⟩ := toString_int_start i
    refine ⟨c, cs, hcs, ?_, ?_, ?_⟩
    · -- a sign or a digit
      rcases hc with rfl | hc
      · decide
      · cases hb : isBlank c with
        | false => rfl
        | true =>
          simp only [isBlank, Bool.or_eq_true, beq_iff_eq] at hb
          rcases hb with ((rfl | rfl) | rfl) | rfl <;> exact absurd hc (by decide)
    · rintro rfl
      exact absurd hc (by decide)
    · rintro rfl
      exact absurd hc (by decide)
  | null => exact hd.elim
  | real x => exact hd.elim
  | array ds => exact hd.elim
  | object ms => exact hd.elim
  | unfit => exact hd.elim
  | broken => exact hd.elim

/-- Nothing is skipped in front of a character that is no blank. -/
theorem skipBlanks_cons {c : Char} (hc : isBlank c = false) (cs : Source) :
    skipBlanks (some c :: cs) = some c :: cs := by
  simp [skipBlanks, hc]

/-- A plain value is the next value of the text. -/
theorem readValue_written {d : Doc} (hd : d.IsPlain) {rest : Source} (hrest : EndsNumber rest)
    (fuel depth : Nat) :
    readValue (fuel + 1) depth ((Written.doc d).toList.map some ++ rest) = (d, some rest) := by
  have hscalar := readScalar?_written hd hrest
  obtain ⟨c, cs, hcs, hblank, hbracket, hbrace⟩ := written_plain_start hd
  rw [hcs] at hscalar ⊢
  simp only [List.map_cons, List.cons_append] at hscalar ⊢
  unfold readValue
  rw [skipBlanks_cons hblank]
  split
  · rename_i heq
    simp only [List.cons.injEq, Option.some.injEq] at heq
    exact absurd heq.1 hbracket
  · rename_i heq
    simp only [List.cons.injEq, Option.some.injEq] at heq
    exact absurd heq.1 hbrace
  · rw [hscalar]

/-! ## Members -/

/-- The text of one member. -/
def memberText (field : String × Doc) : Source :=
  some '"' :: ((field.1.toList.flatMap Written.escaped).map some ++
    some '"' :: some ':' :: (Written.doc field.2).toList.map some)

/-- A member is read, and then what follows it: the first member of an object, or a later one behind
    its comma. -/
theorem readMembers_member {field : String × Doc} (hfield : field.2.IsPlain) {tail : Source}
    (htail : EndsNumber tail) {fuel depth : Nat} {members : List (Option String × Doc)}
    {left : Option Source}
    (hnext : readMembers (fuel + 1) depth false tail = (members, left)) :
    readMembers (fuel + 2) depth true (memberText field ++ tail) =
        ((some field.1, field.2) :: members, left) ∧
      readMembers (fuel + 2) depth false (some ',' :: (memberText field ++ tail)) =
        ((some field.1, field.2) :: members, left) := by
  have hkey := readText?_string field.1
    (some ':' :: ((Written.doc field.2).toList.map some ++ tail))
  have hvalue := readValue_written hfield htail fuel depth
  have hquote : isBlank '"' = false := by decide
  have hcolon : isBlank ':' = false := by decide
  have hcomma : isBlank ',' = false := by decide
  -- as the first member, and behind a comma
  constructor
  · rw [readMembers]
    simp [memberText, List.append_assoc, skipBlanks_cons hquote, skipBlanks_cons hcolon, hkey,
      hvalue, hnext]
  · rw [readMembers]
    simp only [memberText, List.cons_append, List.append_assoc, skipBlanks_cons hquote,
      skipBlanks_cons hcolon, skipBlanks_cons hcomma, hkey, hvalue, hnext, Bool.false_eq_true,
      if_false]

theorem map_some_member (field : String × Doc) :
    (Written.string field.1 ++ ":" ++ Written.doc field.2).toList.map some = memberText field := by
  simp [memberText, Written.string]

/-- The members of a flat record, as their texts stand between the braces. -/
def membersText (fields : List (String × Doc)) : Source :=
  (Text.joined "," (Written.members (fields.map fun f => (some f.1, f.2)))).toList.map some

theorem membersText_singleton (field : String × Doc) : membersText [field] = memberText field :=
  map_some_member field

/-- Members are separated by commas. -/
theorem membersText_cons_cons (field next : String × Doc) (fields : List (String × Doc)) :
    membersText (field :: next :: fields) =
      memberText field ++ some ',' :: membersText (next :: fields) := by
  rw [← map_some_member]
  simp [membersText, Written.members, Text.joined]

/-- The members of a flat record are read back, up to the closing brace; so are they behind a
    comma.  The induction is on the fields: what follows a member is the brace, or a comma and the
    other members. -/
theorem readMembers_written {fields : List (String × Doc)} (hne : fields ≠ [])
    (hplain : ∀ f ∈ fields, f.2.IsPlain) (rest : Source) (depth : Nat) :
    ∀ fuel, fields.length < fuel →
      readMembers (fuel + 1) depth true (membersText fields ++ some '}' :: rest) =
          (fields.map fun f => (some f.1, f.2), some rest) ∧
        readMembers (fuel + 1) depth false (some ',' :: (membersText fields ++ some '}' :: rest)) =
          (fields.map fun f => (some f.1, f.2), some rest) := by
  induction fields with
  | nil => exact absurd rfl hne
  | cons field fields ih =>
    intro fuel hfuel
    obtain ⟨k, rfl⟩ : ∃ k, fuel = k + 1 := ⟨fuel - 1, by omega⟩
    have hfield := hplain field List.mem_cons_self
    cases fields with
    | nil =>
      have hend : EndsNumber (some '}' :: rest) := ⟨by decide, by decide, by decide, by decide⟩
      -- the brace ends the members, where a comma would go on
      have hbrace : readMembers (k + 1) depth false (some '}' :: rest) = ([], some rest) := by
        rw [readMembers, skipBlanks_cons (by decide)]
        rfl
      rw [membersText_singleton]
      exact readMembers_member hfield hend hbrace
    | cons next fields =>
      have hend : EndsNumber (some ',' :: (membersText (next :: fields) ++ some '}' :: rest)) :=
        ⟨by decide, by decide, by decide, by decide⟩
      obtain ⟨j, rfl⟩ : ∃ j, k = j + 1 := ⟨k - 1, by simp at hfuel; omega⟩
      have hrest := ih (by simp) (fun f hf => hplain f (List.mem_cons_of_mem field hf)) (j + 1)
        (by simp at hfuel ⊢; omega)
      rw [membersText_cons_cons, List.append_assoc, List.cons_append]
      exact readMembers_member hfield hend hrest.2

/-- Every member takes a character at least. -/
theorem length_le_membersText (fields : List (String × Doc)) :
    fields.length ≤ (membersText fields).length := by
  have hone : ∀ field, 1 ≤ (memberText field).length := by
    intro field
    simp only [memberText, List.length_cons]
    omega
  induction fields with
  | nil => simp
  | cons field fields ih =>
    have hfield := hone field
    cases fields with
    | nil => rw [membersText_singleton]; simpa using hfield
    | cons next fields =>
      rw [membersText_cons_cons]
      simp only [List.length_append, List.length_cons] at ih ⊢
      omega

/-- A flat record is read back, and nothing is left. -/
theorem read_written {fields : List (String × Doc)} (hne : fields ≠ [])
    (hplain : ∀ f ∈ fields, f.2.IsPlain) :
    read (.ofText (Written.doc (.ofFields fields))) = (.ofFields fields, some []) := by
  have htext : Source.ofText (Written.doc (.ofFields fields)) =
      some '{' :: (membersText fields ++ [some '}']) := by
    simp [Source.ofText, Written.doc, ofFields, membersText]
  have hlength := length_le_membersText fields
  have hmembers := (readMembers_written hne hplain [] 1
    (2 * (some '{' :: (membersText fields ++ [some '}'])).length)
    (by simp only [List.length_cons, List.length_append]; omega)).1
  rw [htext, read, readValue, skipBlanks_cons (by decide)]
  simp only [hmembers, nested, nestingLimit]
  rfl

end QueryCatalog.Doc
