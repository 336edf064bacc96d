/-
  A document is no larger than its text.

  Every value of a document is read from at least one character of its own: brackets and braces for
  arrays and objects, a digit, a quote or a letter for the others.  So what has been read and what is left
  of the text together never exceed the text: `Passes` says it of the readers of strings and numbers,
  `readValue_fits` and its companions of the readers of values, by induction on their fuel.

  Nothing is said of a text that breaks off; no decoder gives a value for it.
-/
import QueryCatalog.Document.Reader

namespace QueryCatalog.Doc

/-! ## The values of a document -/

mutual

/-- The number of values in the document, itself included. -/
def values : Doc → Nat
  | .array items => valuesOfItems items + 1
  | .object members => valuesOfMembers members + 1
  | _ => 1

/-- The number of values in some documents. -/
def valuesOfItems : List Doc → Nat
  | [] => 0
  | d :: ds => d.values + valuesOfItems ds

/-- The number of values in some members. -/
def valuesOfMembers : List (Option String × Doc) → Nat
  | [] => 0
  | (_, d) :: rest => d.values + valuesOfMembers rest

end

/-- An item has no more values than the list that it stands in. -/
theorem values_le_of_mem_items {d : Doc} {ds : List Doc} (h : d ∈ ds) :
    d.values ≤ valuesOfItems ds := by
  induction ds with
  | nil => cases h
  | cons x ds ih =>
    rw [valuesOfItems]
    rcases List.mem_cons.mp h with rfl | h
    · omega
    · have := ih h
      omega

/-- A member has no more values than the object that it stands in. -/
theorem values_le_of_mem_members {key : Option String} {d : Doc} {members : List (Option String × Doc)}
    (h : (key, d) ∈ members) : d.values ≤ valuesOfMembers members := by
  induction members with
  | nil => cases h
  | cons m members ih =>
    obtain ⟨k, x⟩ := m
    rw [valuesOfMembers]
    rcases List.mem_cons.mp h with heq | h
    · cases heq
      omega
    · have := ih h
      omega

/-- Every document is a value, whatever it holds. -/
theorem one_le_values (d : Doc) : 1 ≤ d.values := by
  cases d <;> simp [values]

/-- A list has at least as many values as items. -/
theorem length_le_valuesOfItems (ds : List Doc) : ds.length ≤ valuesOfItems ds := by
  induction ds with
  | nil => exact Nat.le_refl _
  | cons d ds ih =>
    have := d.one_le_values
    rw [valuesOfItems, List.length_cons]
    omega

/-! ## Strings and numbers -/

/-- Whatever the reader gives, it has passed a character at least. -/
def Passes {α : Type} (reader : Source → Option (α × Source)) : Prop :=
  ∀ {cs a rest}, reader cs = some (a, rest) → rest.length < cs.length

theorem length_skipBlanks_le (cs : Source) : (skipBlanks cs).length ≤ cs.length :=
  (List.dropWhile_sublist _).length_le

/-- Four hexadecimal digits are read from four characters. -/
theorem hexUnit?_passes : Passes hexUnit? := by
  intro cs n rest h
  unfold hexUnit? at h
  split at h
  · simp only [Option.bind_eq_bind, Option.bind_eq_some_iff] at h
    obtain ⟨_, -, _, -, _, -, _, -, heq⟩ := h
    cases heq
    simp only [List.length_cons]
    omega
  · cases h

/-- Each piece of a string is read from a character at least; the cases are those of the reader, a
    surrogate pair being the longest. -/
theorem nextPiece?_passes : Passes nextPiece? := by
  intro cs p rest h
  unfold nextPiece? at h
  split at h
  · cases h
  · cases h
    exact Nat.lt_succ_self _
  · cases h
    exact Nat.lt_succ_self _
  · -- an escape by number, behind which the other half of a pair may be passed too
    obtain ⟨⟨unit, after⟩, hunit, h⟩ := Option.bind_eq_some_iff.mp h
    have hafter := hexUnit?_passes hunit
    simp only [List.length_cons]
    dsimp only at h
    split at h
    · split at h
      · split at h
        · next hlow =>
          have := hexUnit?_passes hlow
          simp only [List.length_cons] at hafter
          split at h
          · cases h
            omega
          · cases h
            simp only [List.length_cons]
            omega
        · cases h
          omega
      · cases h
        omega
    · split at h
      · cases h
        omega
      · cases h
        omega
  · obtain ⟨e, -, heq⟩ := Option.map_eq_some_iff.mp h
    cases heq
    simp only [List.length_cons]
    omega
  · split at h
    · cases h
    · cases h
      exact Nat.lt_succ_self _

/-- The characters of a string, up to its closing quote. -/
theorem readChars_passes (fuel : Nat) : Passes (readChars fuel) := by
  induction fuel with
  | zero =>
    intro cs r rest h
    cases h
  | succ fuel ih =>
    intro cs r rest h
    rw [readChars] at h
    split at h
    · cases h
    · next after hpiece =>
      cases h
      exact nextPiece?_passes hpiece
    · next after hpiece =>
      obtain ⟨⟨read, left⟩, hread, heq⟩ := Option.map_eq_some_iff.mp h
      cases heq
      -- a piece is passed, and then the rest
      have := ih hread
      have := nextPiece?_passes hpiece
      omega
    · next c after hpiece =>
      obtain ⟨⟨read, left⟩, hread, heq⟩ := Option.map_eq_some_iff.mp h
      cases heq
      have := ih hread
      have := nextPiece?_passes hpiece
      omega

theorem readText?_passes : Passes readText? := by
  intro cs r rest h
  obtain ⟨⟨read, left⟩, hread, heq⟩ := Option.map_eq_some_iff.mp h
  cases heq
  exact readChars_passes _ hread

/-- A row of digits and the rest are the text, so that no character is lost or read twice. -/
theorem length_digitRow (cs : Source) :
    (digitRow cs).1.length + (digitRow cs).2.length = cs.length := by
  fun_induction digitRow cs with
  | case1 c rest hdigit ds left hrow ih =>
    rw [hrow] at ih
    simp only [List.length_cons] at ih ⊢
    omega
  | case2 c rest hdigit => simp
  | case3 cs hcs => simp

theorem digits?_passes : Passes digits? := by
  intro cs ds rest h
  have hlength := length_digitRow cs
  unfold digits? at h
  split at h
  · cases h
  · next hsome =>
    have hrow : digitRow cs = (ds, rest) := Option.some.inj h
    rw [hrow] at hlength
    cases ds with
    | nil => exact (hsome rest hrow).elim
    | cons d ds =>
      simp only [List.length_cons] at hlength
      omega

/-- The whole part of a number is at least one digit. -/
theorem wholeDigits?_passes : Passes wholeDigits? := by
  intro cs ds rest h
  unfold wholeDigits? at h
  split at h
  · split at h
    · cases h
      exact Nat.lt_succ_self _
    · cases h
  · exact digits?_passes h

/-- A fraction may be absent, and then nothing is read. -/
theorem length_fractionDigits?_le {cs rest : Source} {ds : Option (List Char)}
    (h : fractionDigits? cs = some (ds, rest)) : rest.length ≤ cs.length := by
  unfold fractionDigits? at h
  split at h
  · obtain ⟨⟨ds, left⟩, hdigits, heq⟩ := Option.map_eq_some_iff.mp h
    cases heq
    have := digits?_passes hdigits
    simp only [List.length_cons]
    omega
  · cases h
    exact Nat.le_refl _

theorem length_exponentSign_le (cs : Source) : (exponentSign cs).2.length ≤ cs.length := by
  unfold exponentSign
  split
  · exact Nat.le_succ _
  · exact Nat.le_succ _
  · exact Nat.le_refl _

/-- An exponent may be absent, and then nothing is read. -/
theorem length_exponent?_le {cs rest : Source} {power : Option Int}
    (h : exponent? cs = some (power, rest)) : rest.length ≤ cs.length := by
  unfold exponent? at h
  split at h
  · next c after =>
    split at h
    · obtain ⟨⟨ds, left⟩, hdigits, heq⟩ := Option.map_eq_some_iff.mp h
      cases heq
      have hdigits : digits? (exponentSign after).2 = some (ds, rest) := hdigits
      have := digits?_passes hdigits
      have := length_exponentSign_le after
      simp only [List.length_cons]
      omega
    · cases h
      exact Nat.le_refl _
  · cases h
    exact Nat.le_refl _

/-- A number is one value. -/
theorem values_ofDecimal (negative : Bool) (digits : Nat) (power : Int) :
    (ofDecimal negative digits power).values = 1 := by
  unfold ofDecimal
  split
  · rfl
  · rfl

/-- A whole number is one value, also where it is read as a float. -/
theorem values_ofWhole (negative : Bool) (n : Nat) : (ofWhole negative n).values = 1 := by
  unfold ofWhole
  split
  · split
    · exact values_ofDecimal _ _ _
    · rfl
  · rfl

/-- The reader gives single values, each of them read from a character at least. -/
def PassesOne (reader : Source → Option (Doc × Source)) : Prop :=
  ∀ {cs doc rest}, reader cs = some (doc, rest) → doc.values = 1 ∧ rest.length < cs.length

/-- A number without its sign is one value; its whole part is what makes the rest shorter. -/
theorem readUnsigned?_passesOne (negative : Bool) : PassesOne (readUnsigned? negative) := by
  intro cs doc rest h
  obtain ⟨⟨whole, cs₁⟩, hwhole, h⟩ := Option.bind_eq_some_iff.mp h
  obtain ⟨⟨fraction, cs₂⟩, hfraction, h⟩ := Option.bind_eq_some_iff.mp h
  obtain ⟨⟨power, cs₃⟩, hpower, h⟩ := Option.bind_eq_some_iff.mp h
  have hpassed : cs₃.length < cs.length := by
    have := wholeDigits?_passes hwhole
    have := length_fractionDigits?_le hfraction
    have := length_exponent?_le hpower
    omega
  dsimp only at h
  split at h
  · cases h
    exact ⟨values_ofWhole _ _, hpassed⟩
  · cases h
    exact ⟨values_ofDecimal _ _ _, hpassed⟩

/-- A number with its sign or without. -/
theorem readNumber?_passesOne : PassesOne readNumber? := by
  intro cs doc rest h
  unfold readNumber? at h
  split at h
  · obtain ⟨hone, hpassed⟩ := readUnsigned?_passesOne true h
    exact ⟨hone, Nat.lt_succ_of_lt hpassed⟩
  · exact readUnsigned?_passesOne false h

/-- What is no container is one value. -/
theorem readScalar?_passesOne : PassesOne readScalar? := by
  intro cs doc rest h
  unfold readScalar? at h
  split at h
  · cases h
    exact ⟨rfl, by simp only [List.length_cons]; omega⟩
  · cases h
    exact ⟨rfl, by simp only [List.length_cons]; omega⟩
  · cases h
    exact ⟨rfl, by simp only [List.length_cons]; omega⟩
  · obtain ⟨⟨read, left⟩, hread, heq⟩ := Option.map_eq_some_iff.mp h
    have hpassed := readText?_passes hread
    cases heq
    refine ⟨?_, Nat.lt_succ_of_lt hpassed⟩
    cases read <;> rfl
  · exact readNumber?_passesOne h

/-! ## Values -/

/-- A container that is nested too deep is one value instead of many. -/
theorem values_nested_le (depth : Nat) (doc : Doc) (rest : Source) :
    (nested depth doc (some rest)).values ≤ doc.values := by
  unfold nested
  split
  · exact Nat.le_refl _
  · exact one_le_values doc

/-- What the readers of values give and what they leave fit into the text: a value, the items up to the
    closing bracket, and the members up to the closing brace, which take a character more. -/
structure Fits (fuel : Nat) : Prop where
  value : ∀ {depth cs doc rest}, readValue fuel depth cs = (doc, some rest) →
    doc.values + rest.length ≤ cs.length
  items : ∀ {depth first cs items rest}, readItems fuel depth first cs = (items, some rest) →
    valuesOfItems items + rest.length < cs.length
  members : ∀ {depth first cs members rest}, readMembers fuel depth first cs = (members, some rest) →
    valuesOfMembers members + rest.length < cs.length

/-- The members from a key on, as they are read behind the opening brace and behind each comma. -/
def membersFrom (fuel depth : Nat) : Source → List (Option String × Doc) × Option Source
  | some '"' :: rest =>
    match readText? rest with
    | none => ([(none, .broken)], none)
    | some (key, rest) =>
      match skipBlanks rest with
      | some ':' :: rest =>
        match readValue fuel depth rest with
        | (doc, none) => ([(key, doc)], none)
        | (doc, some rest) =>
          ((key, doc) :: (readMembers fuel depth false rest).1, (readMembers fuel depth false rest).2)
      | _ => ([(key, .broken)], none)
  | _ => ([(none, .broken)], none)

/-- One step of reading an object, with the reader of a member named. -/
theorem readMembers_succ (fuel depth : Nat) (first : Bool) (cs : Source) :
    readMembers (fuel + 1) depth first cs =
      match skipBlanks cs with
      | some '}' :: rest => ([], some rest)
      | some ',' :: rest =>
        if first then ([(none, .broken)], none) else membersFrom fuel depth (skipBlanks rest)
      | cs => if first then membersFrom fuel depth cs else ([(none, .broken)], none) := by
  rw [readMembers]
  rfl

section Step

variable {fuel : Nat} (hf : Fits fuel) {depth : Nat}
include hf

/-- A value is read from at least as many characters as it has values. -/
theorem Fits.value_succ {cs rest : Source} {doc : Doc}
    (h : readValue (fuel + 1) depth cs = (doc, some rest)) : doc.values + rest.length ≤ cs.length := by
  have hblanks := length_skipBlanks_le cs
  rw [readValue] at h
  split at h
  · -- an array: its bracket pays for it, its items for themselves
    next after hskip =>
    rw [hskip, List.length_cons] at hblanks
    cases hitems : readItems fuel (depth + 1) true after with
    | mk items left =>
      rw [hitems] at h
      obtain ⟨rfl, rfl⟩ := Prod.mk.inj h
      have hfits := hf.items hitems
      have hnested := values_nested_le depth (.array items) rest
      rw [values] at hnested
      omega
  · next after hskip =>
    rw [hskip, List.length_cons] at hblanks
    cases hmembers : readMembers fuel (depth + 1) true after with
    | mk members left =>
      rw [hmembers] at h
      obtain ⟨rfl, rfl⟩ := Prod.mk.inj h
      have hfits := hf.members hmembers
      have hnested := values_nested_le depth (.object members) rest
      rw [values] at hnested
      omega
  · split at h
    · next hscalar =>
      obtain ⟨rfl, heq⟩ := Prod.mk.inj h
      cases heq
      obtain ⟨hone, hpassed⟩ := readScalar?_passesOne hscalar
      omega
    · cases h

/-- An item, and those behind it. -/
theorem Fits.item {cs rest left : Source} {doc : Doc}
    (hvalue : readValue fuel depth cs = (doc, some rest))
    (hleft : (readItems fuel depth false rest).2 = some left) :
    valuesOfItems (doc :: (readItems fuel depth false rest).1) + left.length < cs.length := by
  have hdoc := hf.value hvalue
  have hdocs : valuesOfItems (readItems fuel depth false rest).1 + left.length < rest.length :=
    hf.items (Prod.ext rfl hleft)
  rw [valuesOfItems]
  omega

/-- Items, and the bracket behind them, which is why the bound is strict. -/
theorem Fits.items_succ {first : Bool} {cs rest : Source} {items : List Doc}
    (h : readItems (fuel + 1) depth first cs = (items, some rest)) :
    valuesOfItems items + rest.length < cs.length := by
  have hblanks := length_skipBlanks_le cs
  rw [readItems] at h
  dsimp only at h
  split at h
  · next hskip =>
    cases h
    rw [hskip, List.length_cons] at hblanks
    rw [valuesOfItems]
    omega
  · -- behind a comma, which only the first item does without
    next after hskip =>
    rw [hskip, List.length_cons] at hblanks
    split at h
    · cases h
    · split at h
      · cases h
      · next hvalue =>
        obtain ⟨rfl, hleft⟩ := Prod.mk.inj h
        exact Nat.lt_of_lt_of_le (hf.item hvalue hleft) (by omega)
  · split at h
    · split at h
      · cases h
      · next hvalue =>
        obtain ⟨rfl, hleft⟩ := Prod.mk.inj h
        exact Nat.lt_of_lt_of_le (hf.item hvalue hleft) hblanks
    · cases h

/-- A member and those behind it; the key, its quotes and the colon are read besides the value. -/
theorem Fits.membersFrom {cs rest : Source} {members : List (Option String × Doc)}
    (h : membersFrom fuel depth cs = (members, some rest)) :
    valuesOfMembers members + rest.length < cs.length := by
  unfold Doc.membersFrom at h
  split at h
  · next text =>
    split at h
    · cases h
    · next key after hkey =>
      have hpassed := readText?_passes hkey
      have hblanks := length_skipBlanks_le after
      split at h
      · next colon hskip =>
        rw [hskip, List.length_cons] at hblanks
        split at h
        · cases h
        · next doc left hvalue =>
          obtain ⟨rfl, hrest⟩ := Prod.mk.inj h
          -- the key, its quotes and the colon are passed besides
          have hdoc := hf.value hvalue
          have hmembers : valuesOfMembers (readMembers fuel depth false left).1 + rest.length <
              left.length := hf.members (Prod.ext rfl hrest)
          rw [valuesOfMembers, List.length_cons]
          omega
      · cases h
  · cases h

theorem Fits.members_succ {first : Bool} {cs rest : Source} {members : List (Option String × Doc)}
    (h : readMembers (fuel + 1) depth first cs = (members, some rest)) :
    valuesOfMembers members + rest.length < cs.length := by
  have hblanks := length_skipBlanks_le cs
  rw [readMembers_succ] at h
  split at h
  · next hskip =>
    cases h
    rw [hskip, List.length_cons] at hblanks
    rw [valuesOfMembers]
    omega
  · next after hskip =>
    rw [hskip, List.length_cons] at hblanks
    -- behind a comma
    have hagain := length_skipBlanks_le after
    split at h
    · cases h
    · have := hf.membersFrom h
      omega
  · split at h
    · have := hf.membersFrom h
      omega
    · cases h

end Step

/-- All readers keep to the bound, by induction on the fuel that they share. -/
theorem readers_fit (fuel : Nat) : Fits fuel := by
  induction fuel with
  | zero =>
    refine ⟨fun h => ?_, fun h => ?_, fun h => ?_⟩
    · cases h
    · cases h
    · cases h
  | succ fuel ih => exact ⟨ih.value_succ, ih.items_succ, ih.members_succ⟩

/-- A document that was read to its end has no more values than its text has characters. -/
theorem values_read_le {source rest : Source} (h : (read source).2 = some rest) :
    (read source).1.values ≤ source.length := by
  have hfits : (read source).1.values + rest.length ≤ source.length :=
    (readers_fit _).value (Prod.ext rfl h)
  omega

end QueryCatalog.Doc
