/-
  Scanning a statement.

  A statement is read from left to right, outside of quotes, inside a text literal or inside a quoted
  name; a quote character toggles its own region, so that a doubled one leaves and enters it again.
  What is read outside, quotes aside, is the code of the statement.  `Contained` says that nothing in
  the code breaks out: it is balanced, it ends in the only semicolon, and it starts no comment.

  Containment is a property of a whole statement and does not compose.  So the scan is also run as a
  machine (`Guard`), which stops at the first bad character and remembers only the depth of parentheses
  and whether a comment may be about to start.  Its runs do compose (`Guard.run_append`), and
  `Guard.run_sound` reads containment off a run that does not stop.
-/

namespace QueryCatalog.Statement

/-! ## Regions and code -/

/-- Where a character of a statement stands. -/
inductive Region where
  | outside
  | text
  | name
deriving DecidableEq, Repr

/-- The region behind a character: a quote toggles its own region. -/
def Region.behind : Region → Char → Region
  | .outside, c => if c = '\x27' then .text else if c = '\x60' then .name else .outside
  | .text, c => if c = '\x27' then .outside else .text
  | .name, c => if c = '\x60' then .outside else .name

/-- The region behind some characters. -/
def regionAfter : Region → List Char → Region
  | r, [] => r
  | r, c :: cs => regionAfter (r.behind c) cs

/-- Whether a character is code: it stands outside and is no quote. -/
def Region.isCode (r : Region) (c : Char) : Bool := r == .outside && r.behind c == .outside

/-- The characters that are code. -/
def code : Region → List Char → List Char
  | _, [] => []
  | r, c :: cs => if r.isCode c then c :: code (r.behind c) cs else code (r.behind c) cs

/-- The depth of parentheses behind a character; nothing closes below depth zero. -/
def depthBehind (depth : Nat) (c : Char) : Option Nat :=
  if c = '(' then some (depth + 1)
  else if c = ')' then (if depth = 0 then none else some (depth - 1))
  else some depth

/-- The depth of parentheses behind some characters. -/
def depthAfter : Nat → List Char → Option Nat
  | depth, [] => some depth
  | depth, c :: cs => (depthBehind depth c).bind fun depth => depthAfter depth cs

/-- Regions are passed on from one text to the next. -/
theorem regionAfter_append (r : Region) (cs ds : List Char) :
    regionAfter r (cs ++ ds) = regionAfter (regionAfter r cs) ds := by
  induction cs generalizing r with
  | nil => rfl
  | cons c cs ih => exact ih (r.behind c)

/-- The code of a text behind another depends on the region that the first one leaves. -/
theorem code_append (r : Region) (cs ds : List Char) :
    code r (cs ++ ds) = code r cs ++ code (regionAfter r cs) ds := by
  induction cs generalizing r with
  | nil => rfl
  | cons c cs ih =>
    simp only [List.cons_append, code, regionAfter, ih]
    split <;> rfl

theorem depthAfter_append (d : Nat) (cs ds : List Char) :
    depthAfter d (cs ++ ds) = (depthAfter d cs).bind fun d => depthAfter d ds := by
  induction cs generalizing d with
  | nil => rfl
  | cons c cs ih =>
    simp only [List.cons_append, depthAfter, Option.bind_assoc, ih]

/-- Nothing in the statement breaks out of it. -/
structure Contained (sql : String) : Prop where
  /-- All quotes are closed. -/
  closed : regionAfter .outside sql.toList = .outside
  /-- Parentheses never close below depth zero, and all are closed. -/
  balanced : depthAfter 0 (code .outside sql.toList) = some 0
  /-- There is one semicolon, … -/
  single : (code .outside sql.toList).count ';' = 1
  /-- … and it ends the statement. -/
  terminated : sql.toList.getLast? = some ';'
  noLineComment : ¬ ['-', '-'] <:+: code .outside sql.toList
  noBlockComment : ¬ ['/', '*'] <:+: code .outside sql.toList
  noHashComment : '#' ∉ code .outside sql.toList

/-! ## The guard -/

/-- Which comment the next character could start. -/
inductive Pending where
  | nothing
  | dash
  | slash
deriving DecidableEq, Repr

/-- What is pending behind a character of code. -/
def Pending.behind (c : Char) : Pending :=
  if c = '-' then .dash else if c = '/' then .slash else .nothing

/-- The character that is pending. -/
def Pending.chars : Pending → List Char
  | .nothing => []
  | .dash => ['-']
  | .slash => ['/']

/-- A scan in progress. -/
structure Guard where
  region : Region
  depth : Nat
  pending : Pending
deriving DecidableEq, Repr

namespace Guard

/-- Whether a character of code is bad: a terminator, or the start of a comment. -/
def isBad (g : Guard) (c : Char) : Bool :=
  c == ';' || c == '#' || (g.pending == .dash && c == '-') || (g.pending == .slash && c == '*')

/-- Reads a character, unless it breaks out. -/
def step (g : Guard) (c : Char) : Option Guard :=
  if g.region.isCode c then
    if g.isBad c then none
    else (depthBehind g.depth c).map fun depth => ⟨.outside, depth, .behind c⟩
  else some { g with region := g.region.behind c }

/-- Reads some characters. -/
def run : Guard → List Char → Option Guard
  | g, [] => some g
  | g, c :: cs => (g.step c).bind fun g => g.run cs

/-- Outside of quotes, with nothing pending. -/
def clean (depth : Nat) : Guard := ⟨.outside, depth, .nothing⟩

/-- The guard reads one text after the other. -/
theorem run_append (g : Guard) (cs ds : List Char) :
    g.run (cs ++ ds) = (g.run cs).bind fun g => g.run ds := by
  induction cs generalizing g with
  | nil => rfl
  | cons c cs ih =>
    simp only [List.cons_append, run, Option.bind_assoc]
    congr 1
    funext g'
    exact ih g'

/-! ## Reading a run back -/

/-- A pair stands in a list at its head or behind it. -/
theorem pair_infix_cons {a b c : Char} {cs : List Char} :
    [a, b] <:+: c :: cs ↔ (c = a ∧ cs.head? = some b) ∨ [a, b] <:+: cs := by
  rw [List.infix_cons_iff, List.cons_prefix_cons]
  cases cs with
  | nil => simp
  | cons d cs => simp [List.cons_prefix_cons, eq_comm]

/-- A pair that does not stand behind a character, with that character pending, does not stand
    in front of it either, unless the two complete it. -/
theorem not_pair_infix {a b c : Char} {p : Pending} {cs : List Char}
    (hrest : ¬ [a, b] <:+: (Pending.behind c).chars ++ cs)
    (hpending : c = a → (Pending.behind c).chars = [a]) (hpair : p.chars = [a] → c ≠ b) :
    ¬ [a, b] <:+: p.chars ++ c :: cs := by
  -- a pair starts at the character in front, at this one, or behind it
  have hcons : ¬ [a, b] <:+: c :: cs := by
    rw [pair_infix_cons]
    rintro (⟨hc, hhead⟩ | hbehind)
    · rw [hpending hc] at hrest
      exact hrest (pair_infix_cons.mpr (.inl ⟨rfl, hhead⟩))
    · exact hrest (hbehind.trans (List.suffix_append _ _).isInfix)
  cases p with
  | nothing => exact hcons
  | dash | slash =>
    simp only [Pending.chars, List.cons_append, List.nil_append, pair_infix_cons, List.head?_cons,
      Option.some.injEq] at hpair hcons ⊢
    rintro (⟨rfl, hc⟩ | hbehind)
    · exact hpair rfl hc
    · exact hcons hbehind

/-- What a run that does not stop says about the code that it has read.  A comment could also start
    at the pending character, so that stands in front of the code. -/
theorem run_sound {g g' : Guard} {cs : List Char} (h : g.run cs = some g') :
    regionAfter g.region cs = g'.region ∧
      depthAfter g.depth (code g.region cs) = some g'.depth ∧
      ';' ∉ code g.region cs ∧ '#' ∉ code g.region cs ∧
      ¬ ['-', '-'] <:+: g.pending.chars ++ code g.region cs ∧
      ¬ ['/', '*'] <:+: g.pending.chars ++ code g.region cs := by
  induction cs generalizing g with
  | nil =>
    simp only [run, Option.some.injEq] at h
    subst h
    refine ⟨rfl, rfl, by simp [code], by simp [code], ?_, ?_⟩ <;>
      cases g.pending <;> simp [code, Pending.chars, pair_infix_cons]
  | cons c cs ih =>
    simp only [run, Option.bind_eq_some_iff] at h
    obtain ⟨g₁, hstep, hrun⟩ := h
    obtain ⟨hregion, hdepth, hterm, hhash, hline, hblock⟩ := ih hrun
    simp only [regionAfter, code]
    by_cases hcode : g.region.isCode c
    · -- one more character of code, and not a bad one
      simp only [step, hcode, if_true, Option.ite_none_left_eq_some, Option.map_eq_some_iff] at hstep
      obtain ⟨hgood, depth, hbehind, rfl⟩ := hstep
      have hsame : g.region.behind c = .outside := by
        simpa using (Bool.and_eq_true_iff.mp hcode).2
      simp only [isBad, Bool.or_eq_true, not_or, Bool.and_eq_true, beq_iff_eq, not_and] at hgood
      obtain ⟨⟨⟨hsemicolon, hsharp⟩, hdash⟩, hslash⟩ := hgood
      rw [hcode, if_pos rfl, hsame]
      refine ⟨hregion, ?_, ?_, ?_, ?_, ?_⟩
      · simpa [depthAfter, hbehind] using hdepth
      · simpa [Ne.symm hsemicolon] using hterm
      · simpa [Ne.symm hsharp] using hhash
      · refine not_pair_infix hline (fun hc => by subst hc; rfl) fun hp => hdash ?_
        cases hpending : g.pending <;> simp_all [Pending.chars]
      · refine not_pair_infix hblock (fun hc => by subst hc; rfl) fun hp => hslash ?_
        cases hpending : g.pending <;> simp_all [Pending.chars]
    · -- a quote, or a character inside of quotes: the code stays as it is
      simp only [step, hcode, Bool.false_eq_true, if_false, Option.some.injEq] at hstep
      subst hstep
      simp only [hcode, Bool.false_eq_true, if_false]
      exact ⟨hregion, hdepth, hterm, hhash, hline, hblock⟩

end Guard

end QueryCatalog.Statement
