/-
  The spelling of keywords.

  A keyword may be written in any case, with blanks around it.  The spelling is looked at in one place
  only, where the text is compared with the keywords of its set (`Keyword.parse`); what a keyword
  stands for is compiled, not how it was written.  So the spelling can come out in one way: where
  the text names no keyword at all, the error shows it as it was given.

  1. `respelled_iff` — two spellings of one text are folded to the same letters, and nothing else is;
  2. `parse_respelled` — so they name the same keyword, or are reported alike;
  3. `sameButSpelling` — a relation of computations in which only such reports differ.  It is one of
     those that a walk keeps, so whole inputs are compiled alike (`compile_respelled`).
-/
import QueryCatalog.Proofs.History
import QueryCatalog.Proofs.StatementBody
import QueryCatalog.Sample

namespace QueryCatalog

/-! ## Letters and blanks -/

namespace Text

/-- No blank stands among the letters of ASCII. -/
theorem isWhiteSpace_of_letter {c : Char} (hlow : 65 ≤ c.toNat) (hhigh : c.toNat ≤ 122) :
    isWhiteSpace c = false := by
  simp only [isWhiteSpace, Bool.or_eq_false_iff, Bool.and_eq_false_iff, decide_eq_false_iff_not,
    beq_eq_false_iff_ne]
  omega

/-- A blank has no case, and no letter is folded to one. -/
theorem isWhiteSpace_toLower (c : Char) : isWhiteSpace c.toLower = isWhiteSpace c := by
  delta Char.toLower
  split
  · next hupper =>
    have hlow : 65 ≤ c.toNat := UInt32.le_iff_toNat_le.mp hupper.1
    have hhigh : c.toNat ≤ 90 := UInt32.le_iff_toNat_le.mp hupper.2
    have hlower : (c.val + ('a'.val - 'A'.val)).toNat = c.toNat + 32 := by
      rw [UInt32.toNat_add]
      show (c.toNat + 32) % _ = _
      omega
    rw [isWhiteSpace_of_letter (c := c) (by omega) (by omega)]
    refine isWhiteSpace_of_letter ?_ ?_
    · show 65 ≤ (c.val + ('a'.val - 'A'.val)).toNat
      omega
    · show (c.val + ('a'.val - 'A'.val)).toNat ≤ 122
      omega
  · rfl

/-- Blanks in front of a text make no difference to it without blanks in front. -/
theorem dropBlanks_append {blanks : List Char} (h : ∀ c ∈ blanks, isWhiteSpace c = true)
    (cs : List Char) : dropBlanks (blanks ++ cs) = dropBlanks cs :=
  List.dropWhile_append_of_pos h

theorem dropEndBlanks_append {blanks : List Char} (h : ∀ c ∈ blanks, isWhiteSpace c = true)
    (cs : List Char) : dropEndBlanks (cs ++ blanks) = dropEndBlanks cs := by
  have hback : ∀ c ∈ blanks.reverse, isWhiteSpace c = true := fun c hc => h c (List.mem_reverse.mp hc)
  rw [dropEndBlanks, List.reverse_append, dropBlanks_append hback, dropEndBlanks]

/-- Blanks around a text are trimmed away, whatever the text is. -/
theorem trimmed_surrounded {front back : List Char} (hfront : ∀ c ∈ front, isWhiteSpace c = true)
    (hback : ∀ c ∈ back, isWhiteSpace c = true) (word : List Char) :
    dropEndBlanks (dropBlanks (front ++ (word ++ back))) = dropEndBlanks (dropBlanks word) := by
  rw [dropBlanks_append hfront, dropBlanks, List.dropWhile_append]
  split
  · next hword =>
    -- nothing of the word is left, so the blanks behind it are in front as well
    have hnone : dropBlanks back = [] := by
      rw [← List.append_nil back, dropBlanks_append hback]
      rfl
    rw [show back.dropWhile isWhiteSpace = [] from hnone, dropBlanks, List.isEmpty_iff.mp hword]
  · exact dropEndBlanks_append hback _

/-- Case and blanks in front are folded in either order. -/
theorem map_toLower_dropBlanks (cs : List Char) :
    (dropBlanks cs).map Char.toLower = dropBlanks (cs.map Char.toLower) := by
  have hsame : isWhiteSpace ∘ Char.toLower = isWhiteSpace := funext isWhiteSpace_toLower
  rw [dropBlanks, dropBlanks, List.dropWhile_map, hsame]

theorem map_toLower_dropEndBlanks (cs : List Char) :
    (dropEndBlanks cs).map Char.toLower = dropEndBlanks (cs.map Char.toLower) := by
  rw [dropEndBlanks, List.map_reverse, map_toLower_dropBlanks, List.map_reverse, dropEndBlanks]

end Text

/-! ## Spellings -/

namespace Keyword

/-- The text is a word with blanks around it. -/
def Surrounds (word : List Char) (s : String) : Prop :=
  ∃ front back, s.toList = front ++ (word ++ back) ∧ (∀ c ∈ front, Text.isWhiteSpace c = true) ∧
    ∀ c ∈ back, Text.isWhiteSpace c = true

/-- Two texts that differ only in the case of ASCII letters and in the blanks at their ends. -/
def Respelled (s s' : String) : Prop :=
  ∃ word word', Surrounds word s ∧ Surrounds word' s' ∧
    word.map Char.toLower = word'.map Char.toLower

/-- Blanks around a word are folded away. -/
theorem folded_of_surrounds {word : List Char} {s : String} (h : Surrounds word s) :
    folded s = Text.dropEndBlanks (Text.dropBlanks (word.map Char.toLower)) := by
  obtain ⟨front, back, hs, hfront, hback⟩ := h
  rw [folded, Text.trim, String.toList_ofList, hs, Text.trimmed_surrounded hfront hback,
    Text.map_toLower_dropEndBlanks, Text.map_toLower_dropBlanks]

/-- A text is its trimmed self with blanks around. -/
theorem surrounds_trim (s : String) : Surrounds (Text.trim s).toList s := by
  obtain ⟨-, back, hback, hblank⟩ := Text.dropEndBlanks_spec (Text.dropBlanks s.toList)
  refine ⟨s.toList.takeWhile Text.isWhiteSpace, back, ?_, ?_, hblank⟩
  · rw [Text.trim, String.toList_ofList, ← hback]
    exact List.takeWhile_append_dropWhile.symm
  · exact fun c hc => List.all_eq_true.mp List.all_takeWhile c hc

/-- What is folded to the same letters is spelled in two ways, and nothing else is. -/
theorem respelled_iff {s s' : String} : Respelled s s' ↔ folded s = folded s' := by
  constructor
  · rintro ⟨word, word', hs, hs', hwords⟩
    rw [folded_of_surrounds hs, folded_of_surrounds hs', hwords]
  · intro h
    exact ⟨_, _, surrounds_trim s, surrounds_trim s', h⟩

instance (s s' : String) : Decidable (Respelled s s') := decidable_of_iff _ respelled_iff.symm

end Keyword

/-- Two outcomes that are the same, but that a text which names no keyword may be reported in two
    spellings. -/
inductive SameButSpelling {α : Type} : Except Error α → Except Error α → Prop
  | same (r : Except Error α) : SameButSpelling r r
  | respelled (k : UnknownKeyword) (used : String) (h : Keyword.Respelled k.used used) :
    SameButSpelling (.error (.unknownKeyword k)) (.error (.unknownKeyword { k with used := used }))

/-- Two spellings name the same keyword of a set, or none. -/
theorem Keyword.parse_respelled (κ : Type) [Keyword κ] {s s' : String} (h : Respelled s s') :
    (∃ k : κ, parse κ s = .ok k ∧ parse κ s' = .ok k) ∨
      ∃ e : UnknownKeyword, e.used = s ∧ parse κ s = .error e ∧
        parse κ s' = .error { e with used := s' } := by
  have hfind : find? κ s = find? κ s' := by rw [find?, find?, respelled_iff.mp h]
  cases hfound : find? κ s' with
  | some k =>
    left
    refine ⟨k, ?_, ?_⟩
    · rw [parse, hfind, hfound]
    · rw [parse, hfound]
  | none =>
    right
    refine ⟨⟨category κ, s, (all : List κ).map text⟩, rfl, ?_, ?_⟩
    · rw [parse, hfind, hfound]
    · rw [parse, hfound]

/-! ## Walks -/

/-- Two computations that, begun on the same state, end in the same way up to the spelling in a report,
    and leave the same state. -/
def sameButSpelling (σ : Type) :
    Agreement (ExceptT Error (StateM σ)) (ExceptT Error (StateM σ)) where
  holds P x y := ∀ t, SameButSpelling (x.run t).1 (y.run t).1 ∧ (x.run t).2 = (y.run t).2 ∧
    ∀ a, (x.run t).1 = .ok a → P a
  pure ha t := by
    refine ⟨.same _, rfl, fun a heq => ?_⟩
    cases heq
    exact ha
  bind {_ _ _ _ x y f g} hx hf t := by
    obtain ⟨hresult, hleft, hP⟩ := hx t
    cases hrun : x.run t with
    | mk r u =>
      cases hrun' : y.run t with
      | mk r' u' =>
        rw [hrun, hrun'] at hresult hleft
        rw [hrun] at hP
        cases (hleft : u = u')
        cases (hresult : SameButSpelling r r') with
        | same =>
          cases r with
          | ok a =>
            rw [run_bind_ok hrun, run_bind_ok hrun']
            exact hf a (hP a rfl) u
          | error e =>
            rw [run_bind_error hrun, run_bind_error hrun']
            exact ⟨.same _, rfl, fun b heq => by cases heq⟩
        | respelled k used hused =>
          rw [run_bind_error hrun, run_bind_error hrun']
          exact ⟨.respelled k used hused, rfl, fun b heq => by cases heq⟩
  fail e t := ⟨.same _, rfl, fun a heq => by cases heq⟩

/-- Where nothing but the spelling of keywords differs. -/
def Input.Likeness.respellings : Input.Likeness := ⟨Keyword.Respelled, Eq, Eq⟩

/-- The same lookups, and keywords in two spellings, lead to computations that differ only in reports. -/
theorem lookups_carry_spellings {σ : Type} (look : Lookups (ExceptT Error (StateM σ))) :
    (sameButSpelling σ).Carries ⟨fun _ => True, fun _ => True⟩ .respellings look look where
  keyword κ _ s s' h t := by
    rcases Keyword.parse_respelled κ h with ⟨k, hs, hs'⟩ | ⟨e, rfl, hs, hs'⟩
    · rw [Resolve.keyword, Resolve.keyword, hs, hs']
      exact ⟨.same _, rfl, fun _ _ => trivial⟩
    · rw [Resolve.keyword, Resolve.keyword, hs, hs']
      exact ⟨.respelled e s' h, rfl, fun _ _ => trivial⟩
  aliased heq t := heq ▸ ⟨.same _, rfl, fun _ _ => trivial⟩
  query heq t := heq ▸ ⟨.same _, rfl, fun _ _ => trivial⟩

namespace Catalog

/-- **How keywords are spelled does not matter.**  In any catalog whatsoever, whatever its store, its
    records and the services out of reach, let two inputs differ, at any of their keywords, in the case of
    ASCII letters and in the blanks around them.  Then compiling them gives the same statement with the
    same number of columns, or the same error, in which at most the text that names no keyword is spelled
    differently; and it leaves the same catalog. -/
theorem compile_respelled (c : Catalog) (owner : Owner) {input input' : Input.Query}
    (h : input.Like .respellings input') :
    SameButSpelling ((compile owner input).run c).1 ((compile owner input').run c).1 ∧
      ((compile owner input).run c).2 = ((compile owner input').run c).2 := by
  have hcarries := lookups_carry_spellings (Cache.lookups c.backing owner)
  obtain ⟨hresult, hleft, -⟩ := Resolve.compile_alike hcarries h c.traffic
  rw [compile, compile, resolving, resolving, fetching_run, fetching_run]
  refine ⟨hresult, ?_⟩
  show { c with traffic := _ } = { c with traffic := _ }
  rw [hleft]

/-! ## A query in two spellings -/

/-- The late orders of customers, with a keyword of each set. -/
def lateOrders (join connective comparison arithmetic unit function direction : String) :
    Input.Query where
  select := ⟨.list [.aliased (.name "total")], .aliased (.name "orders"),
    some ⟨.aliased (.name "customers"),
      .comparison (.column "orders" "customer_id") "=" (.aliased (.name "customer_pk")), join⟩⟩
  filter := some (.connective (.isNull (.column "orders" "total") true) connective
    (.comparison (.column "orders" "created_at") comparison
      (.binary (.literal (.text "2024-01-31")) arithmetic (.interval 3 unit))))
  groups := some [.column "orders" "total"]
  having := some (.comparison (.call function [.star]) "=" (.literal (.int 1)))
  order := some [⟨.column "orders" "total", direction⟩]
  limit := none

open Keyword in
/-- Respelled keywords make a respelled query. -/
theorem lateOrders_like {join connective comparison arithmetic unit function direction : String}
    {join' connective' comparison' arithmetic' unit' function' direction' : String}
    (hjoin : Respelled join join') (hconnective : Respelled connective connective')
    (hcomparison : Respelled comparison comparison') (harithmetic : Respelled arithmetic arithmetic')
    (hunit : Respelled unit unit') (hfunction : Respelled function function')
    (hdirection : Respelled direction direction') :
    (lateOrders join connective comparison arithmetic unit function direction).Like .respellings
      (lateOrders join' connective' comparison' arithmetic' unit' function' direction') := by
  have hequal : Respelled "=" "=" := respelled_iff.mpr rfl
  refine ⟨⟨?_, ⟨_, rfl, rfl⟩, .some ⟨⟨_, rfl, rfl⟩, ?_, hjoin⟩⟩, .some ?_, .some ?_, .some ?_,
    .some (.cons ⟨rfl, hdirection⟩ .nil), rfl⟩
  · exact ⟨_, rfl, .cons ⟨_, rfl, rfl⟩ .nil⟩
  · exact ⟨_, _, _, rfl, hequal, rfl, ⟨_, rfl, rfl⟩⟩
  · refine ⟨_, _, _, rfl, hconnective, ⟨_, rfl, rfl⟩, ⟨_, _, _, rfl, hcomparison, rfl, ?_⟩⟩
    exact ⟨_, _, _, rfl, harithmetic, rfl, ⟨_, rfl, hunit⟩⟩
  · exact ⟨_, _, rfl, rfl, rfl⟩
  · exact ⟨_, _, _, rfl, hequal, ⟨_, _, rfl, hfunction, ⟨_, _, rfl, rfl, rfl⟩⟩, rfl⟩

/-- All keywords respelled at once, and one that there is not. -/
theorem compile_respelled_late_orders :
    let plain := lateOrders "LEFT" "AND" "<=" "+" "DAY" "COUNT" "ASC"
    let varied := lateOrders "left " "\u3000And" " <= " "\t+" "dAy" "count" " asc"
    let odd := lateOrders "LEFT" "AND" "<=" "+" "FORTNIGHT" "COUNT" "ASC"
    let odder := lateOrders "LEFT" "AND" "<=" "+" " fortNight" "COUNT" "ASC"
    plain.Like .respellings varied ∧ odd.Like .respellings odder ∧
      ((compile 1 plain).run Sample.catalog).1.toOption.isSome = true ∧
      SameButSpelling ((compile 1 plain).run Sample.catalog).1 ((compile 1 varied).run Sample.catalog).1 ∧
      ((compile 1 odd).run Sample.catalog).1.toOption.isSome = false ∧
      SameButSpelling ((compile 1 odd).run Sample.catalog).1 ((compile 1 odder).run Sample.catalog).1 := by
  intro plain varied odd odder
  have hplain : plain.Like .respellings varied := by
    refine lateOrders_like ?_ ?_ ?_ ?_ ?_ ?_ ?_ <;> decide +kernel
  have hodd : odd.Like .respellings odder := by
    refine lateOrders_like ?_ ?_ ?_ ?_ ?_ ?_ ?_ <;> decide +kernel
  exact ⟨hplain, hodd, by decide +kernel, (compile_respelled Sample.catalog 1 hplain).1,
    by decide +kernel, (compile_respelled Sample.catalog 1 hodd).1⟩

end Catalog

end QueryCatalog
