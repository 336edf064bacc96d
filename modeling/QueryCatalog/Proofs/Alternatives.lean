/-
  Alternatives that do not compete.

  Where a document may stand for one of several things, the first one that fits is taken.  Mostly no
  second one does, so that the order of the alternatives is of no account:

  * the mark for all columns has no tag, and is no list;
  * the items of a list of expressions have tags, whereas a reference begins with a number or `null`;
  * a tag in words tells expressions from conditions, but for an alias, which is both at once.

  Two things are left to the order.  A whole number is an integer and a float.  And the tag may be the
  number of a variant instead of its word: the numbers below seven stand for different variants of
  expressions and of conditions, and with the fields of both in it a document decodes as both.
-/
import QueryCatalog.Proofs.DecodeLogic
import QueryCatalog.Proofs.Decoding

namespace QueryCatalog

variable {α β : Type} {doc : Doc}

/-! ## The order of the alternatives -/

/-- Among alternatives that agree, up to a function, it does not matter which one is met first. -/
theorem Doc.choose_perm_map (f : α → β) (choice : String) {order alternatives : List (Option α)}
    (hperm : order.Perm alternatives)
    (hagree : ∀ x ∈ alternatives, ∀ a ∈ x, ∀ y ∈ alternatives, ∀ b ∈ y, f a = f b) :
    (doc.choose choice order).map f = (doc.choose choice alternatives).map f := by
  unfold Doc.choose
  by_cases hclean : doc.isClean = true
  · rw [if_pos hclean, if_pos hclean]
    cases hfirst : alternatives.findSome? id with
    | none =>
      have hnone : order.findSome? id = none := by
        refine List.findSome?_eq_none_iff.mpr fun x hx => ?_
        exact List.findSome?_eq_none_iff.mp hfirst x (hperm.mem_iff.mp hx)
      rw [hnone]
    | some a =>
      obtain ⟨x, hx, ha⟩ := List.exists_of_findSome?_eq_some hfirst
      -- both orders come to an alternative, and the two alternatives agree
      cases hother : order.findSome? id with
      | none =>
        have hxnone := List.findSome?_eq_none_iff.mp hother x (hperm.mem_iff.mpr hx)
        rw [ha] at hxnone
        cases hxnone
      | some b =>
        obtain ⟨y, hy, hb⟩ := List.exists_of_findSome?_eq_some hother
        exact congrArg Except.ok (hagree y (hperm.mem_iff.mp hy) b hb x hx a ha)
  · rw [if_neg hclean, if_neg hclean]

/-- Alternatives that agree may be tried in any order. -/
theorem Doc.choose_perm (choice : String) {order alternatives : List (Option α)}
    (hperm : order.Perm alternatives)
    (hagree : ∀ x ∈ alternatives, ∀ a ∈ x, ∀ y ∈ alternatives, ∀ b ∈ y, a = b) :
    doc.choose choice order = doc.choose choice alternatives := by
  have hsame : (doc.choose choice order).map id = (doc.choose choice alternatives).map id :=
    Doc.choose_perm_map id choice hperm hagree
  rwa [Except.map_id, id, id] at hsame

/-- Of two alternatives that never both fit, either may be tried first. -/
theorem Doc.choose_pair (choice : String) {x y : Option α} {order : List (Option α)}
    (hperm : order.Perm [x, y]) (hapart : x.isSome = true → y = none) :
    doc.choose choice order = doc.choose choice [x, y] := by
  refine Doc.choose_perm choice hperm ?_
  cases x with
  | none => simp +contextual
  | some a => simp [hapart rfl]

/-- The mark for all columns may be tried before or behind what it does not fit. -/
theorem Doc.choose_star (choice : String) {mark : α} {x : Option α} {order : List (Option α)}
    (hperm : order.Perm [if doc.isStar then some mark else none, x])
    (hapart : doc.isStar = true → x = none) :
    doc.choose choice order = doc.choose choice [if doc.isStar then some mark else none, x] := by
  refine Doc.choose_pair choice hperm fun hfits => ?_
  split at hfits
  · next hstar => exact hapart hstar
  · cases hfits

/-! ## Tags -/

namespace Doc

/-- What stands where a tagged record has its tag. -/
def tag? : Doc → Option Doc
  | .object members => members.lookup (some "type")
  | .array items => items.head?
  | _ => none

/-- The tag is a number by which expressions and conditions have different variants. -/
def SharesNumber (doc : Doc) : Prop := ∃ n : Nat, n < 7 ∧ doc.tag? = some (.int n)

variable {τ : Type} [Tagged τ] {position : Position} {v : τ}

/-- Whether the members behind the tag are in order does not depend on what the tag is read as. -/
theorem variantOfMembers_behind {members : List (Option String × Doc)} {u : τ}
    (h : variantOfMembers τ position (some u) members = .ok v) (σ : Type) [Tagged σ] (q : Position)
    (w : σ) : variantOfMembers σ q (some w) members = .ok w := by
  induction members with
  | nil => rfl
  | cons m members ih =>
    obtain ⟨_ | key, d⟩ := m
    · cases h
    · by_cases htype : (key == "type") = true
      · rw [variantOfMembers, if_pos htype] at h
        cases h
      · rw [variantOfMembers, if_neg htype] at h ⊢
        split at h
        · next hclean =>
          rw [if_pos hclean]
          exact ih h
        · cases h

/-- Of the members of an object, the tag alone tells the variant, among any variants. -/
theorem variantOfMembers_eq_variant {members : List (Option String × Doc)}
    (h : variantOfMembers τ position none members = .ok v) :
    ∃ t, members.lookup (some "type") = some t ∧
      ∀ (σ : Type) [Tagged σ] (q : Position), variantOfMembers σ q none members = t.variant σ q := by
  induction members with
  | nil => cases h
  | cons m members ih =>
    obtain ⟨_ | key, d⟩ := m
    · cases h
    · by_cases htype : (key == "type") = true
      · -- the tag is here
        have hkey : key = "type" := eq_of_beq htype
        rw [variantOfMembers, if_pos htype] at h
        refine ⟨d, by rw [hkey, List.lookup_cons_self], fun σ _ q => ?_⟩
        rw [variantOfMembers, if_pos htype]
        cases hd : d.variant τ position with
        | error e =>
          rw [hd] at h
          cases h
        | ok u =>
          rw [hd] at h
          cases d.variant σ q with
          | error e => rfl
          | ok w => exact variantOfMembers_behind h σ q w
      · rw [variantOfMembers, if_neg htype] at h
        split at h
        · next hclean =>
          obtain ⟨t, ht, hvariant⟩ := ih h
          have hkey : (some "type" == some key) = false := by
            refine beq_false_of_ne fun heq => htype ?_
            exact beq_iff_eq.mpr (Option.some.inj heq).symm
          refine ⟨t, ?_, fun σ _ q => ?_⟩
          · rw [List.lookup_cons, hkey]
            exact ht
          · rw [variantOfMembers, if_neg htype, if_pos hclean]
            exact hvariant σ q
        · cases h

/-- A record has one tag, and that alone tells its variant, among any variants. -/
theorem variantOf_eq_variant (h : doc.variantOf τ position = .ok v) :
    ∃ t, doc.tag? = some t ∧
      ∀ (σ : Type) [Tagged σ] (q : Position), doc.variantOf σ q = t.variant σ q := by
  cases doc with
  | object members => exact variantOfMembers_eq_variant h
  | array items =>
    cases items with
    | nil => cases h
    | cons first rest =>
      refine ⟨first, rfl, fun σ _ q => ?_⟩
      -- that the rest is clean does not depend on the kind of the tag
      have hclean : cleanItems rest = true := by
        cases hfirst : first.variant τ position with
        | error e =>
          rw [variantOf, hfirst] at h
          cases h
        | ok u =>
          rw [variantOf, hfirst] at h
          by_contra hfaulty
          have herror := h.symm.trans (if_neg hfaulty)
          cases herror
      rw [variantOf, hclean]
      cases first.variant σ q with
      | error e => rfl
      | ok w => rfl
  | _ => cases h

/-- The mark for all columns has no tag. -/
theorem variantOf_of_isStar (h : doc.isStar = true) :
    ∃ e, doc.variantOf τ position = .error e := by
  unfold isStar at h
  split at h
  · exact ⟨_, rfl⟩
  · next key =>
    have hkey : key = "*" := eq_of_beq h
    subst hkey
    exact ⟨_, rfl⟩
  · cases h

end Doc

namespace Tagged

variable {τ : Type} [Tagged τ] {v : τ}

/-- A variant that is named has that name. -/
theorem tag_of_ofTag {t : String} (h : ofTag τ t = .ok v) : tag v = t := by
  rw [ofTag] at h
  split at h
  · next hfound =>
    cases h
    have htag := List.find?_some hfound
    exact eq_of_beq htag
  · cases h

/-- A variant that is numbered stands at that place of the list. -/
theorem variants_of_ofNumber {n : Int} (h : ofNumber τ n = .ok v) :
    0 ≤ n ∧ (variants : List τ)[n.toNat]? = some v := by
  rw [ofNumber] at h
  split at h
  · next hfound =>
    cases h
    split at hfound
    · next hn => exact ⟨hn, hfound⟩
    · cases hfound
  · cases h

end Tagged

namespace Input

/-! ## Expressions and conditions -/

/-- The variant that a condition is of. -/
def Cond.variant : Cond → CondTag
  | .negation .. => .negation
  | .connective .. => .connective
  | .comparison .. => .comparison
  | .between .. => .between
  | .isNull .. => .isNull
  | .member .. => .member
  | .existence .. => .existence
  | .aliased .. => .aliased

/-- Only an alias is called the same as an expression and as a condition. -/
theorem aliased_of_tag_eq {v : ExprTag} {w : CondTag} (h : Tagged.tag v = Tagged.tag w) :
    v = .aliased ∧ w = .aliased := by
  revert h
  cases v <;> cases w <;> decide

/-- A tag for an expression and a condition is that of an alias, or a number below seven. -/
theorem aliased_or_number {t : Doc} {p q : Position} {v : ExprTag} {w : CondTag}
    (hv : t.variant ExprTag p = .ok v) (hw : t.variant CondTag q = .ok w) :
    (v = .aliased ∧ w = .aliased) ∨
      (p = .inner ∧ q = .inner ∧ ∃ n : Nat, n < 7 ∧ t = .int n) := by
  cases t with
  | text s =>
    have hv : Tagged.ofTag ExprTag s = .ok v := by cases p <;> exact hv
    have hw : Tagged.ofTag CondTag s = .ok w := by cases q <;> exact hw
    exact .inl (aliased_of_tag_eq ((Tagged.tag_of_ofTag hv).trans (Tagged.tag_of_ofTag hw).symm))
  | int n =>
    cases p with
    | outer => cases hv
    | inner =>
      cases q with
      | outer => cases hw
      | inner =>
        obtain ⟨hn, hv⟩ := Tagged.variants_of_ofNumber hv
        obtain ⟨-, hw⟩ := Tagged.variants_of_ofNumber hw
        have hle : n.toNat < 8 := (List.getElem?_eq_some_iff.mp hw).1
        by_cases hlast : n.toNat = 7
        · -- the seventh variant is the alias in both
          rw [hlast] at hv hw
          cases hv
          cases hw
          exact .inl ⟨rfl, rfl⟩
        · refine .inr ⟨rfl, rfl, n.toNat, by omega, ?_⟩
          rw [Int.toNat_of_nonneg hn]
  | _ => cases p <;> cases hv

/-- What is an alias among conditions is an alias among expressions. -/
theorem variant_aliased {t : Doc} {p : Position} (h : t.variant CondTag p = .ok .aliased) :
    t.variant ExprTag p = .ok .aliased := by
  cases t with
  | text s =>
    have h : Tagged.ofTag CondTag s = .ok .aliased := by cases p <;> exact h
    cases Tagged.tag_of_ofTag h
    cases p <;> rfl
  | int n =>
    cases p with
    | outer => cases h
    | inner =>
      obtain ⟨hn, h⟩ := Tagged.variants_of_ofNumber h
      have hle : n.toNat < 8 := (List.getElem?_eq_some_iff.mp h).1
      -- number 7 is the alias among conditions, and it is among values
      have hlast : n.toNat = 7 := by
        generalize n.toNat = k at h hle
        revert h
        revert k
        decide
      obtain rfl : n = 7 := by omega
      rfl
  | _ => cases p <;> cases h

/-- An expression is of the variant that the tag tells. -/
theorem Expr.variantOf_of_ofDoc (position : Position) (doc : Doc) :
    (Expr.ofDoc position doc).Yields fun e => doc.variantOf ExprTag position = .ok e.variant := by
  rw [Expr.ofDoc]
  refine Decoded.Yields.bind (.any _) fun v hv _ => ?_
  rw [hv]
  cases v with
  | literal | table => exact .variantRecord fun r _ => .map (fun _ _ => rfl) (.any _)
  | call | interval | conditional | column =>
    exact .variantRecord fun r _ => .seq (.map (fun _ _ _ _ => rfl) (.any _)) (.any _)
  | binary =>
    exact .variantRecord fun r _ =>
      .seq (.seq (.map (fun _ _ _ _ _ _ => rfl) (.any _)) (.any _)) (.any _)
  | aliased | subquery => exact .map (fun _ _ => rfl) (.any _)

/-- A condition is of the variant that the tag tells. -/
theorem Cond.variantOf_of_ofDoc (position : Position) (doc : Doc) :
    (Cond.ofDoc position doc).Yields fun c => doc.variantOf CondTag position = .ok c.variant := by
  rw [Cond.ofDoc]
  refine Decoded.Yields.bind (.any _) fun v hv _ => ?_
  rw [hv]
  cases v with
  | negation => exact .variantRecord fun r _ => .map (fun _ _ => rfl) (.any _)
  | isNull | existence =>
    exact .variantRecord fun r _ => .seq (.map (fun _ _ _ _ => rfl) (.any _)) (.any _)
  | connective | comparison | member =>
    exact .variantRecord fun r _ =>
      .seq (.seq (.map (fun _ _ _ _ _ _ => rfl) (.any _)) (.any _)) (.any _)
  | between =>
    exact .variantRecord fun r _ =>
      .seq (.seq (.seq (.map (fun _ _ _ _ _ _ _ _ => rfl) (.any _)) (.any _)) (.any _)) (.any _)
  | aliased => exact .map (fun _ _ => rfl) (.any _)

/-- A value tagged as an alias is decoded as a lookup. -/
theorem Expr.ofDoc_aliased {p : Position} (h : doc.variantOf ExprTag p = .ok .aliased) :
    Expr.ofDoc p doc = Expr.aliased <$> Lookup.ofDoc .aliased 1 doc := by
  rw [Expr.ofDoc, h]
  rfl

theorem Cond.ofDoc_aliased {p : Position} (h : doc.variantOf CondTag p = .ok .aliased) :
    Cond.ofDoc p doc = Cond.aliased <$> Lookup.ofDoc .aliased 1 doc := by
  rw [Cond.ofDoc, h]
  rfl

/-- What decodes as an expression and as a condition is an alias in both, or has a number for a tag. -/
theorem same_alias_or_number {p q : Position} {e : Expr} {c : Cond} (he : Expr.ofDoc p doc = .ok e)
    (hc : Cond.ofDoc q doc = .ok c) :
    (∃ lookup, e = .aliased lookup ∧ c = .aliased lookup) ∨
      (p = .inner ∧ q = .inner ∧ doc.SharesNumber) := by
  have hv : doc.variantOf ExprTag p = .ok e.variant := Expr.variantOf_of_ofDoc p doc e he
  have hw : doc.variantOf CondTag q = .ok c.variant := Cond.variantOf_of_ofDoc q doc c hc
  obtain ⟨t, ht, hvariant⟩ := Doc.variantOf_eq_variant hv
  rcases aliased_or_number ((hvariant ExprTag p).symm.trans hv) ((hvariant CondTag q).symm.trans hw) with
    ⟨hv', hw'⟩ | ⟨hp, hq, n, hn, rfl⟩
  · rw [hv'] at hv
    rw [hw'] at hw
    rw [Expr.ofDoc_aliased hv] at he
    rw [Cond.ofDoc_aliased hw] at hc
    -- both hold what the fields of the document point at
    cases hlookup : Lookup.ofDoc .aliased 1 doc with
    | error e =>
      rw [hlookup] at he
      cases he
    | ok lookup =>
      rw [hlookup] at he hc
      cases he
      cases hc
      exact .inl ⟨lookup, rfl, rfl⟩
  · exact .inr ⟨hp, hq, n, hn, ht⟩

/-- An alias among conditions is decoded as the same alias among expressions. -/
theorem Expr.ofDoc_of_aliased {p : Position} {lookup : Lookup}
    (h : Cond.ofDoc p doc = .ok (.aliased lookup)) : Expr.ofDoc p doc = .ok (.aliased lookup) := by
  have hw := Cond.variantOf_of_ofDoc p doc _ h
  obtain ⟨t, -, hvariant⟩ := Doc.variantOf_eq_variant hw
  have hv : doc.variantOf ExprTag p = .ok .aliased := by
    rw [hvariant ExprTag p]
    exact variant_aliased ((hvariant CondTag p).symm.trans hw)
  rw [Cond.ofDoc_aliased hw] at h
  rw [Expr.ofDoc_aliased hv]
  cases hlookup : Lookup.ofDoc .aliased 1 doc with
  | error e =>
    rw [hlookup] at h
    cases h
  | ok found =>
    rw [hlookup] at h
    cases h
    rfl

/-! ## Marks, lists and references -/

/-- A star is no value. -/
theorem Expr.ofDoc_of_isStar (h : doc.isStar = true) (p : Position) :
    ∃ e, Expr.ofDoc p doc = .error e := by
  obtain ⟨e, he⟩ : ∃ e, doc.variantOf ExprTag p = .error e := Doc.variantOf_of_isStar h
  rw [Expr.ofDoc, he]
  exact ⟨e, rfl⟩

theorem not_list_of_isStar (h : doc.isStar = true) (decode : Doc.Part doc → Decoded α) :
    ∃ e, doc.nonEmptyList decode = .error e := by
  cases doc with
  | array items => cases h
  | _ => exact ⟨_, rfl⟩

end Input

/-! ## Literals -/

namespace Literal

/-- The kinds of literals. -/
inductive Kind where
  | null | bool | int | float | text
deriving DecidableEq, Repr

/-- The kinds in the order in which they are tried. -/
def Kind.all : List Kind := [.null, .bool, .int, .float, .text]

/-- The literal of a kind that a document holds. -/
def alternative (doc : Doc) : Kind → Option Literal
  | .null => match doc with
    | .null => some .null
    | _ => none
  | .bool => (doc.asBool.map .bool).toOption
  | .int => (doc.asInt64.map .int).toOption
  | .float => floatOfDoc? doc
  | .text => (doc.asText.map .text).toOption

theorem alternatives_eq (doc : Doc) : alternatives doc = Kind.all.map (alternative doc) := rfl

/-- The kinds of literals that a document may hold. -/
def kindsOf : Doc → List Kind
  | .null => [.null]
  | .bool _ => [.bool]
  | .int _ => [.int, .float]
  | .real _ => [.float]
  | .text _ => [.text]
  | _ => []

/-- A document holds literals of its own kinds only. -/
theorem mem_kindsOf {k : Kind} {l : Literal} (h : alternative doc k = some l) : k ∈ kindsOf doc := by
  cases k with
  | null => cases doc with
    | null => exact List.mem_cons_self
    | _ => cases h
  | bool => cases doc with
    | bool b => exact List.mem_cons_self
    | _ => cases h
  | int => cases doc with
    | int i => exact List.mem_cons_self
    | _ => cases h
  | float => cases doc with
    | int i => exact List.mem_cons_of_mem _ List.mem_cons_self
    | real x => exact List.mem_cons_self
    | _ => cases h
  | text => cases doc with
    | text s => exact List.mem_cons_self
    | _ => cases h

/-- Two kinds that fit one document are those of whole numbers. -/
theorem int_and_float {k k' : Kind} {l l' : Literal} (h : alternative doc k = some l)
    (h' : alternative doc k' = some l') (hne : k ≠ k') :
    (k = .int ∧ k' = .float) ∨ (k = .float ∧ k' = .int) := by
  have hk := mem_kindsOf h
  have hk' := mem_kindsOf h'
  cases doc with
  | int i =>
    -- a whole number is the only document of two kinds
    have hpair : ∀ kind ∈ kindsOf (.int i), kind = .int ∨ kind = .float := by simp [kindsOf]
    rcases hpair k hk with rfl | rfl
    · rcases hpair k' hk' with rfl | rfl
      · exact absurd rfl hne
      · exact .inl ⟨rfl, rfl⟩
    · rcases hpair k' hk' with rfl | rfl
      · exact .inr ⟨rfl, rfl⟩
      · exact absurd rfl hne
  | null | bool | real | text =>
    exact absurd ((List.mem_singleton.mp hk).trans (List.mem_singleton.mp hk').symm) hne
  | _ => cases hk

/-- Where integers are tried before floats, an integer is found. -/
theorem findSome?_int {order : List Kind} {l : Literal} (hint : alternative doc .int = some l)
    (hnodup : order.Nodup) (hbefore : [Kind.int, Kind.float].Sublist order) :
    order.findSome? (alternative doc) = some l := by
  obtain ⟨front, back, rfl, hmem, hback⟩ := List.cons_sublist_iff.mp hbefore
  have hfloat : Kind.float ∉ front := by
    intro hfloat
    exact (List.nodup_append.mp hnodup).2.2 _ hfloat _ (List.singleton_sublist.mp hback) rfl
  rw [List.findSome?_append]
  cases hfound : front.findSome? (alternative doc) with
  | none =>
    rw [List.findSome?_eq_none_iff.mp hfound _ hmem] at hint
    cases hint
  | some l' =>
    obtain ⟨k, hk, hl'⟩ := List.exists_of_findSome?_eq_some hfound
    by_cases hkint : k = .int
    · rw [hkint, hint] at hl'
      rw [hl']
      rfl
    · -- besides an integer only a float fits, and that comes later
      rcases int_and_float hl' hint hkint with ⟨rfl, -⟩ | ⟨rfl, -⟩
      · exact absurd rfl hkint
      · exact absurd hk hfloat

/-- In whatever order the kinds are tried, integers before floats, a document holds the same literal. -/
theorem choose_kinds {order : List Kind} (hperm : order.Perm Kind.all)
    (hbefore : [Kind.int, Kind.float].Sublist order) :
    doc.choose "LiteralValue" (order.map (alternative doc)) = ofDoc doc := by
  rw [ofDoc, alternatives_eq]
  have hall : Kind.all.Nodup := by decide
  cases hint : alternative doc .int with
  | some l =>
    have hfirst : ∀ kinds : List Kind, (kinds.map (alternative doc)).findSome? id =
        kinds.findSome? (alternative doc) := fun kinds => List.findSome?_map
    rw [Doc.choose, Doc.choose, hfirst, hfirst, findSome?_int hint (hperm.nodup_iff.mpr hall) hbefore,
      findSome?_int hint hall (by decide)]
  | none =>
    -- without an integer no two kinds can both apply
    have hagree : ∀ x ∈ Kind.all.map (alternative doc), ∀ a ∈ x,
        ∀ y ∈ Kind.all.map (alternative doc), ∀ b ∈ y, a = b := by
      intro x hx a ha y hy b hb
      obtain ⟨k, -, rfl⟩ := List.mem_map.mp hx
      obtain ⟨k', -, rfl⟩ := List.mem_map.mp hy
      by_cases hkinds : k = k'
      · rw [hkinds, hb] at ha
        exact (Option.some.inj ha).symm
      · rcases int_and_float ha hb hkinds with ⟨rfl, -⟩ | ⟨-, rfl⟩
        · rw [hint] at ha
          cases ha
        · rw [hint] at hb
          cases hb
    exact Doc.choose_perm "LiteralValue" (hperm.map (alternative doc)) hagree

end Literal

/-! ## Choices -/

namespace Input

/-- What the argument of a call may be. -/
def Arg.alternatives (doc : Doc) : List (Option Arg) :=
  [if doc.isStar then some .star else none, ((Expr.ofDoc .inner doc).map .expr).toOption]

theorem Arg.ofDoc_eq (doc : Doc) : Arg.ofDoc doc = doc.choose "FunctionArg" (Arg.alternatives doc) := by
  rw [Arg.ofDoc, Arg.alternatives]

/-- What the source of a membership test may be. -/
def MemberSource.alternatives (doc : Doc) : List (Option MemberSource) :=
  [((doc.nonEmptyList fun q => Expr.ofDoc .inner q.doc).map .list).toOption,
    ((Lookup.ofDoc .query 0 doc).map .query).toOption]

theorem MemberSource.ofDoc_eq (doc : Doc) :
    MemberSource.ofDoc doc = doc.choose "InSource" (MemberSource.alternatives doc) := by
  rw [MemberSource.ofDoc, MemberSource.alternatives]

/-- What the columns of a query may be. -/
def Columns.alternatives (doc : Doc) : List (Option Columns) :=
  [if doc.isStar then some .all else none,
    ((doc.nonEmptyList fun q => Reference.ofDoc .inner q.doc).map .list).toOption]

theorem Columns.ofDoc_eq (doc : Doc) :
    Columns.ofDoc doc = doc.choose "SelectColumns" (Columns.alternatives doc) := rfl

/-- What the target of an alias may be. -/
def Target.alternatives (doc : Doc) : List (Option Target) :=
  [((Expr.ofDoc .inner doc).map .expr).toOption, ((Cond.ofDoc .inner doc).map .cond).toOption]

theorem Target.ofDoc_eq (doc : Doc) :
    Target.ofDoc doc = doc.choose "AliasTarget" (Target.alternatives doc) := rfl

/-- An argument is a star or a value, and never both. -/
theorem Arg.choose_order {order : List (Option Arg)} (h : order.Perm (Arg.alternatives doc)) :
    doc.choose "FunctionArg" order = Arg.ofDoc doc := by
  rw [Arg.ofDoc_eq]
  refine Doc.choose_star _ h fun hstar => ?_
  obtain ⟨e, he⟩ := Expr.ofDoc_of_isStar hstar .inner
  rw [he]
  rfl

/-- The source of a membership test is a list or a lookup, and never both. -/
theorem MemberSource.choose_order {order : List (Option MemberSource)}
    (h : order.Perm (MemberSource.alternatives doc)) :
    doc.choose "InSource" order = MemberSource.ofDoc doc := by
  rw [MemberSource.ofDoc_eq]
  refine Doc.choose_pair _ h fun hlist => ?_
  cases hlookup : Lookup.ofDoc .query 0 doc with
  | error e => rfl
  | ok lookup =>
    obtain ⟨e, he⟩ := not_list_of_ofDoc hlookup .inner
    rw [he] at hlist
    cases hlist

/-- Columns are a star or a list, and never both. -/
theorem Columns.choose_order {order : List (Option Columns)} (h : order.Perm (Columns.alternatives doc)) :
    doc.choose "SelectColumns" order = Columns.ofDoc doc := by
  rw [Columns.ofDoc_eq]
  refine Doc.choose_star _ h fun hstar => ?_
  obtain ⟨e, he⟩ := not_list_of_isStar hstar fun q => Reference.ofDoc .inner q.doc
  rw [he]
  rfl

/-- A decoded target is no alias among conditions. -/
theorem Target.map_decoded_ofDoc (doc : Doc) :
    (Target.ofDoc doc).map Target.decoded = Target.ofDoc doc := by
  rw [Target.ofDoc, Doc.choose]
  by_cases hclean : doc.isClean = true
  · rw [if_pos hclean]
    cases he : Expr.ofDoc .inner doc with
    | ok e => rfl
    | error _ =>
      cases hc : Cond.ofDoc .inner doc with
      | error _ => rfl
      | ok c =>
        cases c with
        | aliased lookup =>
          -- such an alias would have been taken for a value
          rw [Expr.ofDoc_of_aliased hc] at he
          cases he
        | _ => rfl
  · rw [if_neg hclean]
    rfl

/-- The two alternatives of a target differ at most in what an alias is taken for, unless the tag is a number. -/
theorem Target.choose_order {order : List (Option Target)} (h : order.Perm (Target.alternatives doc))
    (hnumber : ¬ doc.SharesNumber) :
    (doc.choose "AliasTarget" order).map Target.decoded = Target.ofDoc doc := by
  rw [← Target.map_decoded_ofDoc, Target.ofDoc_eq]
  refine Doc.choose_perm_map Target.decoded _ h ?_
  rw [Target.alternatives]
  cases he : Expr.ofDoc .inner doc with
  | error _ => simp +contextual [Except.map, Except.toOption]
  | ok e =>
    cases hc : Cond.ofDoc .inner doc with
    | error _ => simp +contextual [Except.map, Except.toOption]
    | ok c =>
      rcases same_alias_or_number he hc with ⟨lookup, rfl, rfl⟩ | ⟨-, -, hshares⟩
      · simp [Except.map, Except.toOption, Target.decoded]
      · exact absurd hshares hnumber

/-- **Alternatives do not compete**, but for whole numbers and numbered tags.  For every document:

    * if it decodes as an expression and as a condition, then as the same alias, or its tag is a number
      below seven, in a place where tags may be numbers;
    * the mark for all columns is neither an expression nor a list of columns, and no list of expressions
      is a reference to a query;
    * if two kinds of literals fit it, they are integers and floats.

    So whatever the order in which the alternatives are tried, a document is the same argument, source of a
    membership test and list of columns; the same literal, as long as integers come before floats; and, unless
    its tag is such a number, the same target, up to what an alias is taken for. -/
theorem alternatives_exclusive (doc : Doc) :
    (∀ p q e c, Expr.ofDoc p doc = .ok e → Cond.ofDoc q doc = .ok c →
      (∃ lookup, e = .aliased lookup ∧ c = .aliased lookup) ∨
        (p = .inner ∧ q = .inner ∧ doc.SharesNumber)) ∧
    (doc.isStar = true → ∀ p e, Expr.ofDoc p doc ≠ .ok e) ∧
    (∀ lookup, Lookup.ofDoc .query 0 doc = .ok lookup →
      ∀ p es, doc.nonEmptyList (fun q => Expr.ofDoc p q.doc) ≠ .ok es) ∧
    (doc.isStar = true → ∀ p items, doc.nonEmptyList (fun q => Reference.ofDoc p q.doc) ≠ .ok items) ∧
    (∀ k k' l l', Literal.alternative doc k = some l → Literal.alternative doc k' = some l' → k ≠ k' →
      (k = .int ∧ k' = .float) ∨ (k = .float ∧ k' = .int)) ∧
    (∀ order, order.Perm (Arg.alternatives doc) → doc.choose "FunctionArg" order = Arg.ofDoc doc) ∧
    (∀ order, order.Perm (MemberSource.alternatives doc) →
      doc.choose "InSource" order = MemberSource.ofDoc doc) ∧
    (∀ order, order.Perm (Columns.alternatives doc) →
      doc.choose "SelectColumns" order = Columns.ofDoc doc) ∧
    (∀ order, order.Perm Literal.Kind.all → [Literal.Kind.int, Literal.Kind.float].Sublist order →
      doc.choose "LiteralValue" (order.map (Literal.alternative doc)) = Literal.ofDoc doc) ∧
    (¬ doc.SharesNumber → ∀ order, order.Perm (Target.alternatives doc) →
      (doc.choose "AliasTarget" order).map Target.decoded = Target.ofDoc doc) := by
  refine ⟨fun _ _ _ _ => same_alias_or_number, fun hstar p e he => ?_, fun lookup hlookup p es hes => ?_,
    fun hstar p items hitems => ?_, fun _ _ _ _ => Literal.int_and_float, fun _ => Arg.choose_order,
    fun _ => MemberSource.choose_order, fun _ => Columns.choose_order, fun _ => Literal.choose_kinds,
    fun hnumber _ horder => Target.choose_order horder hnumber⟩
  · -- the three forms that cannot be confused at all
    obtain ⟨_, herror⟩ := Expr.ofDoc_of_isStar hstar p
    rw [herror] at he
    cases he
  · obtain ⟨_, herror⟩ := not_list_of_ofDoc hlookup p
    rw [herror] at hes
    cases hes
  · obtain ⟨_, herror⟩ := not_list_of_isStar hstar fun q => Reference.ofDoc p q.doc
    rw [herror] at hitems
    cases hitems

/-- An alias that is tried as a condition first, and a whole number that is tried as a text first. -/
theorem alternatives_exclusive_alias :
    let doc : Doc := .array [.text "aliased", .int 6, .null]
    let order : List Literal.Kind := [.text, .int, .null, .float, .bool]
    (Expr.ofDoc .inner doc = .ok (.aliased (.id 6)) ∧ Cond.ofDoc .outer doc = .ok (.aliased (.id 6)) ∧
      ∃ lookup, Expr.aliased (.id 6) = .aliased lookup ∧ Cond.aliased (.id 6) = .aliased lookup) ∧
    (¬ doc.SharesNumber ∧ (Target.alternatives doc).reverse.Perm (Target.alternatives doc) ∧
      (doc.choose "AliasTarget" (Target.alternatives doc).reverse).map Target.decoded = Target.ofDoc doc) ∧
    (order.Perm Literal.Kind.all ∧ [Literal.Kind.int, Literal.Kind.float].Sublist order ∧
      (Doc.int 6).choose "LiteralValue" (order.map (Literal.alternative (.int 6))) =
        Literal.ofDoc (.int 6)) := by
  intro doc order
  have he : Expr.ofDoc .inner doc = .ok (.aliased (.id 6)) := by
    rw [Expr.ofDoc]
    rfl
  have hc : Cond.ofDoc .outer doc = .ok (.aliased (.id 6)) := by
    rw [Cond.ofDoc]
    rfl
  have hword : ¬ doc.SharesNumber := by
    rintro ⟨n, -, htag⟩
    cases htag
  have hreversed := List.reverse_perm (Target.alternatives doc)
  have hkinds : order.Perm Literal.Kind.all := by decide
  have hbefore : [Literal.Kind.int, Literal.Kind.float].Sublist order := by decide
  obtain ⟨hboth, -, -, -, -, -, -, -, -, htarget⟩ := alternatives_exclusive doc
  obtain ⟨-, -, -, -, -, -, -, -, hliteral, -⟩ := alternatives_exclusive (.int 6)
  refine ⟨⟨he, hc, ?_⟩, ⟨hword, hreversed, htarget hword _ hreversed⟩,
    ⟨hkinds, hbefore, hliteral order hkinds hbefore⟩⟩
  rcases hboth _ _ _ _ he hc with hsame | ⟨-, houter, -⟩
  · exact hsame
  · cases houter

/-- A document with the tag 0, a value for the literal and an operand for the negation. -/
def numberedDoc : Doc :=
  .object [(some "type", .int 0), (some "value", .int 1),
    (some "operand", .array [.text "aliased", .int 6, .null])]

/-- With a number for a tag the order of the alternatives decides: the document is a literal, and the
    negation of an alias. -/
theorem numbered_tag_competes :
    Expr.ofDoc .inner numberedDoc = .ok (.literal (.int 1)) ∧
    Cond.ofDoc .inner numberedDoc = .ok (.negation (.aliased (.id 6))) ∧
    Target.ofDoc numberedDoc = .ok (.expr (.literal (.int 1))) ∧
    numberedDoc.choose "AliasTarget" (Target.alternatives numberedDoc).reverse =
      .ok (.cond (.negation (.aliased (.id 6)))) := by
  have he : Expr.ofDoc .inner numberedDoc = .ok (.literal (.int 1)) := by
    rw [Expr.ofDoc]
    rfl
  have hoperand : Cond.ofDoc .inner (.array [.text "aliased", .int 6, .null]) = .ok (.aliased (.id 6)) := by
    rw [Cond.ofDoc]
    rfl
  have hc : Cond.ofDoc .inner numberedDoc = .ok (.negation (.aliased (.id 6))) := by
    -- the number 0 names the negation among conditions, and the literal among values
    have hvariant : numberedDoc.variantOf CondTag .inner = .ok .negation := rfl
    obtain ⟨layout, hlayout, hdefect, hgives⟩ : ∃ layout,
        numberedDoc.layout (fieldsNamed ["operand"]) 1 = .ok layout ∧ layout.defect = none ∧
          layout.Gives "operand" (some (.array [.text "aliased", .int 6, .null])) :=
      ⟨_, rfl, rfl, 2, some _, rfl, rfl⟩
    rw [Cond.ofDoc, hvariant]
    show numberedDoc.variantRecord (fieldsNamed ["operand"]) (fun r =>
      Cond.negation <$> r.required "operand" fun p => Cond.ofDoc .inner p.doc) = _
    rw [Doc.variantRecord, hlayout]
    exact Layout.close_ok hdefect (Located.map_ok (Layout.required_ok (Cond.ofDoc .inner) hgives hoperand))
  refine ⟨he, hc, ?_, ?_⟩
  · rw [Target.ofDoc, he]
    rfl
  · rw [Target.alternatives, he, hc]
    rfl

end Input

end QueryCatalog
