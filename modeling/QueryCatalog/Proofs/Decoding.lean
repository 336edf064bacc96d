/-
  Decoding gives back what was written.

  Whatever form each record of a request has, decoding it gives the request (`Expr.ofDoc_written`,
  `Cond.ofDoc_written`, and the clauses after them).  Where there is a choice without a tag, the
  alternatives that come first do not take what was written for a later one: an expression is never the mark
  for all columns (`isStar_eq_false`), a reference is never a list of expressions
  (`not_list_of_ofDoc`), and the tag of a condition is unknown among expressions
  (`Cond.WrittenAs.tag_unknown`), but for an alias, which is taken for an expression.

  Every request can be written (`InputForms`), so that this says something of all requests:
  `decoding_covers_input`.
-/
import QueryCatalog.Proofs.DecodeLogic
import QueryCatalog.Proofs.InputForms

namespace QueryCatalog

variable {α : Type} {whole doc : Doc}

/-! ## Values and references -/

/-- A literal written out is read back. -/
theorem Literal.ofDoc_toDoc (l : Literal) : Literal.ofDoc l.toDoc = .ok l := by
  cases l with
  | null => rfl
  | bool b => rfl
  | int i =>
    have hint : ((Doc.int i.toInt).asInt64.map Literal.int).toOption = some (.int i) := by
      rw [Doc.asInt64_toInt]
      rfl
    unfold toDoc ofDoc alternatives
    rw [hint]
    rfl
  | float x => rfl
  | text s => rfl

namespace Layout

variable {layout : Layout whole} {name : String} {value : Option Doc}

/-- A field that is left out only where it has its default. -/
theorem omissible_ok (decode : Doc → Decoded α) {a default : α} {written : Doc → Prop}
    (h : layout.Gives name value) (hvalue : Omissible (a = default) written value)
    (hdecode : ∀ doc, value = some doc → written doc → decode doc = .ok a) :
    (layout.defaulted name default fun p => decode p.doc).result = .ok a := by
  refine defaulted_ok decode h (fun hnone => ?_) fun doc hsome => ?_
  · subst hnone
    exact hvalue.symm
  · subst hsome
    exact hdecode doc rfl hvalue

/-- A field that is left out or `null` only where there is nothing to write. -/
theorem optional_ok (decode : Doc → Decoded α) {a : Option α} {written : α → Doc → Prop}
    (h : layout.Gives name value) (hvalue : Optional written a value)
    (hnull : ∀ b, decode .null ≠ .ok b)
    (hdecode : ∀ x ∈ a, ∀ doc, value = some doc → written x doc → decode doc = .ok x) :
    (layout.defaulted name none fun p => p.doc.nullable decode).result = .ok a := by
  refine defaulted_ok (fun doc => doc.nullable decode) h (fun hnone => ?_) fun doc hsome => ?_
  · -- nothing was given: then there is no such clause
    subst hnone
    cases a with
    | none => rfl
    | some x =>
      obtain ⟨doc, hdoc, -⟩ := hvalue
      cases hdoc
  · subst hsome
    cases a with
    | none =>
      have hdoc : doc = .null := hvalue
      subst hdoc
      rfl
    | some x =>
      obtain ⟨doc', hdoc, hwritten⟩ := hvalue
      cases hdoc
      exact Doc.nullable_ok hnull (hdecode x rfl doc rfl hwritten)

/-- A flag that is left out is down. -/
theorem flag_ok {flag : Bool} (h : layout.Gives name value)
    (hvalue : Omissible (flag = false) (· = .bool flag) value) :
    (layout.defaulted name false fun p => p.doc.asBool).result = .ok flag := by
  refine omissible_ok Doc.asBool h hvalue ?_
  rintro doc - rfl
  rfl

/-- A keyword that is left out is the default one. -/
theorem text_ok {s default : String} (h : layout.Gives name value)
    (hvalue : Omissible (s = default) (· = .text s) value) :
    (layout.defaulted name default fun p => p.doc.asText).result = .ok s := by
  refine omissible_ok Doc.asText h hvalue ?_
  rintro doc - rfl
  rfl

/-- An operation is decoded from its name between two operands. -/
theorem operation_ok {β : Type} (decode : Doc → Decoded α) (f : α → String → α → β) {a b : α}
    {l r : Doc} {left middle right operation : String}
    (h : layout.GivesAll (plainFields
      [(left, some l), (middle, some (.text operation)), (right, some r)]))
    (hl : decode l = .ok a) (hr : decode r = .ok b) :
    (f <$> layout.required left (fun p => decode p.doc) <*>
      layout.required middle (fun p => p.doc.asText) <*>
      layout.required right (fun p => decode p.doc)).result = .ok (f a operation b) := by
  obtain ⟨hleft, hmiddle, hright, -⟩ := h
  have hleft := required_ok decode hleft hl
  have hmiddle := required_ok Doc.asText (a := operation) hmiddle rfl
  have hright := required_ok decode hright hr
  exact Located.seq_ok (Located.seq_ok (Located.map_ok hleft) hmiddle) hright

/-- What a lookup lacks is decoded as nothing. -/
theorem lacks_ok (decode : Doc → Decoded α) (h : layout.Gives name value)
    (hnamed : layout.named = doc.isObject) (hlacks : doc.Lacks value) :
    (layout.option name decode).result = .ok none := by
  refine option_ok decode h (fun hnone => ?_) fun d hsome => ?_
  · rcases hlacks with hnull | ⟨-, hobject⟩
    · cases hnone.symm.trans hnull
    · exact ⟨hnamed.trans hobject, rfl⟩
  · rcases hlacks with hnull | ⟨hnone, -⟩
    · cases hsome.symm.trans hnull
      rfl
    · cases hsome.symm.trans hnone

end Layout

namespace Lookup

/-- The fields of a lookup. -/
def fields (kind : EntityKind) : List Field := fieldsNamed [kind.text ++ "_id", kind.text ++ "_name"]

/-- The fields of a lookup cannot be taken for one another. -/
theorem apart_fields (kind : EntityKind) : (fields kind).Pairwise Field.Apart := by
  cases kind <;> decide

/-- A lookup is decoded from its two fields. -/
theorem ofDoc_given {kind : EntityKind} {tag : Option String} {number name : Option Doc}
    {a : Option EntityId} {b : Option String}
    (hrecord : doc.IsRecord tag
      (plainFields [(kind.text ++ "_id", number), (kind.text ++ "_name", name)]))
    (hclean : doc.isClean = true)
    (hnumber : ∀ layout : Layout doc, layout.named = doc.isObject →
      layout.Gives (kind.text ++ "_id") number →
      (layout.option (kind.text ++ "_id") Doc.asUInt64).result = .ok a)
    (hname : ∀ layout : Layout doc, layout.named = doc.isObject →
      layout.Gives (kind.text ++ "_name") name →
      (layout.option (kind.text ++ "_name") Doc.asText).result = .ok b) :
    ∃ layout : Layout doc, doc.layout (fields kind) tag.toList.length = .ok layout ∧
      layout.close (Prod.mk <$> layout.option (kind.text ++ "_id") Doc.asUInt64 <*>
        layout.option (kind.text ++ "_name") Doc.asText) = .ok (a, b) := by
  obtain ⟨layout, hlayout, hdefect, hnamed, hgives⟩ :=
    Doc.layout_of_isRecord (fields kind) hrecord hclean rfl (apart_fields kind)
  obtain ⟨hid, htext, -⟩ := hgives
  refine ⟨layout, hlayout, Layout.close_ok hdefect ?_⟩
  exact Located.seq_ok (Located.map_ok (hnumber layout hnamed hid)) (hname layout hnamed htext)

/-- Lookups are written as records. -/
theorem WrittenAs.isRecord {kind : EntityKind} {tag : Option String} {lookup : Lookup}
    (h : lookup.WrittenAs kind tag doc) : ∃ fields, doc.IsRecord tag fields := by
  cases h with
  | id hrecord _ => exact ⟨_, hrecord⟩
  | name hrecord _ => exact ⟨_, hrecord⟩

/-- A lookup is decoded from every form that it may be written in. -/
theorem ofDoc_written {kind : EntityKind} {tag : Option String} {lookup : Lookup}
    (h : lookup.WrittenAs kind tag doc) (hclean : doc.isClean = true) :
    Lookup.ofDoc kind tag.toList.length doc = .ok lookup := by
  cases h with
  -- one of the two fields is given, and the other one is missing or null
  | @id n name _ hrecord hname =>
    obtain ⟨layout, hlayout, hclose⟩ := ofDoc_given (a := some n) (b := none) hrecord hclean
      (fun layout _ hgives => Layout.option_ok _ hgives (fun h => by cases h) fun d hd => by
        cases hd
        exact Doc.nullable_ok (fun b h => by cases h) (Doc.asUInt64_toNat n))
      fun layout hnamed hgives => Layout.lacks_ok _ hgives hnamed hname
    rw [fields] at hlayout
    rw [Lookup.ofDoc, hlayout]
    show (layout.close _ >>= _) = _
    rw [hclose]
    rfl
  | @name number s _ hrecord hnumber =>
    obtain ⟨layout, hlayout, hclose⟩ := ofDoc_given (a := none) (b := some s) hrecord hclean
      (fun layout hnamed hgives => Layout.lacks_ok _ hgives hnamed hnumber)
      fun layout _ hgives => Layout.option_ok _ hgives (fun h => by cases h) fun d hd => by
        cases hd
        exact Doc.nullable_ok (fun b h => by cases h) rfl
    rw [fields] at hlayout
    rw [Lookup.ofDoc, hlayout]
    show (layout.close _ >>= _) = _
    rw [hclose]
    rfl

/-- What holds only a lookup is decoded from it. -/
theorem map_ofDoc_written (f : Lookup → α) {kind : EntityKind} {tag : Option String} {lookup : Lookup}
    (h : lookup.WrittenAs kind tag doc) (hclean : doc.isClean = true) :
    f <$> Lookup.ofDoc kind tag.toList.length doc = .ok (f lookup) := by
  rw [ofDoc_written h hclean]
  rfl

end Lookup

/-! ## Choices -/

namespace Doc

/-- The first alternative is taken where it applies. -/
theorem choose_first (choice : String) (hclean : doc.isClean = true) (a : α)
    (alternatives : List (Option α)) : doc.choose choice (some a :: alternatives) = .ok a := by
  rw [choose, if_pos hclean]
  rfl

/-- The second is taken where the first does not apply. -/
theorem choose_second (choice : String) (hclean : doc.isClean = true) (a : α)
    (alternatives : List (Option α)) :
    doc.choose choice (none :: some a :: alternatives) = .ok a := by
  rw [choose, if_pos hclean]
  rfl

/-- A tagged record is not the mark for all columns. -/
theorem isStar_eq_false {t : String} {fields : List (Field × Option Doc)}
    (h : doc.IsRecord (some t) fields) : doc.isStar = false := by
  cases h with
  | array _ => rfl
  | @object members htag _ =>
    have htag := htag t rfl
    unfold isStar
    split
    · rename_i heq
      cases heq
    · rename_i key heq
      cases heq
      -- the only member of a star is null, and so it is no tag
      by_cases hkey : key ∈ tagField.spellings
      · rw [Field.among_cons_of_mem hkey] at htag
        cases htag
      · rw [Field.among_cons_of_not_mem hkey] at htag
        cases htag
    · rfl

end Doc

namespace Input

/-- Neither null nor a whole number is a value. -/
theorem Expr.ofDoc_plain {d : Doc} (position : Position) (h : d = .null ∨ ∃ i, d = .int i) :
    Expr.ofDoc position d = .error .malformed := by
  rw [Expr.ofDoc]
  rcases h with rfl | ⟨i, rfl⟩
  · rfl
  · rfl

/-- An array that is a reference begins with a number or with `null`. -/
theorem first_of_lookup {kind : EntityKind} {d : Doc} {ds : List Doc} :
    (Lookup.ofDoc kind 0 (.array (d :: ds))).Yields fun _ => d = .null ∨ ∃ i, d = .int i := by
  have hnumber : (d.nullable Doc.asUInt64).Yields fun _ => d = .null ∨ ∃ i, d = .int i := by
    intro a ha
    cases d with
    | null => exact .inl rfl
    | int i => exact .inr ⟨i, rfl⟩
    | _ => cases ha
  refine .bind (.any _) fun layout hlayout _ => ?_
  cases hlayout
  refine .bind (Layout.close_yields (.seq (.map (fun _ hfirst _ _ => hfirst) ?_) (.any _)))
    fun _ _ hfirst _ _ => hfirst
  have hapart : (fieldsNamed [kind.text ++ "_id", kind.text ++ "_name"]).Pairwise Field.Apart := by
    cases kind <;> decide
  have hslot := Layout.find?_ofItems hapart (i := 0) rfl ((Doc.itemParts (d :: ds)).drop 0)
  rw [Layout.option, Layout.field, hslot]
  exact .met 0 hnumber

/-- A reference is no list of expressions. -/
theorem not_list_of_ofDoc {kind : EntityKind} {lookup : Lookup} (h : Lookup.ofDoc kind 0 doc = .ok lookup)
    (p : Position) : ∃ e, doc.nonEmptyList (fun q => Expr.ofDoc p q.doc) = .error e := by
  cases doc with
  | array items =>
    cases items with
    | nil => exact ⟨_, rfl⟩
    | cons d ds => exact ⟨_, Doc.nonEmptyList_error (Expr.ofDoc_plain p (first_of_lookup lookup h))⟩
  | _ => exact ⟨_, rfl⟩

/-! ## Expressions and conditions -/

/-- Every value is written as a record with a tag. -/
theorem Expr.WrittenAs.tagged {e : Expr} (h : e.WrittenAs doc) :
    ∃ t fields, doc.IsRecord (some t) fields := by
  cases e with
  | literal value => exact ⟨_, _, h⟩
  | binary left operation right =>
    obtain ⟨l, r, hrecord, -⟩ := h
    exact ⟨_, _, hrecord⟩
  | call function args =>
    obtain ⟨list, hrecord, -⟩ := h
    exact ⟨_, _, hrecord⟩
  | interval value unit => exact ⟨_, _, h⟩
  | conditional branches otherwise =>
    obtain ⟨docs, o, hrecord, -⟩ := h
    exact ⟨_, _, hrecord⟩
  | table name => exact ⟨_, _, h⟩
  | column table column => exact ⟨_, _, h⟩
  | aliased lookup => exact ⟨_, h.isRecord⟩
  | subquery lookup => exact ⟨_, h.isRecord⟩

mutual

/-- An expression is decoded from whatever it is written as. -/
theorem Expr.ofDoc_written : ∀ (e : Expr) {doc : Doc} (position : Position), e.Full →
    e.WrittenAs doc → doc.isClean = true → Expr.ofDoc position doc = .ok e
  | .literal value, doc, position, _, h, hclean => by
    rw [Expr.ofDoc, Doc.variantOf_eq h hclean position]
    refine Doc.variantRecord_ok h hclean rfl (by decide) fun layout hgives => ?_
    exact Located.map_ok (Layout.required_ok Literal.ofDoc hgives.1 value.ofDoc_toDoc)
  | .binary left operation right, doc, position, hfull, h, hclean => by
    obtain ⟨l, r, hrecord, hl, hr⟩ := h
    obtain ⟨hlclean, -, hrclean, -⟩ := hrecord.cleanValues hclean
    rw [Expr.ofDoc, Doc.variantOf_eq hrecord hclean position]
    refine Doc.variantRecord_ok hrecord hclean rfl (by decide) fun layout hgives => ?_
    have hl := left.ofDoc_written .inner hfull.1 hl (hlclean l rfl)
    have hr := right.ofDoc_written .inner hfull.2 hr (hrclean r rfl)
    exact Layout.operation_ok (Expr.ofDoc .inner) Expr.binary hgives hl hr
  | .call function args, doc, position, hfull, h, hclean => by
    obtain ⟨list, hrecord, hlist⟩ := h
    obtain ⟨-, hlclean, -⟩ := hrecord.cleanValues hclean
    rw [Expr.ofDoc, Doc.variantOf_eq hrecord hclean position]
    refine Doc.variantRecord_ok hrecord hclean rfl (by decide) fun layout hgives => ?_
    -- the arguments may be left out if there are none
    obtain ⟨hfunction, hargs, -⟩ := hgives
    refine Located.seq_ok (Located.map_ok (Layout.required_ok Doc.asText hfunction rfl)) ?_
    refine Layout.omissible_ok (fun d => d.list fun q => Arg.ofDoc q.doc) hargs hlist ?_
    rintro d rfl ⟨docs, rfl, hdocs⟩
    exact (Doc.list_array docs Arg.ofDoc).trans (args_written args hfull hdocs (hlclean _ rfl))
  | .interval value unit, doc, position, _, h, hclean => by
    rw [Expr.ofDoc, Doc.variantOf_eq h hclean position]
    refine Doc.variantRecord_ok h hclean rfl (by decide) fun layout hgives => ?_
    obtain ⟨hvalue, hunit, -⟩ := hgives
    exact Located.seq_ok (Located.map_ok
      (Layout.required_ok Doc.asInt64 hvalue (Doc.asInt64_toInt value)))
      (Layout.required_ok Doc.asText hunit rfl)
  | .conditional branches otherwise, doc, position, hfull, h, hclean => by
    obtain ⟨docs, o, hrecord, hdocs, ho⟩ := h
    obtain ⟨hne, hbranches, hotherwise⟩ := hfull
    obtain ⟨hdclean, hoclean, -⟩ := hrecord.cleanValues hclean
    rw [Expr.ofDoc, Doc.variantOf_eq hrecord hclean position]
    refine Doc.variantRecord_ok hrecord hclean rfl (by decide) fun layout hgives => ?_
    obtain ⟨hcases, hdefault, -⟩ := hgives
    have hdocs := branches_written branches hbranches hdocs (hdclean _ rfl)
    have ho := otherwise.ofDoc_written .inner hotherwise ho (hoclean o rfl)
    exact Located.seq_ok (Located.map_ok
      (Layout.required_ok (fun d => d.nonEmptyList fun q => Branch.ofDoc q.doc) hcases
        (Doc.nonEmptyList_array hdocs hne)))
      (Layout.required_ok (Expr.ofDoc .inner) hdefault ho)
  | .table name, doc, position, _, h, hclean => by
    rw [Expr.ofDoc, Doc.variantOf_eq h hclean position]
    refine Doc.variantRecord_ok h hclean rfl (by decide) fun layout hgives => ?_
    exact Located.map_ok (Layout.required_ok Doc.asText hgives.1 rfl)
  | .column t c, doc, position, _, h, hclean => by
    rw [Expr.ofDoc, Doc.variantOf_eq h hclean position]
    refine Doc.variantRecord_ok h hclean rfl (by decide) fun layout hgives => ?_
    obtain ⟨htable, hcolumn, -⟩ := hgives
    exact Located.seq_ok (Located.map_ok (Layout.required_ok Doc.asText htable rfl))
      (Layout.required_ok Doc.asText hcolumn rfl)
  | .aliased lookup, doc, position, _, h, hclean => by
    obtain ⟨fields, hrecord⟩ := h.isRecord
    rw [Expr.ofDoc, Doc.variantOf_eq hrecord hclean position]
    exact Lookup.map_ofDoc_written Expr.aliased h hclean
  | .subquery lookup, doc, position, _, h, hclean => by
    obtain ⟨fields, hrecord⟩ := h.isRecord
    rw [Expr.ofDoc, Doc.variantOf_eq hrecord hclean position]
    exact Lookup.map_ofDoc_written Expr.subquery h hclean

/-- Arguments are decoded: the star from its word, and others as values. -/
theorem Arg.ofDoc_written : ∀ (a : Arg) {doc : Doc}, a.Full → a.WrittenAs doc →
    doc.isClean = true → Arg.ofDoc doc = .ok a
  | .star, doc, _, h, hclean => by
    have hdoc : doc = .text "*" := h
    subst hdoc
    rw [Arg.ofDoc]
    exact Doc.choose_first "FunctionArg" hclean _ _
  | .expr value, doc, hfull, h, hclean => by
    obtain ⟨t, fields, hrecord⟩ := Expr.WrittenAs.tagged h
    rw [Arg.ofDoc, Doc.isStar_eq_false hrecord, value.ofDoc_written .inner hfull h hclean]
    exact Doc.choose_second "FunctionArg" hclean _ _

theorem Branch.ofDoc_written : ∀ (b : Branch) {doc : Doc}, b.Full → b.WrittenAs doc →
    doc.isClean = true → Branch.ofDoc doc = .ok b
  | .mk condition result, doc, hfull, h, hclean => by
    obtain ⟨c, r, hrecord, hc, hr⟩ := h
    obtain ⟨hcclean, hrclean, -⟩ := hrecord.cleanValues hclean
    rw [Branch.ofDoc]
    refine Doc.record_ok hrecord hclean rfl (by decide) fun layout hgives => ?_
    obtain ⟨hcase, hthen, -⟩ := hgives
    have hc := condition.ofDoc_written .inner hfull.1 hc (hcclean c rfl)
    have hr := result.ofDoc_written .inner hfull.2 hr (hrclean r rfl)
    exact Located.seq_ok (Located.map_ok (Layout.required_ok (Cond.ofDoc .inner) hcase hc))
      (Layout.required_ok (Expr.ofDoc .inner) hthen hr)

/-- A condition is decoded from whatever it is written as. -/
theorem Cond.ofDoc_written : ∀ (c : Cond) {doc : Doc} (position : Position), c.Full →
    c.WrittenAs doc → doc.isClean = true → Cond.ofDoc position doc = .ok c
  | .negation operand, doc, position, hfull, h, hclean => by
    obtain ⟨o, hrecord, ho⟩ := h
    obtain ⟨hoclean, -⟩ := hrecord.cleanValues hclean
    rw [Cond.ofDoc, Doc.variantOf_eq hrecord hclean position]
    refine Doc.variantRecord_ok hrecord hclean rfl (by decide) fun layout hgives => ?_
    -- operands stand inside, wherever the whole stands
    have ho := operand.ofDoc_written .inner hfull ho (hoclean o rfl)
    exact Located.map_ok (Layout.required_ok (Cond.ofDoc .inner) hgives.1 ho)
  | .connective left operation right, doc, position, hfull, h, hclean => by
    obtain ⟨l, r, hrecord, hl, hr⟩ := h
    obtain ⟨hlclean, -, hrclean, -⟩ := hrecord.cleanValues hclean
    rw [Cond.ofDoc, Doc.variantOf_eq hrecord hclean position]
    refine Doc.variantRecord_ok hrecord hclean rfl (by decide) fun layout hgives => ?_
    have hl := left.ofDoc_written .inner hfull.1 hl (hlclean l rfl)
    have hr := right.ofDoc_written .inner hfull.2 hr (hrclean r rfl)
    exact Layout.operation_ok (Cond.ofDoc .inner) Cond.connective hgives hl hr
  | .comparison left operation right, doc, position, hfull, h, hclean => by
    obtain ⟨l, r, hrecord, hl, hr⟩ := h
    obtain ⟨hlclean, -, hrclean, -⟩ := hrecord.cleanValues hclean
    rw [Cond.ofDoc, Doc.variantOf_eq hrecord hclean position]
    refine Doc.variantRecord_ok hrecord hclean rfl (by decide) fun layout hgives => ?_
    have hl := left.ofDoc_written .inner hfull.1 hl (hlclean l rfl)
    have hr := right.ofDoc_written .inner hfull.2 hr (hrclean r rfl)
    exact Layout.operation_ok (Expr.ofDoc .inner) Cond.comparison hgives hl hr
  | .between value lower upper negated, doc, position, hfull, h, hclean => by
    obtain ⟨v, l, u, flag, hrecord, hv, hl, hu, hflag⟩ := h
    obtain ⟨hvfull, hlfull, hufull⟩ := hfull
    obtain ⟨hvclean, hlclean, huclean, -⟩ := hrecord.cleanValues hclean
    rw [Cond.ofDoc, Doc.variantOf_eq hrecord hclean position]
    refine Doc.variantRecord_ok hrecord hclean rfl (by decide) fun layout hgives => ?_
    obtain ⟨hvalue, hlower, hupper, hnegate, -⟩ := hgives
    have hv := value.ofDoc_written .inner hvfull hv (hvclean v rfl)
    have hl := lower.ofDoc_written .inner hlfull hl (hlclean l rfl)
    have hu := upper.ofDoc_written .inner hufull hu (huclean u rfl)
    exact Located.seq_ok (Located.seq_ok (Located.seq_ok (Located.map_ok
      (Layout.required_ok (Expr.ofDoc .inner) hvalue hv))
      (Layout.required_ok (Expr.ofDoc .inner) hlower hl))
      (Layout.required_ok (Expr.ofDoc .inner) hupper hu))
      (Layout.flag_ok hnegate hflag)
  | .isNull value negated, doc, position, hfull, h, hclean => by
    obtain ⟨v, flag, hrecord, hv, hflag⟩ := h
    obtain ⟨hvclean, -⟩ := hrecord.cleanValues hclean
    rw [Cond.ofDoc, Doc.variantOf_eq hrecord hclean position]
    refine Doc.variantRecord_ok hrecord hclean rfl (by decide) fun layout hgives => ?_
    obtain ⟨hvalue, hnegate, -⟩ := hgives
    have hv := value.ofDoc_written .inner hfull hv (hvclean v rfl)
    exact Located.seq_ok (Located.map_ok (Layout.required_ok (Expr.ofDoc .inner) hvalue hv))
      (Layout.flag_ok hnegate hflag)
  | .member value source negated, doc, position, hfull, h, hclean => by
    obtain ⟨v, s, flag, hrecord, hv, hs, hflag⟩ := h
    obtain ⟨hvclean, hsclean, -⟩ := hrecord.cleanValues hclean
    rw [Cond.ofDoc, Doc.variantOf_eq hrecord hclean position]
    refine Doc.variantRecord_ok hrecord hclean rfl (by decide) fun layout hgives => ?_
    obtain ⟨hvalue, hsource, hnegate, -⟩ := hgives
    have hv := value.ofDoc_written .inner hfull.1 hv (hvclean v rfl)
    have hs := source.ofDoc_written hfull.2 hs (hsclean s rfl)
    exact Located.seq_ok (Located.seq_ok (Located.map_ok
      (Layout.required_ok (Expr.ofDoc .inner) hvalue hv))
      (Layout.required_ok MemberSource.ofDoc hsource hs))
      (Layout.flag_ok hnegate hflag)
  | .existence lookup negated, doc, position, _, h, hclean => by
    obtain ⟨q, flag, hrecord, hq, hflag⟩ := h
    obtain ⟨hqclean, -⟩ := hrecord.cleanValues hclean
    rw [Cond.ofDoc, Doc.variantOf_eq hrecord hclean position]
    refine Doc.variantRecord_ok hrecord hclean rfl (by decide) fun layout hgives => ?_
    obtain ⟨hquery, hnegate, -⟩ := hgives
    have hq : Lookup.ofDoc .query 0 q = .ok lookup := Lookup.ofDoc_written hq (hqclean q rfl)
    exact Located.seq_ok (Located.map_ok (Layout.required_ok (Lookup.ofDoc .query 0) hquery hq))
      (Layout.flag_ok hnegate hflag)
  | .aliased lookup, doc, position, _, h, hclean => by
    obtain ⟨fields, hrecord⟩ := h.isRecord
    rw [Cond.ofDoc, Doc.variantOf_eq hrecord hclean position]
    exact Lookup.map_ofDoc_written Cond.aliased h hclean

/-- What membership is tested in is decoded: a list by being one, a subquery by being none. -/
theorem MemberSource.ofDoc_written : ∀ (s : MemberSource) {doc : Doc}, s.Full → s.WrittenAs doc →
    doc.isClean = true → MemberSource.ofDoc doc = .ok s
  | .list items, doc, hfull, h, hclean => by
    obtain ⟨docs, rfl, hdocs⟩ := h
    have hdocs := exprs_written items .inner hfull.2 hdocs hclean
    rw [MemberSource.ofDoc, Doc.nonEmptyList_array hdocs hfull.1]
    exact Doc.choose_first "InSource" hclean _ _
  | .query lookup, doc, _, h, hclean => by
    have hlookup : Lookup.ofDoc .query 0 doc = .ok lookup := Lookup.ofDoc_written h hclean
    obtain ⟨e, hlist⟩ := not_list_of_ofDoc hlookup .inner
    rw [MemberSource.ofDoc, hlist, hlookup]
    exact Doc.choose_second "InSource" hclean _ _

/-- Lists of values are decoded item by item. -/
theorem exprs_written : ∀ (es : List Expr) {docs : List Doc} (position : Position), fullExprs es →
    exprsWrittenAs es docs → Doc.cleanItems docs = true →
    docs.mapM (Expr.ofDoc position) = .ok es
  | [], docs, position, _, h, _ => by
    have hdocs : docs = [] := h
    rw [hdocs]
    rfl
  | e :: es, docs, position, hfull, h, hclean => by
    obtain ⟨d, ds, rfl, hd, hds⟩ := h
    obtain ⟨hdclean, hdsclean⟩ := Bool.and_eq_true_iff.mp hclean
    exact Doc.mapM_cons_ok (e.ofDoc_written position hfull.1 hd hdclean)
      (exprs_written es position hfull.2 hds hdsclean)

theorem args_written : ∀ (as : List Arg) {docs : List Doc}, fullArgs as → argsWrittenAs as docs →
    Doc.cleanItems docs = true → docs.mapM Arg.ofDoc = .ok as
  | [], docs, _, h, _ => by
    have hdocs : docs = [] := h
    rw [hdocs]
    rfl
  | a :: as, docs, hfull, h, hclean => by
    obtain ⟨d, ds, rfl, hd, hds⟩ := h
    obtain ⟨hdclean, hdsclean⟩ := Bool.and_eq_true_iff.mp hclean
    exact Doc.mapM_cons_ok (a.ofDoc_written hfull.1 hd hdclean) (args_written as hfull.2 hds hdsclean)

theorem branches_written : ∀ (bs : List Branch) {docs : List Doc}, fullBranches bs →
    branchesWrittenAs bs docs → Doc.cleanItems docs = true → docs.mapM Branch.ofDoc = .ok bs
  | [], docs, _, h, _ => by
    have hdocs : docs = [] := h
    rw [hdocs]
    rfl
  | b :: bs, docs, hfull, h, hclean => by
    obtain ⟨d, ds, rfl, hd, hds⟩ := h
    obtain ⟨hdclean, hdsclean⟩ := Bool.and_eq_true_iff.mp hclean
    exact Doc.mapM_cons_ok (b.ofDoc_written hfull.1 hd hdclean)
      (branches_written bs hfull.2 hds hdsclean)

end

/-! ## Clauses -/

/-- Items of a list are decoded from whatever they are written as. -/
theorem mapM_written {β : Type} {written : β → Doc → Prop} {decode : Doc → Decoded β} {bs : List β}
    {docs : List Doc} (h : List.Forall₂ written bs docs) (hclean : Doc.cleanItems docs = true)
    (hdecode : ∀ b ∈ bs, ∀ doc, written b doc → doc.isClean = true → decode doc = .ok b) :
    docs.mapM decode = .ok bs := by
  induction h with
  | nil => rfl
  | @cons b d bs ds hd _ ih =>
    obtain ⟨hdclean, hdsclean⟩ := Bool.and_eq_true_iff.mp hclean
    obtain ⟨hb, hbs⟩ := List.forall_mem_cons.mp hdecode
    exact Doc.mapM_cons_ok (hb d hd hdclean) (ih hdsclean hbs)

/-- References are decoded, at whatever position. -/
theorem Reference.ofDoc_written {r : Reference} (h : r.WrittenAs doc) (hclean : doc.isClean = true)
    (position : Position) : Reference.ofDoc position doc = .ok r := by
  cases r with
  | aliased lookup =>
    obtain ⟨fields, hrecord⟩ := h.isRecord
    rw [Reference.ofDoc, Doc.variantOf_eq hrecord hclean position]
    exact Lookup.map_ofDoc_written Reference.aliased h hclean
  | subquery lookup =>
    obtain ⟨fields, hrecord⟩ := h.isRecord
    rw [Reference.ofDoc, Doc.variantOf_eq hrecord hclean position]
    exact Lookup.map_ofDoc_written Reference.subquery h hclean

theorem Columns.ofDoc_written {columns : Columns} (hfull : columns.Full) (h : columns.WrittenAs doc)
    (hclean : doc.isClean = true) : Columns.ofDoc doc = .ok columns := by
  cases columns with
  | all =>
    have hdoc : doc = .text "*" := h
    subst hdoc
    exact Doc.choose_first "SelectColumns" hclean _ _
  | list items =>
    obtain ⟨docs, rfl, hdocs⟩ := h
    have hne : items ≠ [] := fun heq => hfull (congrArg Columns.list heq)
    have hdocs := mapM_written hdocs hclean fun r _ doc hr hd => r.ofDoc_written hr hd .inner
    rw [Columns.ofDoc, Doc.nonEmptyList_array hdocs hne]
    exact Doc.choose_second "SelectColumns" hclean _ _

theorem Join.ofDoc_written {j : Join} (hfull : j.condition.Full) (h : j.WrittenAs doc)
    (hclean : doc.isClean = true) : Join.ofDoc doc = .ok j := by
  obtain ⟨s, c, kind, hrecord, hs, hc, hkind⟩ := h
  obtain ⟨hsclean, hcclean, -⟩ := hrecord.cleanValues hclean
  refine Doc.record_ok hrecord hclean rfl (by decide) fun layout hgives => ?_
  obtain ⟨hsource, hcondition, hjoinkind, -⟩ := hgives
  have hs := j.source.ofDoc_written hs (hsclean s rfl) .outer
  have hc := j.condition.ofDoc_written .outer hfull hc (hcclean c rfl)
  refine Located.seq_ok (Located.seq_ok (Located.map_ok
    (Layout.required_ok (Reference.ofDoc .outer) hsource hs))
    (Layout.required_ok (Cond.ofDoc .outer) hcondition hc)) ?_
  exact Layout.text_ok hjoinkind hkind

theorem Select.ofDoc_written {s : Select} (hfull : s.Full) (h : s.WrittenAs doc)
    (hclean : doc.isClean = true) : Select.ofDoc doc = .ok s := by
  obtain ⟨columns, source, join, hrecord, hcolumns, hsource, hjoin⟩ := h
  obtain ⟨hcclean, hsclean, hjclean, -⟩ := hrecord.cleanValues hclean
  refine Doc.record_ok hrecord hclean rfl (by decide) fun layout hgives => ?_
  obtain ⟨hcgiven, hsgiven, hjgiven, -⟩ := hgives
  have hsource := s.source.ofDoc_written hsource (hsclean source rfl) .outer
  refine Located.seq_ok (Located.seq_ok (Located.map_ok ?_)
    (Layout.required_ok (Reference.ofDoc .outer) hsgiven hsource)) ?_
  · refine Layout.omissible_ok Columns.ofDoc hcgiven hcolumns fun doc hdoc hwritten => ?_
    exact Columns.ofDoc_written hfull.columns hwritten (hcclean doc hdoc)
  · refine Layout.optional_ok Join.ofDoc hjgiven hjoin (fun b hb => by cases hb) ?_
    intro j hj doc hdoc hwritten
    exact Join.ofDoc_written (hfull.join j hj) hwritten (hjclean doc hdoc)

theorem conditionOfDoc_written {c : Cond} (hfull : c.Full) (h : conditionWrittenAs c doc)
    (hclean : doc.isClean = true) : conditionOfDoc doc = .ok c := by
  obtain ⟨e, hrecord, he⟩ := h
  obtain ⟨heclean, -⟩ := hrecord.cleanValues hclean
  refine Doc.record_ok hrecord hclean rfl (by decide) fun layout hgives => ?_
  have he := c.ofDoc_written .outer hfull he (heclean e rfl)
  exact Layout.required_ok (Cond.ofDoc .outer) hgives.1 he

/-- A grouping is decoded if it has a value to group by. -/
theorem groupsOfDoc_written {groups : List Expr} (hne : groups ≠ []) (hfull : fullExprs groups)
    (h : groupsWrittenAs groups doc) (hclean : doc.isClean = true) :
    groupsOfDoc doc = .ok groups := by
  obtain ⟨docs, hrecord, hdocs⟩ := h
  obtain ⟨hdclean, -⟩ := hrecord.cleanValues hclean
  refine Doc.record_ok hrecord hclean rfl (by decide) fun layout hgives => ?_
  have hdocs := exprs_written groups .outer hfull hdocs (hdclean _ rfl)
  exact Layout.required_ok (fun d => d.nonEmptyList fun q => Expr.ofDoc .outer q.doc) hgives.1
    (Doc.nonEmptyList_array hdocs hne)

theorem OrderItem.ofDoc_written {item : OrderItem} (hfull : item.operand.Full)
    (h : item.WrittenAs doc) (hclean : doc.isClean = true) : OrderItem.ofDoc doc = .ok item := by
  obtain ⟨o, direction, hrecord, ho, hdirection⟩ := h
  obtain ⟨hoclean, -⟩ := hrecord.cleanValues hclean
  refine Doc.record_ok hrecord hclean rfl (by decide) fun layout hgives => ?_
  obtain ⟨hoperand, hgiven, -⟩ := hgives
  have ho := item.operand.ofDoc_written .outer hfull ho (hoclean o rfl)
  exact Located.seq_ok (Located.map_ok (Layout.required_ok (Expr.ofDoc .outer) hoperand ho))
    (Layout.text_ok hgiven hdirection)

/-- An order is decoded if it has an item. -/
theorem orderOfDoc_written {order : List OrderItem} (hne : order ≠ [])
    (hfull : ∀ item ∈ order, item.operand.Full) (h : orderWrittenAs order doc)
    (hclean : doc.isClean = true) : orderOfDoc doc = .ok order := by
  obtain ⟨docs, hrecord, hdocs⟩ := h
  obtain ⟨hdclean, -⟩ := hrecord.cleanValues hclean
  refine Doc.record_ok hrecord hclean rfl (by decide) fun layout hgives => ?_
  have hdocs := mapM_written hdocs (hdclean _ rfl) fun item hitem doc hwritten hd =>
    OrderItem.ofDoc_written (hfull item hitem) hwritten hd
  exact Layout.required_ok (fun d => d.nonEmptyList fun q => OrderItem.ofDoc q.doc) hgives.1
    (Doc.nonEmptyList_array hdocs hne)

theorem Limit.ofDoc_written {l : Limit} (h : l.WrittenAs doc) (hclean : doc.isClean = true) :
    Limit.ofDoc doc = .ok l := by
  obtain ⟨offset, hrecord, hoffset⟩ := h
  refine Doc.record_ok hrecord hclean rfl (by decide) fun layout hgives => ?_
  obtain ⟨hrows, hgiven, -⟩ := hgives
  refine Located.seq_ok (Located.map_ok
    (Layout.required_ok Doc.asUInt64 hrows (Doc.asUInt64_toNat l.rows))) ?_
  refine Layout.omissible_ok Doc.asUInt64 hgiven hoffset ?_
  rintro doc - rfl
  exact Doc.asUInt64_toNat l.offset

/-! ## Queries and alias requests -/

/-- Queries are decoded from every form that they may be written in, clause by clause. -/
theorem Query.ofDoc_written {q : Query} (hfull : q.Full) (h : q.WrittenAs doc)
    (hclean : doc.isClean = true) : Query.ofDoc doc = .ok q := by
  obtain ⟨select, filter, groups, having, order, limit, hrecord, hs, hf, hg, hh, ho, hl⟩ := h
  obtain ⟨hsclean, hfclean, hgclean, hhclean, hoclean, hlclean, -⟩ := hrecord.cleanValues hclean
  refine Doc.record_ok hrecord hclean rfl (by decide) fun layout hgives => ?_
  obtain ⟨hselect, hfilter, hgroups, hhaving, horder, hlimit, -⟩ := hgives
  have hselect := Layout.required_ok Select.ofDoc hselect
    (Select.ofDoc_written hfull.select hs (hsclean select rfl))
  -- none of the clauses can be decoded from null, which stands for an absent one
  have hfilter := Layout.optional_ok conditionOfDoc hfilter hf (fun b hb => by cases hb)
    fun c hc doc hdoc hwritten =>
      conditionOfDoc_written (hfull.filter c hc) hwritten (hfclean doc hdoc)
  have hgroups := Layout.optional_ok groupsOfDoc hgroups hg (fun b hb => by cases hb)
    fun es hes doc hdoc hwritten =>
      groupsOfDoc_written (hfull.groups es hes).1 (hfull.groups es hes).2 hwritten (hgclean doc hdoc)
  have hhaving := Layout.optional_ok conditionOfDoc hhaving hh (fun b hb => by cases hb)
    fun c hc doc hdoc hwritten =>
      conditionOfDoc_written (hfull.having c hc) hwritten (hhclean doc hdoc)
  have horder := Layout.optional_ok orderOfDoc horder ho (fun b hb => by cases hb)
    fun items hitems doc hdoc hwritten =>
      orderOfDoc_written (hfull.order items hitems).1 (hfull.order items hitems).2 hwritten
        (hoclean doc hdoc)
  have hlimit := Layout.optional_ok Limit.ofDoc hlimit hl (fun b hb => by cases hb)
    fun l _ doc hdoc hwritten => Limit.ofDoc_written hwritten (hlclean doc hdoc)
  exact Located.seq_ok (Located.seq_ok (Located.seq_ok (Located.seq_ok (Located.seq_ok
    (Located.map_ok hselect) hfilter) hgroups) hhaving) horder) hlimit

/-- But for an alias, the tag of a condition is not one of an expression. -/
theorem Cond.WrittenAs.tag_unknown {c : Cond} (h : c.WrittenAs doc)
    (hplain : ∀ lookup, c ≠ .aliased lookup) :
    ∃ t fields e, doc.IsRecord (some t) fields ∧ Tagged.ofTag ExprTag t = .error e := by
  cases c with
  | negation operand =>
    obtain ⟨o, hrecord, -⟩ := h
    exact ⟨_, _, _, hrecord, rfl⟩
  | connective left operation right =>
    obtain ⟨l, r, hrecord, -⟩ := h
    exact ⟨_, _, _, hrecord, rfl⟩
  | comparison left operation right =>
    obtain ⟨l, r, hrecord, -⟩ := h
    exact ⟨_, _, _, hrecord, rfl⟩
  | between value lower upper negated =>
    obtain ⟨v, l, u, flag, hrecord, -⟩ := h
    exact ⟨_, _, _, hrecord, rfl⟩
  | isNull value negated =>
    obtain ⟨v, flag, hrecord, -⟩ := h
    exact ⟨_, _, _, hrecord, rfl⟩
  | member value source negated =>
    obtain ⟨v, s, flag, hrecord, -⟩ := h
    exact ⟨_, _, _, hrecord, rfl⟩
  | existence lookup negated =>
    obtain ⟨q, flag, hrecord, -⟩ := h
    exact ⟨_, _, _, hrecord, rfl⟩
  | aliased lookup => exact absurd rfl (hplain lookup)

theorem Target.ofDoc_written {target : Target} (hfull : target.Full) (h : target.WrittenAs doc)
    (hclean : doc.isClean = true) : Target.ofDoc doc = .ok target.decoded := by
  cases target with
  | expr value =>
    rw [Target.ofDoc, value.ofDoc_written .inner hfull h hclean]
    exact Doc.choose_first "AliasTarget" hclean _ _
  | cond condition =>
    by_cases haliased : ∃ lookup, condition = .aliased lookup
    · obtain ⟨lookup, rfl⟩ := haliased
      -- an alias is written the same way as a value, and values are tried first
      have hvalue : (Expr.aliased lookup).WrittenAs doc := h
      rw [Target.ofDoc, Expr.ofDoc_written (.aliased lookup) .inner trivial hvalue hclean]
      exact Doc.choose_first "AliasTarget" hclean _ _
    · have hplain : ∀ lookup, condition ≠ .aliased lookup := fun l heq => haliased ⟨l, heq⟩
      obtain ⟨t, fields, e, hrecord, htag⟩ := Cond.WrittenAs.tag_unknown h hplain
      -- no other condition has a tag that values have
      have hvalue : Expr.ofDoc .inner doc = .error e := by
        rw [Expr.ofDoc, Doc.variantOf_eq hrecord hclean, htag]
        rfl
      have hdecoded : (Target.cond condition).decoded = .cond condition := by
        unfold Target.decoded
        split
        · rename_i lookup heq
          exact absurd (Target.cond.inj heq) (hplain lookup)
        · rfl
      rw [Target.ofDoc, hvalue, condition.ofDoc_written .inner hfull h hclean, hdecoded]
      exact Doc.choose_second "AliasTarget" hclean _ _

theorem AliasRequest.ofDoc_written {r : AliasRequest} (hfull : r.target.Full) (h : r.WrittenAs doc)
    (hclean : doc.isClean = true) :
    AliasRequest.ofDoc doc = .ok ⟨r.name, r.target.decoded⟩ := by
  obtain ⟨target, hrecord, ht⟩ := h
  obtain ⟨-, htclean, -⟩ := hrecord.cleanValues hclean
  refine Doc.record_ok hrecord hclean rfl (by decide) fun layout hgives => ?_
  obtain ⟨hname, htarget, -⟩ := hgives
  have ht := Target.ofDoc_written hfull ht (htclean target rfl)
  exact Located.seq_ok (Located.map_ok (Layout.required_ok Doc.asText hname rfl))
    (Layout.required_ok Target.ofDoc htarget ht)

/-- **Decoding covers all requests, in all of their forms.**  A document without faults that a query is
    written as is decoded as that query, whatever the form of each record in it, whatever the order of
    members and whatever unknown members there are, and whether defaults are left out or not.  The same
    holds of alias requests, but for a condition that is a bare alias, which is decoded as the value it
    is written like.  And every request can be written with objects throughout, or with arrays
    throughout. -/
theorem decoding_covers_input :
    (∀ (q : Query) (doc : Doc), q.Full → doc.isClean = true → q.WrittenAs doc →
      Query.ofDoc doc = .ok q) ∧
    (∀ (r : AliasRequest) (doc : Doc), r.target.Full → doc.isClean = true → r.WrittenAs doc →
      AliasRequest.ofDoc doc = .ok ⟨r.name, r.target.decoded⟩) ∧
    ∀ form : Doc.Form,
      (∀ q : Query, q.Full → q.WrittenAs (q.toDoc form) ∧ Query.ofDoc (q.toDoc form) = .ok q) ∧
      ∀ r : AliasRequest, r.target.Full → r.WrittenAs (r.toDoc form) ∧
        AliasRequest.ofDoc (r.toDoc form) = .ok ⟨r.name, r.target.decoded⟩ := by
  refine ⟨fun q doc hfull hclean h => Query.ofDoc_written hfull h hclean,
    fun r doc hfull hclean h => AliasRequest.ofDoc_written hfull h hclean, fun form => ⟨?_, ?_⟩⟩
  · intro q hfull
    obtain ⟨hwritten, hclean⟩ := q.toDoc_written form
    exact ⟨hwritten, Query.ofDoc_written hfull hwritten hclean⟩
  · intro r hfull
    obtain ⟨hwritten, hclean⟩ := r.toDoc_written form
    exact ⟨hwritten, AliasRequest.ofDoc_written hfull hwritten hclean⟩

/-- Totals of orders whose number is among those of a stored query. -/
def amongStored : Query where
  select := ⟨.list [.aliased (.name "total")], .aliased (.id 1), none⟩
  filter := some (.member (.column "orders" "id") (.query (.name "ids")) false)
  groups := none
  having := none
  order := none
  limit := none

/-- Its columns and its source: the second in front of the first, and called `from`. -/
def amongStoredSelect : Doc :=
  .object
    [(some "from", .array [.text "aliased", .int 1, .null]),
      (some "columns", .array [.object
        [(some "alias_name", .text "total"), (some "type", .text "aliased")]])]

/-- Its column, the tag between the other members. -/
def amongStoredColumn : Doc :=
  .object [(some "column", .text "id"), (some "type", .text "col"), (some "table", .text "orders")]

/-- Its condition: an array with a reference in an array, and without the flag at its end. -/
def amongStoredFilter : Doc :=
  .object [(some "expression",
    .array [.text "in", amongStoredColumn, .array [.null, .text "ids"]])]

/-- All of it, with an unknown member in between. -/
def amongStoredDoc : Doc :=
  .object [(some "where", amongStoredFilter), (some "comment", .array [.null, .object []]),
    (some "select", amongStoredSelect)]

/-- The document's head is the head of that query. -/
theorem amongStoredSelect_written : amongStored.select.WrittenAs amongStoredSelect := by
  have hsource : (Reference.aliased (.id 1)).WrittenAs (.array [.text "aliased", .int 1, .null]) := by
    have hfields : [some (Doc.int 1), some .null] = [Doc.int 1, .null].map some ++ List.replicate 0 none :=
      rfl
    exact .id (.array hfields) (.inl rfl)
  have hitem : (Reference.aliased (.name "total")).WrittenAs
      (.object [(some "alias_name", .text "total"), (some "type", .text "aliased")]) := by
    refine .name (.object (fun t ht => ?_) ?_) (.inr ⟨rfl, rfl⟩)
    · cases ht
      rfl
    · simp [plainFields, Field.among, EntityKind.text]
  refine ⟨some _, _, none, .object (fun _ h => by cases h) ?_, ⟨_, rfl, .cons hitem .nil⟩, hsource,
    trivial⟩
  simp [Field.among]

/-- The document's filter is the filter of that query. -/
theorem amongStoredFilter_written :
    Optional conditionWrittenAs amongStored.filter (some amongStoredFilter) := by
  have hcolumn : (Expr.column "orders" "id").WrittenAs amongStoredColumn := by
    refine .object (fun t ht => ?_) ?_
    · cases ht
      rfl
    · simp [plainFields, Field.among]
  have hquery : (MemberSource.query (.name "ids")).WrittenAs (.array [.null, .text "ids"]) := by
    have hfields : [some Doc.null, some (.text "ids")] =
        [Doc.null, .text "ids"].map some ++ List.replicate 0 none := rfl
    exact .name (.array hfields) (.inl rfl)
  have hcondition : (Cond.member (.column "orders" "id") (.query (.name "ids")) false).WrittenAs
      (.array [.text "in", amongStoredColumn, .array [.null, .text "ids"]]) := by
    have hfields : [some amongStoredColumn, some (.array [.null, .text "ids"]), none] =
        [amongStoredColumn, .array [.null, .text "ids"]].map some ++ List.replicate 1 none := rfl
    exact ⟨_, _, none, .array hfields, hcolumn, hquery, rfl⟩
  refine ⟨_, rfl, _, .object (fun _ h => by cases h) ?_, hcondition⟩
  simp [plainFields, Field.among]

/-- The query is full, its document is clean, and it is decoded from it. -/
theorem decoding_covers_among_stored :
    amongStored.Full ∧ amongStoredDoc.isClean = true ∧ amongStored.WrittenAs amongStoredDoc ∧
      Query.ofDoc amongStoredDoc = .ok amongStored := by
  have hfull : amongStored.Full := by
    refine ⟨⟨fun h => (by cases h), fun _ h => (by cases h)⟩, fun c hc => ?_, fun _ h => (by cases h),
      fun _ h => (by cases h), fun _ h => (by cases h)⟩
    cases hc
    exact ⟨trivial, trivial⟩
  have hclean : amongStoredDoc.isClean = true := rfl
  have hwritten : amongStored.WrittenAs amongStoredDoc := by
    refine ⟨_, some _, none, none, none, none, .object (fun _ h => by cases h) ?_,
      amongStoredSelect_written, amongStoredFilter_written, trivial, trivial, trivial, trivial⟩
    simp [plainFields, Field.among]
  exact ⟨hfull, hclean, hwritten,
    decoding_covers_input.1 amongStored amongStoredDoc hfull hclean hwritten⟩

end Input

end QueryCatalog
