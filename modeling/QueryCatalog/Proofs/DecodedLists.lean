/-
  No list is empty where the language has none.

  A conditional without branches, a membership test among nothing, a grouping, an order or a select
  list of no items cannot be written as SQL.  Nothing in the trees forbids them; it is the decoders
  that let none in, at any depth and in any of the forms of a document: `Expr.ofDoc_full` and its
  companions are an induction over the document in the shape of the decoders, `Query.ofDoc_full` and
  `AliasRequest.ofDoc_full` are what it is for.

  Along the way the length of the select list is kept below the number of values in the document.
-/
import QueryCatalog.Proofs.DecodeLogic
import QueryCatalog.Proofs.InputForms

namespace QueryCatalog

/-! ## Decoded trees -/

namespace Input

/-- Lists are full if all their items are; the mutual definition of fullness says so by recursion. -/
theorem fullExprs_of_forall {es : List Expr} (h : ∀ e ∈ es, e.Full) : fullExprs es := by
  induction es with
  | nil => trivial
  | cons e es ih => exact ⟨h e List.mem_cons_self, ih fun x hx => h x (List.mem_cons_of_mem _ hx)⟩

theorem fullArgs_of_forall {as : List Arg} (h : ∀ a ∈ as, a.Full) : fullArgs as := by
  induction as with
  | nil => trivial
  | cons a as ih => exact ⟨h a List.mem_cons_self, ih fun x hx => h x (List.mem_cons_of_mem _ hx)⟩

theorem fullBranches_of_forall {bs : List Branch} (h : ∀ b ∈ bs, b.Full) : fullBranches bs := by
  induction bs with
  | nil => trivial
  | cons b bs ih => exact ⟨h b List.mem_cons_self, ih fun x hx => h x (List.mem_cons_of_mem _ hx)⟩

open Layout (required_yields defaulted_yields)

mutual

/-- A decoded expression has no list that is empty and must not be. -/
theorem Expr.ofDoc_full (position : Position) (doc : Doc) :
    (Expr.ofDoc position doc).Yields Expr.Full := by
  have hvalue : ∀ p : doc.Part, (Expr.ofDoc .inner p.doc).Yields Expr.Full :=
    fun p => Expr.ofDoc_full .inner p.doc
  rw [Expr.ofDoc]
  refine Decoded.Yields.bind (.any _) fun variant _ _ => ?_
  cases variant with
  | literal => exact .variantRecord fun r _ => .map (fun _ _ => trivial) (.any _)
  | binary =>
    refine .variantRecord fun r _ => ?_
    exact .seq (.seq (.map (fun _ hleft _ _ _ hright => ⟨hleft, hright⟩)
      (required_yields fun p _ => hvalue p)) (.any _)) (required_yields fun p _ => hvalue p)
  | call =>
    refine .variantRecord fun r _ => ?_
    -- a call may have no arguments at all, so that nothing has to be checked of their number
    have hargs : ∀ p ∈ r.parts, (p.doc.list fun q => Arg.ofDoc q.doc).Yields fullArgs :=
      fun p _ as has => fullArgs_of_forall (Decoded.Yields.list (fun q => Arg.ofDoc_full q.doc) as has).2
    exact .seq (.map (fun _ _ _ has => has) (.any _)) (defaulted_yields trivial hargs)
  | interval => exact .variantRecord fun r _ => .seq (.map (fun _ _ _ _ => trivial) (.any _)) (.any _)
  | conditional =>
    refine .variantRecord fun r _ => ?_
    have hbranches : ∀ p ∈ r.parts, (p.doc.nonEmptyList fun q => Branch.ofDoc q.doc).Yields
        fun bs => bs ≠ [] ∧ fullBranches bs := by
      intro p _ bs hbs
      obtain ⟨hne, -, hall⟩ := Decoded.Yields.nonEmptyList (fun q => Branch.ofDoc_full q.doc) bs hbs
      exact ⟨hne, fullBranches_of_forall hall⟩
    exact .seq (.map (fun _ hbs _ hdefault => ⟨hbs.1, hbs.2, hdefault⟩) (required_yields hbranches))
      (required_yields fun p _ => hvalue p)
  | table => exact .variantRecord fun r _ => .map (fun _ _ => trivial) (.any _)
  | column => exact .variantRecord fun r _ => .seq (.map (fun _ _ _ _ => trivial) (.any _)) (.any _)
  | aliased => exact .map (fun _ _ => trivial) (.any _)
  | subquery => exact .map (fun _ _ => trivial) (.any _)
termination_by 2 * sizeOf doc
decreasing_by
  all_goals
    have := p.smaller
    try have := q.smaller
    omega

/-- A decoded argument is the mark for all columns or a full value. -/
theorem Arg.ofDoc_full (doc : Doc) : (Arg.ofDoc doc).Yields Arg.Full := by
  rw [Arg.ofDoc]
  refine .choose (List.forall_mem_cons.mpr ⟨?_, List.forall_mem_singleton.mpr ?_⟩)
  · intro a ha
    split at ha
    · cases ha
      trivial
    · cases ha
  · exact Decoded.Yields.toOption (.map (fun _ h => h) (Expr.ofDoc_full .inner doc))
termination_by 2 * sizeOf doc + 1

/-- A decoded branch is full, by its condition and its result. -/
theorem Branch.ofDoc_full (doc : Doc) : (Branch.ofDoc doc).Yields Branch.Full := by
  rw [Branch.ofDoc]
  refine .record fun r _ => ?_
  exact .seq (.map (fun _ hcondition _ hresult => ⟨hcondition, hresult⟩)
    (required_yields fun p _ => Cond.ofDoc_full .inner p.doc))
    (required_yields fun p _ => Expr.ofDoc_full .inner p.doc)
termination_by 2 * sizeOf doc
decreasing_by
  all_goals
    have := p.smaller
    omega

/-- A decoded condition has no list that is empty and must not be. -/
theorem Cond.ofDoc_full (position : Position) (doc : Doc) :
    (Cond.ofDoc position doc).Yields Cond.Full := by
  have hvalue : ∀ p : doc.Part, (Expr.ofDoc .inner p.doc).Yields Expr.Full :=
    fun p => Expr.ofDoc_full .inner p.doc
  have hcondition : ∀ p : doc.Part, (Cond.ofDoc .inner p.doc).Yields Cond.Full :=
    fun p => Cond.ofDoc_full .inner p.doc
  rw [Cond.ofDoc]
  refine Decoded.Yields.bind (.any _) fun variant _ _ => ?_
  cases variant with
  | negation =>
    exact .variantRecord fun r _ => .map (fun _ h => h) (required_yields fun p _ => hcondition p)
  | connective =>
    refine .variantRecord fun r _ => ?_
    exact .seq (.seq (.map (fun _ hleft _ _ _ hright => ⟨hleft, hright⟩)
      (required_yields fun p _ => hcondition p)) (.any _)) (required_yields fun p _ => hcondition p)
  | comparison =>
    refine .variantRecord fun r _ => ?_
    exact .seq (.seq (.map (fun _ hleft _ _ _ hright => ⟨hleft, hright⟩)
      (required_yields fun p _ => hvalue p)) (.any _)) (required_yields fun p _ => hvalue p)
  | between =>
    refine .variantRecord fun r _ => ?_
    exact .seq (.seq (.seq (.map (fun _ hv _ hl _ hu _ _ => ⟨hv, hl, hu⟩)
      (required_yields fun p _ => hvalue p)) (required_yields fun p _ => hvalue p))
      (required_yields fun p _ => hvalue p)) (.any _)
  | isNull =>
    exact .variantRecord fun r _ => .seq (.map (fun _ h _ _ => h) (required_yields fun p _ => hvalue p))
      (.any _)
  | member =>
    refine .variantRecord fun r _ => ?_
    exact .seq (.seq (.map (fun _ hv _ hs _ _ => ⟨hv, hs⟩) (required_yields fun p _ => hvalue p))
      (required_yields fun p _ => MemberSource.ofDoc_full p.doc)) (.any _)
  | existence => exact .variantRecord fun r _ => .seq (.map (fun _ _ _ _ => trivial) (.any _)) (.any _)
  | aliased => exact .map (fun _ _ => trivial) (.any _)
termination_by 2 * sizeOf doc
decreasing_by
  all_goals
    have := p.smaller
    omega

/-- A decoded source of a membership test is a list that is not empty, or a reference. -/
theorem MemberSource.ofDoc_full (doc : Doc) : (MemberSource.ofDoc doc).Yields MemberSource.Full := by
  rw [MemberSource.ofDoc]
  refine .choose (List.forall_mem_cons.mpr ⟨?_, List.forall_mem_singleton.mpr ?_⟩)
  · refine Decoded.Yields.toOption (.map (fun _ h => ?_)
      (.nonEmptyList fun q => Expr.ofDoc_full .inner q.doc))
    exact ⟨h.1, fullExprs_of_forall h.2.2⟩
  · exact Decoded.Yields.toOption (.map (fun _ _ => trivial) (.any _))
termination_by 2 * sizeOf doc + 1
decreasing_by
  have := q.smaller
  omega

end

/-! ## Decoded clauses -/

/-- The number of the columns that are asked for by name. -/
def Columns.length : Columns → Nat
  | .all => 0
  | .list items => items.length

theorem Columns.full_all : Columns.Full .all := fun heq => by cases heq

/-- Decoded columns are full, and fewer than the document has values, which bounds the count later. -/
theorem Columns.ofDoc_full (doc : Doc) :
    (Columns.ofDoc doc).Yields fun c => c.Full ∧ c.length < doc.values := by
  refine .choose (List.forall_mem_cons.mpr ⟨?_, List.forall_mem_singleton.mpr ?_⟩)
  · intro c hc
    split at hc
    · cases hc
      exact ⟨Columns.full_all, doc.one_le_values⟩
    · cases hc
  · refine Decoded.Yields.toOption (.map (fun items h => ?_) (.nonEmptyList fun q => .any _))
    exact ⟨fun heq => h.1 (Columns.list.inj heq), h.2.1⟩

/-- The condition of a decoded join is full. -/
theorem Join.ofDoc_full (doc : Doc) : (Join.ofDoc doc).Yields fun j => j.condition.Full :=
  .record fun _ _ => .seq (.seq (.map (fun _ _ _ hcondition _ _ => hcondition) (.any _))
    (required_yields fun p _ => Cond.ofDoc_full .outer p.doc)) (.any _)

/-- A decoded select list with its sources is full, and its columns are fewer than the values of the
    document. -/
theorem Select.ofDoc_full (doc : Doc) :
    (Select.ofDoc doc).Yields fun s => s.Full ∧ s.columns.length < doc.values := by
  refine .record fun r hlayout => ?_
  have hcolumns : ∀ p ∈ r.parts, (Columns.ofDoc p.doc).Yields
      fun c => c.Full ∧ c.length < doc.values := by
    intro p hp c hc
    obtain ⟨hfull, hlength⟩ := Columns.ofDoc_full p.doc c hc
    exact ⟨hfull, Nat.lt_trans hlength (Layout.values_of_mem_parts hlayout hp)⟩
  have hall : Columns.Full .all ∧ Columns.all.length < doc.values :=
    ⟨Columns.full_all, doc.one_le_values⟩
  exact .seq (.seq (.map (fun _ hcolumns _ _ _ hjoin => ⟨⟨hcolumns.1, hjoin⟩, hcolumns.2⟩)
    (defaulted_yields hall hcolumns)) (.any _))
    (defaulted_yields (fun _ h => absurd h (Option.not_mem_none _))
      fun p _ => .nullable (Join.ofDoc_full p.doc))

/-- A clause that holds a condition decodes to a full one. -/
theorem conditionOfDoc_full (doc : Doc) : (conditionOfDoc doc).Yields Cond.Full :=
  .record fun _ _ => required_yields fun p _ => Cond.ofDoc_full .outer p.doc

/-- A decoded grouping has at least one item, and all of them are full. -/
theorem groupsOfDoc_full (doc : Doc) :
    (groupsOfDoc doc).Yields fun es => es ≠ [] ∧ fullExprs es := by
  refine .record fun r _ => required_yields fun p _ es hes => ?_
  obtain ⟨hne, -, hall⟩ := Decoded.Yields.nonEmptyList (fun q => Expr.ofDoc_full .outer q.doc) es hes
  exact ⟨hne, fullExprs_of_forall hall⟩

theorem OrderItem.ofDoc_full (doc : Doc) : (OrderItem.ofDoc doc).Yields fun i => i.operand.Full :=
  .record fun _ _ => .seq (.map (fun _ h _ _ => h)
    (required_yields fun p _ => Expr.ofDoc_full .outer p.doc)) (.any _)

/-- A decoded order has at least one item, and all of them are full. -/
theorem orderOfDoc_full (doc : Doc) :
    (orderOfDoc doc).Yields fun items => items ≠ [] ∧ ∀ item ∈ items, item.operand.Full := by
  refine .record fun r _ => required_yields fun p _ items hitems => ?_
  obtain ⟨hne, -, hall⟩ := Decoded.Yields.nonEmptyList (fun q => OrderItem.ofDoc_full q.doc) items hitems
  exact ⟨hne, hall⟩

/-- A decoded query has no list that is empty and must not be, and its select list is no longer than the
    document has values. -/
theorem Query.ofDoc_full (doc : Doc) :
    (Query.ofDoc doc).Yields fun q => q.Full ∧ q.select.columns.length < doc.values := by
  refine .record fun r hlayout => ?_
  -- the columns are counted within the head, which is a part of the document
  have hselect : ∀ p ∈ r.parts, (Select.ofDoc p.doc).Yields
      fun s => s.Full ∧ s.columns.length < doc.values := by
    intro p hp s hs
    obtain ⟨hfull, hlength⟩ := Select.ofDoc_full p.doc s hs
    exact ⟨hfull, Nat.lt_trans hlength (Layout.values_of_mem_parts hlayout hp)⟩
  have hnone : ∀ {α : Type} {P : α → Prop}, ∀ x ∈ (none : Option α), P x :=
    fun _ h => absurd h (Option.not_mem_none _)
  exact .seq (.seq (.seq (.seq (.seq
    (.map (fun _ hs _ hf _ hg _ hh _ ho _ _ => ⟨⟨hs.1, hf, hg, hh, ho⟩, hs.2⟩)
      (required_yields hselect))
    (defaulted_yields hnone fun p _ => .nullable (conditionOfDoc_full p.doc)))
    (defaulted_yields hnone fun p _ => .nullable (groupsOfDoc_full p.doc)))
    (defaulted_yields hnone fun p _ => .nullable (conditionOfDoc_full p.doc)))
    (defaulted_yields hnone fun p _ => .nullable (orderOfDoc_full p.doc)))
    (.any _)

/-- The target of an alias is full, be it a value or a condition. -/
theorem Target.ofDoc_full (doc : Doc) : (Target.ofDoc doc).Yields Target.Full := by
  refine .choose (List.forall_mem_cons.mpr ⟨?_, List.forall_mem_singleton.mpr ?_⟩)
  · exact Decoded.Yields.toOption (.map (fun _ h => h) (Expr.ofDoc_full .inner doc))
  · exact Decoded.Yields.toOption (.map (fun _ h => h) (Cond.ofDoc_full .inner doc))

theorem AliasRequest.ofDoc_full (doc : Doc) : (AliasRequest.ofDoc doc).Yields fun r => r.target.Full :=
  .record fun _ _ => .seq (.map (fun _ _ _ h => h) (.any _))
    (required_yields fun p _ => Target.ofDoc_full p.doc)

end Input

end QueryCatalog
