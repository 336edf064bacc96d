/-
  What decoders give.

  A decoder is put together from a few pieces: fields that are required or not, records, lists, choices.
  `Yields P` says that whatever a decoder gives has the property `P`; for each of the pieces there is one
  rule that leads from its parts to the whole, so that a decoder is reasoned about in the shape in
  which it is written.

  The parts of a record come from its document, and are smaller than it not only as trees but also in
  the number of their values (`values_of_mem_parts`).
-/
import QueryCatalog.Document.Record
import QueryCatalog.Proofs.DocumentSize

namespace QueryCatalog

variable {α β : Type} {whole : Doc} {P : α → Prop} {Q : β → Prop}

/-- Whatever is decoded has a property. -/
def Decoded.Yields (P : α → Prop) (x : Decoded α) : Prop := ∀ a, x = .ok a → P a

/-- Whatever is given has a property. -/
def Located.Yields (P : α → Prop) (x : Located α) : Prop := ∀ a, x.result = .ok a → P a

/-! ## Fields -/

namespace Located.Yields

theorem any (x : Located α) : x.Yields fun _ => True := fun _ _ => trivial

/-- What is given outright has the property if it does. -/
theorem pure {a : α} (ha : P a) : (Pure.pure a : Located α).Yields P := by
  intro b h
  cases h
  exact ha

/-- A failure gives nothing, so that anything holds of what it gives. -/
theorem fault (place : Nat) (e : DecodeError) : (Located.fault place e : Located α).Yields P := by
  intro a h
  cases h

/-- A decoder that has met its place gives what it gave before. -/
theorem met (place : Nat) {x : Decoded α} (hx : x.Yields P) : (Located.met place x).Yields P := by
  intro a h
  cases x with
  | ok b =>
    cases h
    exact hx a rfl
  | error e => cases h

theorem map {f : α → β} {x : Located α} (hf : ∀ a, P a → Q (f a)) (hx : x.Yields P) :
    (f <$> x).Yields Q := by
  intro b h
  obtain ⟨result⟩ := x
  cases result with
  | ok a =>
    cases h
    exact hf a (hx a rfl)
  | error e => cases h

/-- The rule for one more field: a property of functions and one of arguments make one of results. -/
theorem seq {f : Located (α → β)} {x : Located α} (hf : f.Yields fun g => ∀ a, P a → Q (g a))
    (hx : x.Yields P) : (f <*> x).Yields Q := by
  intro b h
  obtain ⟨result⟩ := f
  obtain ⟨result'⟩ := x
  cases result with
  | ok g =>
    cases result' with
    | ok a =>
      cases h
      exact hf g rfl a (hx a rfl)
    | error e => cases h
  | error e =>
    cases result' with
    | ok a => cases h
    | error e' => cases h

end Located.Yields

namespace Layout

/-- The parts of the document that the fields hold. -/
def parts (layout : Layout whole) : List (Doc.Part whole) := layout.slots.filterMap Slot.part

variable {layout : Layout whole} {decode : Doc.Part whole → Decoded α}

/-- A field gives what its decoder gives for one of the parts, or what stands for an absent one. -/
theorem field_yields {name : String} {absent : Nat → Located α} (habsent : ∀ place, (absent place).Yields P)
    (h : ∀ part ∈ layout.parts, (decode part).Yields P) : (layout.field name absent decode).Yields P := by
  rw [field]
  split
  · next place part hfound =>
    have hpart : part ∈ layout.parts :=
      List.mem_filterMap.mpr ⟨_, List.mem_of_find?_eq_some hfound, rfl⟩
    exact .met place (h part hpart)
  · exact habsent _
  · exact habsent 0

/-- A required field, whose absence is a failure. -/
theorem required_yields {name : String} (h : ∀ part ∈ layout.parts, (decode part).Yields P) :
    (layout.required name decode).Yields P :=
  field_yields (fun place => .fault place _) h

/-- A field with a default, of which the property has to hold as well. -/
theorem defaulted_yields {name : String} {default : α} (hdefault : P default)
    (h : ∀ part ∈ layout.parts, (decode part).Yields P) :
    (layout.defaulted name default decode).Yields P :=
  field_yields (fun _ => .pure hdefault) h

/-- Closing a record only adds failures. -/
theorem close_yields {fields : Located α} (h : fields.Yields P) : (layout.close fields).Yields P := by
  intro a hclose
  obtain ⟨result⟩ := fields
  rw [close] at hclose
  cases hdefect : layout.defect with
  | none =>
    rw [hdefect] at hclose
    cases result with
    | ok b =>
      cases hclose
      exact h _ rfl
    | error e => cases hclose
  | some fault =>
    rw [hdefect] at hclose
    cases result with
    | ok b => cases hclose
    | error e => cases hclose

/-! ## Parts -/

/-- What the slots hold was there before or comes from a member. -/
theorem mem_parts_of_fill {fields : List Field} {members : List (Option String × Doc.Part whole)}
    {place : Nat} {slots : List (Slot whole)} {part : Doc.Part whole}
    (h : part ∈ (fill fields place slots members).1.filterMap Slot.part) :
    part ∈ slots.filterMap Slot.part ∨ part ∈ members.map Prod.snd := by
  fun_induction fill fields place slots members with
  | case1 | case2 | case4 | case5 => exact .inl h
  | case3 place slots key member rest hfield hskip ih =>
    rcases ih h with h | h
    · exact .inl h
    · exact .inr (List.mem_cons_of_mem _ h)
  | case6 place slots key member rest field hfield hfree put ih =>
    rcases ih h with h | h
    · -- the slot of the field holds the member now, the others hold what they held
      obtain ⟨_, hmapped, hpart⟩ := List.mem_filterMap.mp h
      obtain ⟨slot, hslot, rfl⟩ := List.mem_map.mp hmapped
      by_cases hname : (slot.name == field.name) = true
      · have hput : put slot = ⟨slot.name, place, some member⟩ := if_pos hname
        rw [hput] at hpart
        exact .inr (List.mem_cons.mpr (.inl (Option.some.inj hpart).symm))
      · have hput : put slot = slot := if_neg hname
        rw [hput] at hpart
        exact .inl (List.mem_filterMap.mpr ⟨slot, hslot, hpart⟩)
    · exact .inr (List.mem_cons_of_mem _ h)

/-- Vacant slots hold no parts. -/
theorem parts_vacant (fields : List Field) (place : Nat) :
    (vacant fields place : List (Slot whole)).filterMap Slot.part = [] := by
  refine List.filterMap_eq_nil_iff.mpr fun slot hslot => ?_
  obtain ⟨_, -, rfl⟩ := List.mem_map.mp hslot
  rfl

/-- The parts of a record have fewer values than the record. -/
theorem values_of_mem_parts {fields : List Field} {skip : Nat} {doc : Doc} {layout : Layout doc}
    (h : doc.layout fields skip = .ok layout) {part : Doc.Part doc} (hpart : part ∈ layout.parts) :
    part.doc.values < doc.values := by
  cases doc with
  | object members =>
    cases h
    -- at first the slots are vacant, so what is in one of them is a member
    rcases mem_parts_of_fill hpart with hpart | hpart
    · rw [parts_vacant] at hpart
      cases hpart
    · obtain ⟨_, hmember, rfl⟩ := List.mem_map.mp hpart
      obtain ⟨member, -, rfl⟩ := List.mem_map.mp hmember
      exact Nat.lt_succ_of_le (Doc.values_le_of_mem_members member.property)
  | array items =>
    cases h
    obtain ⟨_, hslot, hpart⟩ := List.mem_filterMap.mp hpart
    obtain ⟨⟨field, i⟩, -, rfl⟩ := List.mem_map.mp hslot
    have hpart := List.mem_of_mem_drop (List.mem_of_getElem? hpart)
    obtain ⟨item, -, rfl⟩ := List.mem_map.mp hpart
    exact Nat.lt_succ_of_le (Doc.values_le_of_mem_items item.property)
  | _ => cases h

end Layout

/-! ## Records, lists and choices -/

namespace Decoded.Yields

theorem any (x : Decoded α) : x.Yields fun _ => True := fun _ _ => trivial

/-- What is decoded outright has the property if it does. -/
theorem ok {a : α} (ha : P a) : Decoded.Yields P (.ok a) := by
  intro b h
  cases h
  exact ha

/-- The rule for one step after another.  What the first has given is known to the second, with its
    equation. -/
theorem bind {x : Decoded α} {f : α → Decoded β} (hx : x.Yields P)
    (hf : ∀ a, x = .ok a → P a → (f a).Yields Q) : Decoded.Yields Q (x >>= f) := by
  intro b h
  cases x with
  | ok a => exact hf a rfl (hx a rfl) b h
  | error e => cases h

theorem map {f : α → β} {x : Decoded α} (hf : ∀ a, P a → Q (f a)) (hx : x.Yields P) :
    Decoded.Yields Q (f <$> x) := by
  intro b h
  cases x with
  | ok a =>
    cases h
    exact hf a (hx a rfl)
  | error e => cases h

variable {doc : Doc}

/-- A record gives what is built from its layout. -/
theorem record {fields : List Field} {build : Layout doc → Located α}
    (h : ∀ layout, doc.layout fields 0 = .ok layout → (build layout).Yields P) :
    Decoded.Yields P (doc.record fields build) :=
  .bind (.any _) fun layout hlayout _ => Layout.close_yields (h layout hlayout)

/-- The same of a record behind a tag, whose fields start one place later. -/
theorem variantRecord {fields : List Field} {build : Layout doc → Located α}
    (h : ∀ layout, doc.layout fields 1 = .ok layout → (build layout).Yields P) :
    Decoded.Yields P (doc.variantRecord fields build) :=
  .bind (.any _) fun layout hlayout _ => Layout.close_yields (h layout hlayout)

/-- What may be `null` gives nothing or what its decoder gives. -/
theorem nullable {decode : Doc → Decoded α} (h : (decode doc).Yields P) :
    Decoded.Yields (fun a => ∀ x ∈ a, P x) (doc.nullable decode) := by
  have hsome : Decoded.Yields (fun a => ∀ x ∈ a, P x) (some <$> decode doc) :=
    h.map fun _ ha _ hx => Option.mem_some.mp hx ▸ ha
  cases doc with
  | null => exact .ok fun _ hx => absurd hx (Option.not_mem_none _)
  | _ => exact hsome

/-- A list of decoders gives equally many results, each with the property of its decoder. -/
theorem mapM {γ : Type} {decode : γ → Decoded α} {parts : List γ}
    (h : ∀ part ∈ parts, (decode part).Yields P) :
    Decoded.Yields (fun as => as.length = parts.length ∧ ∀ a ∈ as, P a) (parts.mapM decode) := by
  induction parts with
  | nil => exact .ok ⟨rfl, fun _ ha => absurd ha List.not_mem_nil⟩
  | cons part parts ih =>
    rw [List.mapM_cons]
    refine (h part List.mem_cons_self).bind fun a _ ha => ?_
    refine (ih fun p hp => h p (List.mem_cons_of_mem _ hp)).bind fun as _ has => .ok ?_
    exact ⟨congrArg (· + 1) has.1, List.forall_mem_cons.mpr ⟨ha, has.2⟩⟩

/-- A list has no more items than its document has values. -/
theorem list {decode : Doc.Part doc → Decoded α} (h : ∀ part, (decode part).Yields P) :
    Decoded.Yields (fun as => as.length < doc.values ∧ ∀ a ∈ as, P a) (doc.list decode) := by
  intro as hlist
  cases doc with
  | array items =>
    obtain ⟨hlength, hall⟩ := mapM (fun part _ => h part) as hlist
    have hitems : (Doc.itemParts items).length = items.length := by
      rw [Doc.itemParts, List.length_map, List.length_attach]
    have hvalues := Doc.length_le_valuesOfItems items
    refine ⟨?_, hall⟩
    rw [Doc.values]
    omega
  | _ => cases hlist

/-- A list that may not be empty gives at least one result, and fewer than the document has values. -/
theorem nonEmptyList {decode : Doc.Part doc → Decoded α} (h : ∀ part, (decode part).Yields P) :
    Decoded.Yields (fun as => as ≠ [] ∧ as.length < doc.values ∧ ∀ a ∈ as, P a)
      (doc.nonEmptyList decode) := by
  refine (list h).bind fun as _ has => ?_
  cases as with
  | nil => exact fun _ herror => by cases herror
  | cons a as => exact .ok ⟨List.cons_ne_nil a as, has⟩

/-- A choice gives what one of its alternatives gives. -/
theorem choose {choice : String} {alternatives : List (Option α)}
    (h : ∀ alternative ∈ alternatives, ∀ a ∈ alternative, P a) :
    Decoded.Yields P (doc.choose choice alternatives) := by
  intro a hchoose
  rw [Doc.choose] at hchoose
  split at hchoose
  · split at hchoose
    · next b hfound =>
      cases hchoose
      obtain ⟨alternative, hmem, hsome⟩ := List.exists_of_findSome?_eq_some hfound
      exact h alternative hmem a hsome
    · cases hchoose
  · cases hchoose

/-- An alternative that is a decoder of its own. -/
theorem toOption {x : Decoded α} (h : x.Yields P) : ∀ a ∈ x.toOption, P a := by
  intro a ha
  cases x with
  | ok b => exact h a (congrArg Except.ok (Option.some.inj ha))
  | error e => cases ha

/-- What a source is decoded as, its document is decoded as, and that was read to its end. -/
theorem decode {decoder : Doc → Decoded α} {source : Doc.Source}
    (h : (decoder (Doc.read source).1).Yields P) :
    Decoded.Yields (fun a => P a ∧ (Doc.read source).1.values ≤ source.length)
      (Doc.decode decoder source) := by
  have hsize : ∀ rest, (Doc.read source).2 = some rest → (Doc.read source).1.values ≤ source.length :=
    fun _ => Doc.values_read_le
  unfold Doc.decode
  generalize Doc.read source = result at h hsize ⊢
  obtain ⟨doc, rest⟩ := result
  refine .bind h fun a _ ha b hb => ?_
  cases rest with
  | none => cases hb
  | some rest =>
    split at hb
    · cases hb
      exact ⟨ha, hsize rest rfl⟩
    · cases hb

end Decoded.Yields

end QueryCatalog
