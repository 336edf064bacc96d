/-
  Records, in each of their written forms.

  A record may be written as an object or as an array, and an object may have its members in any order,
  with unknown ones between them.  `IsRecord` says for either form what the document gives to each
  field, a value or nothing.

  1. **Slots are filled** (`fill_spec`, `find?_ofItems`): the slot of a field holds what the document
     gives to the field, wherever that stands.
  2. **Records are decoded** (`record_ok`, `variantRecord_ok`): a record without faults is decoded as
     soon as its fields are, each from its own value.
  3. **Tags are found** (`variantOf_eq`), wherever they stand.
-/
import Mathlib.Data.List.Pairwise
import QueryCatalog.Document.Record

namespace QueryCatalog

variable {α β γ : Type} {whole : Doc}

/-! ## Located values that are no faults -/

theorem Located.map_ok {f : α → β} {x : Located α} {a : α} (hx : x.result = .ok a) :
    (f <$> x).result = .ok (f a) := by
  obtain ⟨result⟩ := x
  subst hx
  rfl

/-- Two values without a fault are combined without one. -/
theorem Located.seq_ok {f : Located (α → β)} {x : Located α} {g : α → β} {a : α}
    (hf : f.result = .ok g) (hx : x.result = .ok a) : (f <*> x).result = .ok (g a) := by
  obtain ⟨result⟩ := f
  obtain ⟨result'⟩ := x
  subst hf hx
  rfl

/-- A layout without a defect gives what its fields give. -/
theorem Layout.close_ok {layout : Layout whole} {fields : Located α} {a : α}
    (hdefect : layout.defect = none) (h : fields.result = .ok a) : layout.close fields = .ok a := by
  obtain ⟨result⟩ := fields
  subst h
  simp only [Layout.close, hdefect]
  rfl

/-! ## Fields and members -/

namespace Field

/-- What the members of an object hold for the field, in order. -/
def among (f : Field) (members : List (Option String × γ)) : List γ :=
  members.filterMap fun m => if m.1.any f.spellings.contains then some m.2 else none

/-- Two fields that no key can be taken for both of. -/
def Apart (f g : Field) : Prop := f.name ≠ g.name ∧ ∀ s ∈ f.spellings, s ∉ g.spellings

instance (f g : Field) : Decidable (f.Apart g) :=
  inferInstanceAs (Decidable (_ ∧ _))

theorem Apart.symm {f g : Field} (h : f.Apart g) : g.Apart f :=
  ⟨Ne.symm h.1, fun s hs hs' => h.2 s hs' hs⟩

/-- Of fields that are apart, each is apart from every other. -/
theorem apart_of_mem {fields : List Field} (hapart : fields.Pairwise Apart) {f g : Field}
    (hf : f ∈ fields) (hg : g ∈ fields) (hne : f ≠ g) : f.Apart g := by
  have hsymm : Std.Symm Apart := ⟨fun _ _ h => h.symm⟩
  exact hapart.forall hf hg hne

theorem among_cons_of_mem {f : Field} {key : String} (h : key ∈ f.spellings) (x : γ)
    (members : List (Option String × γ)) :
    f.among ((some key, x) :: members) = x :: f.among members := by
  refine List.filterMap_cons_some ?_
  exact if_pos (List.contains_iff_mem.mpr h)

theorem among_cons_of_not_mem {f : Field} {key : String} (h : key ∉ f.spellings) (x : γ)
    (members : List (Option String × γ)) :
    f.among ((some key, x) :: members) = f.among members := by
  refine List.filterMap_cons_none ?_
  exact if_neg fun hcontains => h (List.contains_iff_mem.mp hcontains)

theorem among_append (f : Field) (members more : List (Option String × γ)) :
    f.among (members ++ more) = f.among members ++ f.among more :=
  List.filterMap_append

/-- A field whose spellings nobody uses has no members. -/
theorem among_eq_nil {f : Field} {members : List (Option String × γ)}
    (h : ∀ m ∈ members, ∀ key, m.1 = some key → key ∉ f.spellings) : f.among members = [] := by
  refine List.filterMap_eq_nil_iff.mpr fun m hm => ?_
  obtain ⟨key, x⟩ := m
  cases key with
  | none => rfl
  | some key => exact if_neg fun hcontains => h _ hm key rfl (List.contains_iff_mem.mp hcontains)

/-- A field has the same members whatever is made of their values. -/
theorem among_map (f : Field) (g : γ → β) (members : List (Option String × γ)) :
    f.among (members.map fun m => (m.1, g m.2)) = (f.among members).map g := by
  rw [among, among, List.filterMap_map, List.map_filterMap]
  congr 1
  funext m
  show (if m.1.any f.spellings.contains then some (g m.2) else none) =
    (if m.1.any f.spellings.contains then some m.2 else none).map g
  split <;> rfl

end Field

/-- Fields that have only their name, each with something. -/
def plainFields (fields : List (String × γ)) : List (Field × γ) :=
  fields.map fun f => (⟨f.1, [f.1]⟩, f.2)

/-! ## Members in their slots -/

namespace Layout

/-- The slots with a member put into the one of its field. -/
def put (name : String) (place : Nat) (part : Doc.Part whole) (slots : List (Slot whole)) :
    List (Slot whole) :=
  slots.map fun slot => if slot.name == name then ⟨slot.name, place, some part⟩ else slot

/-- Putting a member changes the slot of its own name and no other. -/
theorem find?_put (name n : String) (place : Nat) (part : Doc.Part whole)
    (slots : List (Slot whole)) :
    (put name place part slots).find? (fun slot => slot.name == n) =
      if name = n then (slots.find? fun slot => slot.name == n).map fun _ => ⟨n, place, some part⟩
      else slots.find? fun slot => slot.name == n := by
  induction slots with
  | nil => by_cases hname : name = n <;> simp [put, hname]
  | cons slot slots ih =>
    simp only [put, List.map_cons, List.find?_cons]
    by_cases hslot : slot.name = n
    · by_cases hname : name = n
      · simp [hslot, hname]
      · simp [hslot, hname, Ne.symm hname]
    · have hmiss : (slot.name == n) = false := by simpa using hslot
      -- whatever is put into the slot, it keeps its name
      have hkept : ((if slot.name == name then ⟨slot.name, place, some part⟩ else slot :
          Slot whole).name == n) = false := by
        by_cases hname : slot.name = name <;> simp [hname] <;> simpa [hname] using hslot
      rw [hkept, hmiss]
      exact ih

/-- The slots of the field are vacant. -/
def Vacant (slots : List (Slot whole)) (f : Field) : Prop :=
  ∀ slot ∈ slots, slot.name = f.name → slot.part = none

/-- A slot stays vacant while members are put into others. -/
theorem Vacant.put {slots : List (Slot whole)} {f g : Field} (h : Vacant slots f)
    (hne : f.name ≠ g.name) (place : Nat) (part : Doc.Part whole) :
    Vacant (put g.name place part slots) f := by
  intro slot hslot hname
  obtain ⟨old, hold, rfl⟩ := List.mem_map.mp hslot
  by_cases hput : old.name = g.name
  · simp only [hput, beq_self_eq_true, if_true] at hname
    exact absurd hname.symm hne
  · have hother : (old.name == g.name) = false := by simpa using hput
    simp only [hother, Bool.false_eq_true, if_false] at hname ⊢
    exact h old hold hname

section Member

variable {fields : List Field} {key : String} {part : Doc.Part whole} {slots : List (Slot whole)}
  {members : List (Option String × Doc.Part whole)}

/-- A member of a field is put into the field's slot if that is vacant. -/
theorem fill_known {f : Field} (hfield : fields.find? (·.spellings.contains key) = some f)
    (place : Nat) (hvacant : Vacant slots f) :
    fill fields place slots ((some key, part) :: members) =
      fill fields (place + 1) (put f.name place part slots) members := by
  have hfree : (slots.any fun slot => slot.name == f.name && slot.part.isSome) = false := by
    rw [List.any_eq_false]
    intro slot hslot hfilled
    simp only [Bool.and_eq_true, beq_iff_eq] at hfilled
    rw [hvacant slot hslot hfilled.1] at hfilled
    cases hfilled.2
  rw [fill, hfield]
  simp only [hfree, Bool.false_eq_true, if_false]
  rfl

/-- An unknown member is skipped. -/
theorem fill_unknown (hfield : fields.find? (·.spellings.contains key) = none) (place : Nat)
    (hskip : part.doc.isSkippable = true) :
    fill fields place slots ((some key, part) :: members) =
      fill fields (place + 1) slots members := by
  rw [fill, hfield]
  exact if_pos hskip

end Member

/-- Members fill slots without a defect, if each field has at most one of them: the slot of that field
    holds it, and the slot of a field without one stays as it is. -/
theorem fill_spec {fields : List Field} (hapart : fields.Pairwise Field.Apart)
    (members : List (Option String × Doc.Part whole)) :
    ∀ (place : Nat) (slots : List (Slot whole)),
      (∀ m ∈ members, m.1.isSome = true ∧ m.2.doc.isSkippable = true) →
      (∀ f ∈ fields, (f.among members).length ≤ 1) →
      (∀ f ∈ fields, f.among members ≠ [] → Vacant slots f) →
      (fill fields place slots members).2 = none ∧
      ∀ f ∈ fields,
        (f.among members = [] →
          (fill fields place slots members).1.find? (fun slot => slot.name == f.name) =
            slots.find? fun slot => slot.name == f.name) ∧
        ∀ part, f.among members = [part] → (slots.find? fun slot => slot.name == f.name).isSome →
          ∃ p, (fill fields place slots members).1.find? (fun slot => slot.name == f.name) =
            some ⟨f.name, p, some part⟩ := by
  induction members with
  | nil =>
    intro place slots _ _ _
    exact ⟨rfl, fun f _ => ⟨fun _ => rfl, fun part h => by cases h⟩⟩
  | cons member members ih =>
    intro place slots hall hone hvacant
    obtain ⟨first, part⟩ := member
    obtain ⟨⟨hkey, hskip⟩, hrest⟩ := List.forall_mem_cons.mp hall
    obtain ⟨key, rfl⟩ := Option.isSome_iff_exists.mp hkey
    cases hfield : fields.find? (·.spellings.contains key) with
    | none =>
      have hsame : ∀ f ∈ fields, f.among ((some key, part) :: members) = f.among members := by
        intro f hf
        refine Field.among_cons_of_not_mem (fun hmem => ?_) part members
        exact List.find?_eq_none.mp hfield f hf (List.contains_iff_mem.mpr hmem)
      rw [fill_unknown hfield place hskip]
      obtain ⟨hdefect, hslots⟩ := ih (place + 1) slots hrest (fun f hf => hsame f hf ▸ hone f hf)
        fun f hf hne => hvacant f hf (hsame f hf ▸ hne)
      refine ⟨hdefect, fun f hf => ?_⟩
      rw [hsame f hf]
      exact hslots f hf
    | some g =>
      have hg : g ∈ fields := List.mem_of_find?_eq_some hfield
      have hcontains : g.spellings.contains key = true := by
        simpa only using List.find?_some hfield
      have hspelled : key ∈ g.spellings := List.contains_iff_mem.mp hcontains
      have hfirst := Field.among_cons_of_mem hspelled part members
      have hlast : g.among members = [] := by
        have hlength := hone g hg
        rw [hfirst, List.length_cons] at hlength
        exact List.eq_nil_of_length_eq_zero (by omega)
      have hother : ∀ f ∈ fields, f ≠ g →
          f.Apart g ∧ f.among ((some key, part) :: members) = f.among members := by
        intro f hf hne
        have hfg := Field.apart_of_mem hapart hf hg hne
        exact ⟨hfg, Field.among_cons_of_not_mem (fun hmem => hfg.2 key hmem hspelled) part members⟩
      rw [fill_known hfield place (hvacant g hg (hfirst ▸ List.cons_ne_nil _ _))]
      obtain ⟨hdefect, hslots⟩ := ih (place + 1) (put g.name place part slots) hrest
        (fun f hf => by
          by_cases hfg : f = g
          · rw [hfg, hlast]
            exact Nat.zero_le _
          · rw [← (hother f hf hfg).2]
            exact hone f hf)
        fun f hf hne => by
          have hfg : f ≠ g := fun heq => hne (heq ▸ hlast)
          obtain ⟨hapart, hsame⟩ := hother f hf hfg
          exact (hvacant f hf (hsame ▸ hne)).put hapart.1 place part
      refine ⟨hdefect, fun f hf => ?_⟩
      by_cases hfg : f = g
      · -- the member that has just been put: no later one is of its field
        subst hfg
        rw [hfirst, hlast]
        refine ⟨fun h => (by cases h), fun part' heq hslot => ?_⟩
        cases heq
        rw [(hslots f hf).1 hlast, find?_put, if_pos rfl]
        obtain ⟨slot, hfound⟩ := Option.isSome_iff_exists.mp hslot
        exact ⟨place, by rw [hfound]; rfl⟩
      · obtain ⟨hapart, hsame⟩ := hother f hf hfg
        rw [hsame]
        have hkept := find?_put g.name f.name place part slots
        rw [if_neg (Ne.symm hapart.1)] at hkept
        rw [← hkept]
        exact hslots f hf

/-- The vacant slots have one for every field. -/
theorem find?_vacant {fields : List Field} {f : Field} (h : f ∈ fields) (place : Nat) :
    ∃ p, (vacant fields place : List (Slot whole)).find? (fun slot => slot.name == f.name) =
      some ⟨f.name, p, none⟩ := by
  cases hfound : (vacant fields place : List (Slot whole)).find? fun slot => slot.name == f.name with
  | none =>
    obtain ⟨i, hi, rfl⟩ := List.getElem_of_mem h
    have hmem : (⟨fields[i].name, place + i, none⟩ : Slot whole) ∈ vacant fields place := by
      refine List.mem_map.mpr ⟨(fields[i], i), ?_, rfl⟩
      rw [List.mem_zipIdx_iff_getElem?]
      exact List.getElem?_eq_getElem hi
    exact absurd (beq_self_eq_true _) (List.find?_eq_none.mp hfound _ hmem)
  | some slot =>
    obtain ⟨⟨g, i⟩, -, rfl⟩ := List.mem_map.mp (List.mem_of_find?_eq_some hfound)
    have hname : (g.name == f.name) = true := by simpa only using List.find?_some hfound
    rw [beq_iff_eq] at hname
    exact ⟨place + i, by rw [← hname]⟩

theorem vacant_vacant (fields : List Field) (place : Nat) (f : Field) :
    Vacant (vacant fields place : List (Slot whole)) f := by
  intro slot hslot _
  obtain ⟨_, _, rfl⟩ := List.mem_map.mp hslot
  rfl

/-- The slot of a field in an array is the one at its place. -/
theorem find?_ofItems {fields : List Field} (hapart : fields.Pairwise Field.Apart) {i : Nat} {f : Field}
    (h : fields[i]? = some f) (items : List (Doc.Part whole)) :
    (ofItems fields items).slots.find? (fun slot => slot.name == f.name) =
      some ⟨f.name, i, items[i]?⟩ := by
  -- the induction is on the fields, with the place of the first of them
  have hfrom : ∀ (fields : List Field) (k i : Nat), fields.Pairwise Field.Apart →
      fields[i]? = some f →
      (((fields.zipIdx k).map fun p => (⟨p.1.name, p.2, items[p.2]?⟩ : Slot whole)).find?
        fun slot => slot.name == f.name) = some ⟨f.name, k + i, items[k + i]?⟩ := by
    intro fields
    induction fields with
    | nil => exact fun k i _ hi => by cases hi
    | cons g fields ih =>
      intro k i hapart hi
      obtain ⟨hg, hapart⟩ := List.pairwise_cons.mp hapart
      rw [List.zipIdx_cons, List.map_cons, List.find?_cons]
      cases i with
      | zero =>
        cases hi
        simp only [beq_self_eq_true, Nat.add_zero]
      | succ i =>
        have hmem : f ∈ fields := List.mem_of_getElem? hi
        have hne : (g.name == f.name) = false := by simpa using (hg f hmem).1
        simp only [hne]
        rw [ih (k + 1) i hapart hi, Nat.add_right_comm, Nat.add_assoc]
  have hzero := hfrom fields 0 i hapart h
  rw [Nat.zero_add] at hzero
  exact hzero

/-! ## What a layout gives -/

/-- The layout gives the field of that name this value, or nothing. -/
def Gives (layout : Layout whole) (name : String) (value : Option Doc) : Prop :=
  ∃ place part, layout.slots.find? (fun slot => slot.name == name) = some ⟨name, place, part⟩ ∧
    part.map Doc.Part.doc = value

/-- The layout gives each field its value. -/
def GivesAll (layout : Layout whole) : List (Field × Option Doc) → Prop
  | [] => True
  | f :: fields => layout.Gives f.1.name f.2 ∧ layout.GivesAll fields

theorem givesAll_of_forall {layout : Layout whole} {fields : List (Field × Option Doc)}
    (h : ∀ f ∈ fields, layout.Gives f.1.name f.2) : layout.GivesAll fields := by
  induction fields with
  | nil => trivial
  | cons f fields ih =>
    obtain ⟨hf, hfields⟩ := List.forall_mem_cons.mp h
    exact ⟨hf, ih hfields⟩

variable {layout : Layout whole} {name : String} {doc : Doc} {value : Option Doc}
  (decode : Doc → Decoded α) {a : α}

/-- A required field that is given and decodes is met. -/
theorem required_ok (h : layout.Gives name (some doc)) (ha : decode doc = .ok a) :
    (layout.required name fun p => decode p.doc).result = .ok a := by
  obtain ⟨place, part, hslot, hpart⟩ := h
  obtain ⟨p, rfl, rfl⟩ := Option.map_eq_some_iff.mp hpart
  simp only [required, field, hslot, ha, Located.met]

/-- A field with a default takes it where nothing is given, and what is given otherwise. -/
theorem defaulted_ok {default : α} (h : layout.Gives name value) (hnone : value = none → default = a)
    (hsome : ∀ doc, value = some doc → decode doc = .ok a) :
    (layout.defaulted name default fun p => decode p.doc).result = .ok a := by
  obtain ⟨place, part, hslot, hpart⟩ := h
  cases part with
  | none =>
    rw [← hnone hpart.symm]
    simp only [defaulted, field, hslot]
    rfl
  | some p =>
    have ha := hsome p.doc hpart.symm
    simp only [defaulted, field, hslot, ha, Located.met]

/-- An optional field may be left out of an object, but not of an array. -/
theorem option_ok {a : Option α} (h : layout.Gives name value)
    (hnone : value = none → layout.named = true ∧ a = none)
    (hsome : ∀ doc, value = some doc → doc.nullable decode = .ok a) :
    (layout.option name decode).result = .ok a := by
  obtain ⟨place, part, hslot, hpart⟩ := h
  cases part with
  | none =>
    obtain ⟨hnamed, rfl⟩ := hnone hpart.symm
    simp only [option, field, hslot, hnamed, if_true]
    rfl
  | some p =>
    have ha := hsome p.doc hpart.symm
    simp only [option, field, hslot, ha, Located.met]

end Layout

/-! ## Documents without faults -/

namespace Doc

mutual

/-- What is clean can be skipped. -/
theorem isSkippable_of_isClean : ∀ doc : Doc, doc.isClean = true → doc.isSkippable = true
  | .null, _ => rfl
  | .bool _, _ => rfl
  | .int _, _ => rfl
  | .real _, _ => rfl
  | .text _, _ => rfl
  | .array items, h => skippableItems_of_clean items h
  | .object members, h => skippableMembers_of_clean members h
  | .unfit, _ => rfl
  | .broken, h => h

/-- The items of a clean array can be skipped one by one. -/
theorem skippableItems_of_clean : ∀ items, cleanItems items = true → skippableItems items = true
  | [], _ => rfl
  | d :: ds, h => by
    obtain ⟨hd, hds⟩ := Bool.and_eq_true_iff.mp h
    exact Bool.and_eq_true_iff.mpr ⟨isSkippable_of_isClean d hd, skippableItems_of_clean ds hds⟩

/-- The members of a clean object can be skipped one by one. -/
theorem skippableMembers_of_clean :
    ∀ members, cleanMembers members = true → skippableMembers members = true
  | [], _ => rfl
  | (key, d) :: rest, h => by
    obtain ⟨hd, hrest⟩ := Bool.and_eq_true_iff.mp h
    have hd := (Bool.and_eq_true_iff.mp hd).2
    exact Bool.and_eq_true_iff.mpr ⟨isSkippable_of_isClean d hd, skippableMembers_of_clean rest hrest⟩

end

/-- An array is clean if all of its items are. -/
theorem cleanItems_iff {items : List Doc} :
    cleanItems items = true ↔ ∀ d ∈ items, d.isClean = true := by
  induction items with
  | nil => exact iff_of_true rfl fun _ h => absurd h List.not_mem_nil
  | cons d ds ih => rw [cleanItems, Bool.and_eq_true, ih, List.forall_mem_cons]

/-- An object is clean if all of its values are, and all of its keys are read. -/
theorem cleanMembers_iff {members : List (Option String × Doc)} :
    cleanMembers members = true ↔ ∀ m ∈ members, m.1.isSome = true ∧ m.2.isClean = true := by
  induction members with
  | nil => exact iff_of_true rfl fun _ h => absurd h List.not_mem_nil
  | cons m members ih =>
    rw [cleanMembers, Bool.and_eq_true, Bool.and_eq_true, ih, List.forall_mem_cons]

/-! ## Written records -/

/-- Whether the document is an object. -/
def isObject : Doc → Bool
  | .object _ => true
  | _ => false

/-- The member that tells the variant of a tagged record. -/
def tagField : Field := ⟨"type", ["type"]⟩

/-- A record that gives its fields these values, behind a tag if it has one.  In an object the members
    may stand in any order, unknown ones between them.  In an array the tag stands first, then the
    values in the order of the fields; what is left out is left out at the end. -/
inductive IsRecord (tag : Option String) (fields : List (Field × Option Doc)) : Doc → Prop
  | object {members : List (Option String × Doc)}
    (htag : ∀ t ∈ tag, tagField.among members = [.text t])
    (hfields : ∀ f ∈ fields, f.1.among members = f.2.toList) : IsRecord tag fields (.object members)
  | array {given : List Doc} {omitted : Nat}
    (hfields : fields.map Prod.snd = given.map some ++ List.replicate omitted none) :
    IsRecord tag fields (.array ((tag.map Doc.text).toList ++ given))

/-- Whatever is given is clean. -/
def CleanValues : List (Field × Option Doc) → Prop
  | [] => True
  | f :: fields => (∀ doc, f.2 = some doc → doc.isClean = true) ∧ CleanValues fields

theorem cleanValues_of_forall {fields : List (Field × Option Doc)}
    (h : ∀ f ∈ fields, ∀ doc, f.2 = some doc → doc.isClean = true) : CleanValues fields := by
  induction fields with
  | nil => trivial
  | cons f fields ih =>
    obtain ⟨hf, hfields⟩ := List.forall_mem_cons.mp h
    exact ⟨hf, ih hfields⟩

/-- The parts of an object are its members. -/
theorem memberParts_map (members : List (Option String × Doc)) :
    (memberParts members).map (fun m => (m.1, m.2.doc)) = members := by
  rw [memberParts, List.map_map]
  exact List.attach_map_subtype_val members

/-- The parts of an array are its items. -/
theorem itemParts_map (items : List Doc) : (itemParts items).map Part.doc = items := by
  rw [itemParts, List.map_map]
  exact List.attach_map_subtype_val items

section Record

variable {tag : Option String} {fields : List (Field × Option Doc)} {doc : Doc}

/-- The values of a clean record are clean, in either form. -/
theorem IsRecord.cleanValues (h : doc.IsRecord tag fields) (hclean : doc.isClean = true) :
    CleanValues fields := by
  refine cleanValues_of_forall fun f hf d hd => ?_
  cases h with
  | @object members _ hfields =>
    have hmem : d ∈ f.1.among members := by
      rw [hfields f hf, hd]
      exact List.mem_singleton_self d
    obtain ⟨m, hm, heq⟩ := List.mem_filterMap.mp hmem
    split at heq
    · cases heq
      exact (cleanMembers_iff.mp hclean m hm).2
    · cases heq
  | @array given omitted hfields =>
    have hmem : some d ∈ given.map some ++ List.replicate omitted none := by
      rw [← hfields, ← hd]
      exact List.mem_map_of_mem hf
    rcases List.mem_append.mp hmem with hmem | hmem
    · obtain ⟨d', hd', heq⟩ := List.mem_map.mp hmem
      cases heq
      exact cleanItems_iff.mp hclean d (List.mem_append_right _ hd')
    · -- what is left out is nothing, and so not given
      cases List.eq_of_mem_replicate hmem

/-- An object that gives each field at most one member is laid out without a defect, and gives the
    fields those members. -/
theorem layout_object {members : List (Option String × Doc)}
    (hapart : (fields.map Prod.fst).Pairwise Field.Apart) (hclean : cleanMembers members = true)
    (hfields : ∀ f ∈ fields, f.1.among members = f.2.toList) :
    (Layout.ofMembers (fields.map Prod.fst) (memberParts members)).defect = none ∧
      (Layout.ofMembers (fields.map Prod.fst) (memberParts members)).GivesAll fields := by
  have hvalues : ∀ f ∈ fields, (f.1.among (memberParts members)).map Part.doc = f.2.toList := by
    intro f hf
    rw [← hfields f hf, ← Field.among_map, memberParts_map]
  -- every member can be skipped, no field has two of them, and all slots are vacant at first
  obtain ⟨hdefect, hslots⟩ := Layout.fill_spec hapart (memberParts members) 0
    (Layout.vacant (fields.map Prod.fst) (memberParts members).length)
    (fun m hm => by
      have hmem : (m.1, m.2.doc) ∈ (memberParts members).map fun m => (m.1, m.2.doc) :=
        List.mem_map_of_mem hm
      rw [memberParts_map] at hmem
      obtain ⟨hkey, hdoc⟩ := cleanMembers_iff.mp hclean _ hmem
      exact ⟨hkey, isSkippable_of_isClean _ hdoc⟩)
    (List.forall_mem_map.mpr fun f hf => by
      have hlength := congrArg List.length (hvalues f hf)
      rw [List.length_map] at hlength
      rw [hlength]
      cases f.2 <;> simp)
    fun f _ _ => Layout.vacant_vacant _ _ f
  refine ⟨hdefect, Layout.givesAll_of_forall fun f hf => ?_⟩
  have hmem : f.1 ∈ fields.map Prod.fst := List.mem_map_of_mem hf
  obtain ⟨p, hvacant⟩ : ∃ p, (Layout.vacant (fields.map Prod.fst) (memberParts members).length :
      List (Slot (.object members))).find? (fun slot => slot.name == f.1.name) =
        some ⟨f.1.name, p, none⟩ := Layout.find?_vacant hmem _
  obtain ⟨hnone, hsome⟩ := hslots f.1 hmem
  have hf := hvalues f hf
  -- a field without a member keeps its vacant slot
  cases hvalue : f.2 with
  | none =>
    rw [hvalue] at hf
    have hslot := hnone (List.map_eq_nil_iff.mp hf)
    exact ⟨p, none, hslot.trans hvacant, rfl⟩
  | some d =>
    rw [hvalue] at hf
    obtain ⟨part, hpart, hdoc⟩ := List.map_eq_singleton_iff.mp hf
    obtain ⟨p', hslot⟩ := hsome part hpart (by rw [hvacant]; rfl)
    exact ⟨p', some part, hslot, congrArg some hdoc⟩

/-- An array with a value for each place up to some place is laid out without a defect, and gives
    nothing to the fields behind. -/
theorem layout_array {items given : List Doc} {omitted skip : Nat}
    (hapart : (fields.map Prod.fst).Pairwise Field.Apart) (hgiven : items.drop skip = given)
    (hfields : fields.map Prod.snd = given.map some ++ List.replicate omitted none) :
    (Layout.ofItems (fields.map Prod.fst) ((itemParts items).drop skip)).defect = none ∧
      (Layout.ofItems (fields.map Prod.fst) ((itemParts items).drop skip)).GivesAll fields := by
  have hparts : ((itemParts items).drop skip).map Part.doc = given := by
    rw [List.map_drop, itemParts_map, hgiven]
  generalize (itemParts items).drop skip = parts at hparts
  subst hparts
  have hlength := congrArg List.length hfields
  simp only [List.length_append, List.length_map, List.length_replicate] at hlength
  constructor
  · refine if_neg ?_
    rw [List.length_map]
    omega
  · refine Layout.givesAll_of_forall fun f hf => ?_
    obtain ⟨i, hi, rfl⟩ := List.getElem_of_mem hf
    have hfield : (fields.map Prod.fst)[i]? = some fields[i].1 := by
      rw [List.getElem?_map, List.getElem?_eq_getElem hi]
      rfl
    refine ⟨i, parts[i]?, Layout.find?_ofItems hapart hfield parts, ?_⟩
    -- the value at place `i` is given, or is one of those that are left out
    have hvalue : (fields.map Prod.snd)[i]? = some fields[i].2 := by
      rw [List.getElem?_map, List.getElem?_eq_getElem hi]
      rfl
    rw [hfields] at hvalue
    by_cases hlt : i < parts.length
    · rw [List.getElem?_append_left (by simpa using hlt)] at hvalue
      simpa [List.getElem?_eq_getElem hlt] using hvalue
    · rw [List.getElem?_append_right (by simpa using hlt)] at hvalue
      have hnone := List.eq_of_mem_replicate (List.mem_of_getElem? hvalue)
      rw [hnone, List.getElem?_eq_none (by omega)]
      rfl

/-- A record without faults is laid out by its fields. -/
theorem layout_of_isRecord (known : List Field) (h : doc.IsRecord tag fields)
    (hclean : doc.isClean = true) (hknown : fields.map Prod.fst = known)
    (hapart : known.Pairwise Field.Apart) :
    ∃ layout, doc.layout known tag.toList.length = .ok layout ∧ layout.defect = none ∧
      layout.named = doc.isObject ∧ layout.GivesAll fields := by
  subst hknown
  cases h with
  | object _ hfields =>
    obtain ⟨hdefect, hgives⟩ := layout_object hapart hclean hfields
    exact ⟨_, rfl, hdefect, rfl, hgives⟩
  | @array given omitted hfields =>
    have hgiven : ((tag.map Doc.text).toList ++ given).drop tag.toList.length = given := by
      cases tag <;> rfl
    obtain ⟨hdefect, hgives⟩ := layout_array hapart hgiven hfields
    exact ⟨_, rfl, hdefect, rfl, hgives⟩

variable {known : List Field} {build : Layout doc → Located α} {a : α}

/-- A record is decoded as soon as every layout that gives its fields their values gives a value. -/
theorem record_ok (h : doc.IsRecord none fields) (hclean : doc.isClean = true)
    (hknown : fields.map Prod.fst = known) (hapart : known.Pairwise Field.Apart)
    (hbuild : ∀ layout : Layout doc, layout.GivesAll fields → (build layout).result = .ok a) :
    doc.record known build = .ok a := by
  obtain ⟨layout, hlayout, hdefect, -, hgives⟩ := layout_of_isRecord known h hclean hknown hapart
  rw [record, show doc.layout known 0 = .ok layout from hlayout]
  exact Layout.close_ok hdefect (hbuild layout hgives)

/-- The same for a record behind a tag. -/
theorem variantRecord_ok {t : String} (h : doc.IsRecord (some t) fields) (hclean : doc.isClean = true)
    (hknown : fields.map Prod.fst = known) (hapart : known.Pairwise Field.Apart)
    (hbuild : ∀ layout : Layout doc, layout.GivesAll fields → (build layout).result = .ok a) :
    doc.variantRecord known build = .ok a := by
  obtain ⟨layout, hlayout, hdefect, -, hgives⟩ := layout_of_isRecord known h hclean hknown hapart
  rw [variantRecord, show doc.layout known 1 = .ok layout from hlayout]
  exact Layout.close_ok hdefect (hbuild layout hgives)

end Record

/-! ## Plain forms -/

/-- The two forms of a record. -/
inductive Form where
  /-- An object of named members. -/
  | named
  /-- An array of the values in order. -/
  | listed
deriving DecidableEq

/-- A record with all of its fields and nothing else. -/
def ofRecord (form : Form) (tag : Option String) (fields : List (Field × Doc)) : Doc :=
  match form with
  | .named => .ofFields
    ((tag.map fun t => ("type", .text t)).toList ++ fields.map fun f => (f.1.name, f.2))
  | .listed => .array ((tag.map Doc.text).toList ++ fields.map Prod.snd)

/-- Fields that can be written by their names, behind a tag or not. -/
structure Writable (tag : Option String) (known : List Field) : Prop where
  apart : known.Pairwise Field.Apart
  spelled : ∀ f ∈ known, f.name ∈ f.spellings
  untagged : tag.isSome = true → ∀ f ∈ known, f.Apart tagField

section Writing

variable {tag : Option String} {fields : List (Field × Doc)}

/-- The members of an object that has each field once. -/
theorem among_fields {f : Field × Doc} (hf : f ∈ fields)
    (hapart : (fields.map Prod.fst).Pairwise Field.Apart)
    (hspelled : ∀ f ∈ fields.map Prod.fst, f.name ∈ f.spellings) :
    f.1.among (fields.map fun f => (some f.1.name, f.2)) = [f.2] := by
  induction fields with
  | nil => exact absurd hf List.not_mem_nil
  | cons g fields ih =>
    obtain ⟨hg, hrest⟩ := List.pairwise_cons.mp hapart
    obtain ⟨hgspelled, hrestspelled⟩ := List.forall_mem_cons.mp hspelled
    rw [List.map_cons]
    rcases List.mem_cons.mp hf with rfl | hf
    · rw [Field.among_cons_of_mem hgspelled, Field.among_eq_nil]
      intro m hm key hkey hmem
      obtain ⟨h, hh, rfl⟩ := List.mem_map.mp hm
      cases hkey
      -- a later field of the same spelling would not be apart from this one
      have hh : h.1 ∈ fields.map Prod.fst := List.mem_map_of_mem hh
      exact (hg h.1 hh).2 _ hmem (hrestspelled h.1 hh)
    · have hne := (hg f.1 (List.mem_map_of_mem hf)).2 _ hgspelled
      rw [Field.among_cons_of_not_mem hne]
      exact ih hf hrest hrestspelled

/-- Written plainly, a record is a record. -/
theorem isRecord_ofRecord (form : Form) {known : List Field} {given : List (Field × Option Doc)}
    (hgiven : given = fields.map fun f => (f.1, some f.2)) (hknown : fields.map Prod.fst = known)
    (hwritable : Writable tag known) : (ofRecord form tag fields).IsRecord tag given := by
  subst hgiven hknown
  obtain ⟨hapart, hspelled, huntagged⟩ := hwritable
  cases form with
  | named =>
    have hmembers : ofRecord .named tag fields = .object
        ((tag.map fun t => (some "type", .text t)).toList ++
          fields.map fun f => (some f.1.name, f.2)) := by
      rw [ofRecord, ofFields, List.map_append, List.map_map]
      cases tag <;> rfl
    rw [hmembers]
    refine .object (fun t ht => ?_) (List.forall_mem_map.mpr fun f hf => ?_)
    · cases ht
      -- no field can be taken for the tag
      have hnone : tagField.among (fields.map fun f => (some f.1.name, f.2)) = [] := by
        refine Field.among_eq_nil fun m hm key hkey hmem => ?_
        obtain ⟨f, hf, rfl⟩ := List.mem_map.mp hm
        cases hkey
        have hf : f.1 ∈ fields.map Prod.fst := List.mem_map_of_mem hf
        exact (huntagged rfl f.1 hf).2 _ (hspelled f.1 hf) hmem
      rw [Field.among_append, hnone]
      rfl
    · rw [Field.among_append, among_fields hf hapart hspelled]
      cases tag with
      | none => rfl
      | some t =>
        have huntagged := huntagged rfl f.1 (List.mem_map_of_mem hf)
        have hne := huntagged.symm.2 "type" (List.mem_singleton_self _)
        show f.1.among [(some "type", Doc.text t)] ++ _ = _
        rw [Field.among_cons_of_not_mem hne]
        rfl
  | listed =>
    have hfields : (fields.map fun f => (f.1, some f.2)).map Prod.snd =
        (fields.map Prod.snd).map some ++ List.replicate 0 none := by
      rw [List.map_map, List.map_map, List.replicate_zero, List.append_nil]
      rfl
    exact .array hfields

/-- Fields that have only their names are told apart by them. -/
theorem isRecord_plain (form : Form) {fields : List (String × Doc)} {given : List (Field × Option Doc)}
    (hgiven : given = plainFields (fields.map fun f => (f.1, some f.2)))
    (hnodup : (fields.map Prod.fst).Nodup)
    (hplain : tag.isSome = true → "type" ∉ fields.map Prod.fst) :
    (ofRecord form tag (plainFields fields)).IsRecord tag given := by
  have hfields : given = (plainFields fields).map fun f => (f.1, some f.2) := by
    rw [hgiven, plainFields, plainFields, List.map_map, List.map_map]
    rfl
  have hknown : (plainFields fields).map Prod.fst = (fields.map Prod.fst).map fun n => ⟨n, [n]⟩ := by
    rw [plainFields, List.map_map, List.map_map]
    rfl
  refine isRecord_ofRecord form hfields hknown ?_
  refine ⟨List.pairwise_map.mpr (hnodup.imp ?_), ?_, fun hsome => ?_⟩
  · intro n n' hne
    refine ⟨hne, fun s hs hs' => hne ?_⟩
    rw [← List.mem_singleton.mp hs, List.mem_singleton.mp hs']
  · exact List.forall_mem_map.mpr fun n _ => List.mem_singleton_self n
  · refine List.forall_mem_map.mpr fun n hn => ⟨?_, ?_⟩
    · rintro rfl
      exact hplain hsome hn
    · intro s hs hs'
      have heq : n = "type" := (List.mem_singleton.mp hs).symm.trans (List.mem_singleton.mp hs')
      exact hplain hsome (heq ▸ hn)

/-- Records of clean values are clean. -/
theorem isClean_ofRecord (form : Form) (tag : Option String)
    (h : cleanItems (fields.map Prod.snd) = true) : (ofRecord form tag fields).isClean = true := by
  have hall := List.forall_mem_map.mp (cleanItems_iff.mp h)
  cases form with
  | named =>
    refine cleanMembers_iff.mpr (List.forall_mem_map.mpr fun f hf => ⟨rfl, ?_⟩)
    rcases List.mem_append.mp hf with hf | hf
    · cases tag with
      | none => cases hf
      | some t =>
        cases List.mem_singleton.mp hf
        rfl
    · obtain ⟨g, hg, rfl⟩ := List.mem_map.mp hf
      exact hall g hg
  | listed => cases tag <;> exact h

end Writing

/-! ## Single values and lists -/

theorem asUInt64_toNat (n : UInt64) : asUInt64 (.int n.toNat) = .ok n := by
  have hlt := n.toNat_lt
  simp [asUInt64]
  omega

theorem asInt64_toInt (i : Int64) : asInt64 (.int i.toInt) = .ok i := by
  have hlow := i.le_toInt
  have hhigh := i.toInt_lt
  rw [asInt64, if_pos ⟨hlow, hhigh⟩, Int64.ofInt_toInt]

/-- What decodes is no null, so that it decodes as something that may be null too. -/
theorem nullable_ok {doc : Doc} {decode : Doc → Decoded α} {a : α}
    (hnull : ∀ b, decode .null ≠ .ok b) (h : decode doc = .ok a) :
    doc.nullable decode = .ok (some a) := by
  unfold nullable
  split
  · exact absurd h (hnull a)
  · rw [h]
    rfl

theorem mapM_cons_ok {d : Doc} {docs : List Doc} {decode : Doc → Decoded α} {a : α} {as : List α}
    (hd : decode d = .ok a) (hdocs : docs.mapM decode = .ok as) :
    (d :: docs).mapM decode = .ok (a :: as) := by
  rw [List.mapM_cons, hd]
  show (docs.mapM decode >>= fun as => pure (a :: as)) = _
  rw [hdocs]
  rfl

/-- Arrays are decoded item by item. -/
theorem list_array (docs : List Doc) (decode : Doc → Decoded α) :
    (Doc.array docs).list (fun q => decode q.doc) = docs.mapM decode := by
  show (itemParts docs).mapM (fun q => decode q.doc) = docs.mapM decode
  conv => rhs; rw [← itemParts_map docs, List.mapM_map]
  rfl

/-- Arrays that must not be empty are decoded like others, unless they are empty. -/
theorem nonEmptyList_array {docs : List Doc} {decode : Doc → Decoded α} {as : List α}
    (h : docs.mapM decode = .ok as) (hne : as ≠ []) :
    (Doc.array docs).nonEmptyList (fun q => decode q.doc) = .ok as := by
  rw [nonEmptyList, list_array, h]
  cases as with
  | nil => exact absurd rfl hne
  | cons a as => rfl

/-- A list whose first item cannot be decoded. -/
theorem nonEmptyList_error {d : Doc} {docs : List Doc} {decode : Doc → Decoded α} {e : DecodeError}
    (h : decode d = .error e) :
    (Doc.array (d :: docs)).nonEmptyList (fun q => decode q.doc) = .error e := by
  rw [nonEmptyList, list_array, List.mapM_cons, h]
  rfl

/-! ## Tags -/

section Tags

variable {τ : Type} [Tagged τ] {t : String}

/-- Behind its tag an object has no other. -/
theorem variantOfMembers_found {members : List (Option String × Doc)}
    (hclean : cleanMembers members = true) (hnone : tagField.among members = [])
    (position : Position) (v : τ) : variantOfMembers τ position (some v) members = .ok v := by
  induction members with
  | nil => rfl
  | cons m members ih =>
    obtain ⟨key, d⟩ := m
    obtain ⟨⟨hkey, hd⟩, hrest⟩ := List.forall_mem_cons.mp (cleanMembers_iff.mp hclean)
    obtain ⟨key, rfl⟩ := Option.isSome_iff_exists.mp hkey
    by_cases htype : key ∈ tagField.spellings
    · rw [Field.among_cons_of_mem htype] at hnone
      cases hnone
    · rw [Field.among_cons_of_not_mem htype] at hnone
      have hne : (key == "type") = false := by simpa [tagField] using htype
      simp only [variantOfMembers, hne, Bool.false_eq_true, if_false]
      rw [if_pos hd]
      exact ih (cleanMembers_iff.mpr hrest) hnone

/-- A clean object with one tag is of the variant that the tag names, wherever the tag stands among
    the members. -/
theorem variantOfMembers_eq {members : List (Option String × Doc)}
    (hclean : cleanMembers members = true) (htag : tagField.among members = [.text t])
    (position : Position) : variantOfMembers τ position none members = Tagged.ofTag τ t := by
  induction members with
  | nil => cases htag
  | cons m members ih =>
    obtain ⟨key, d⟩ := m
    obtain ⟨⟨hkey, hd⟩, hrest⟩ := List.forall_mem_cons.mp (cleanMembers_iff.mp hclean)
    obtain ⟨key, rfl⟩ := Option.isSome_iff_exists.mp hkey
    by_cases htype : key ∈ tagField.spellings
    · -- the tag is here, and there is no other behind it
      rw [Field.among_cons_of_mem htype] at htag
      obtain ⟨rfl, hnone⟩ := List.cons.inj htag
      have heq : key = "type" := List.mem_singleton.mp htype
      subst heq
      simp only [variantOfMembers, beq_self_eq_true, if_true, variant]
      cases Tagged.ofTag τ t with
      | error e => rfl
      | ok v => exact variantOfMembers_found (cleanMembers_iff.mpr hrest) hnone position v
    · rw [Field.among_cons_of_not_mem htype] at htag
      have hne : (key == "type") = false := by simpa [tagField] using htype
      simp only [variantOfMembers, hne, Bool.false_eq_true, if_false]
      rw [if_pos hd]
      exact ih (cleanMembers_iff.mpr hrest) htag

/-- The variant of a tagged record is that of its tag. -/
theorem variantOf_eq {fields : List (Field × Option Doc)} {doc : Doc}
    (h : doc.IsRecord (some t) fields) (hclean : doc.isClean = true) (position : Position) :
    doc.variantOf τ position = Tagged.ofTag τ t := by
  cases h with
  | object htag _ => exact variantOfMembers_eq hclean (htag t rfl) position
  | @array given omitted _ =>
    have hrest : cleanItems given = true := hclean
    show ((Doc.text t).variant τ position >>= fun v => if cleanItems given then .ok v else _) = _
    rw [hrest, variant]
    cases Tagged.ofTag τ t with
    | error e => rfl
    | ok v => rfl

end Tags

end Doc

end QueryCatalog
