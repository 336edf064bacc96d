/-
  No two records share a key.

  A key is the kind, a tag, and then numbers and a name, all joined by colons.  The crux is where the
  colons stand: a number in decimal holds none, so the first colon behind it ends it, and the name,
  which may hold any number of them, stands last.  Kinds differ in their first letter and tags in
  theirs, so an object key is never a pointer key, and a pointer by number is never one by name.

  `objectKey_inj`, `pointerKey_id_inj` and `pointerKey_name_inj` read a key back into its parts;
  `pointerKey_id_ne_name` and `pointerKey_ne_objectKey` keep the families apart.  `keys_told_apart` says
  exactly which keys are one: those of one record, and pointers by number for any two owners.
-/
import QueryCatalog.Cache.Record

namespace QueryCatalog.Cache

/-! ## Numbers and colons -/

/-- A number is known by its decimal text. -/
theorem toString_nat_inj {m n : Nat} (h : toString m = toString n) : m = n := by
  have hdigits := congrArg (fun s : String => Nat.ofDigitChars 10 s.toList 0) h
  simpa [Nat.toString_eq_ofList_toDigits] using hdigits

/-- The decimal text of a number holds no colon. -/
theorem colon_not_mem_toString (n : Nat) : ':' ∉ (toString n).toList := by
  intro hmem
  rw [Nat.toString_eq_ofList_toDigits, String.toList_ofList] at hmem
  have hdigit := Nat.isDigit_of_mem_toDigits (by omega) (Nat.le_refl 10) hmem
  exact absurd hdigit (by decide)

/-- The first colon divides a text in one way only. -/
theorem append_colon_inj {a b r s : List Char} (ha : ':' ∉ a) (hb : ':' ∉ b)
    (h : a ++ ':' :: r = b ++ ':' :: s) : a = b ∧ r = s := by
  induction a generalizing b with
  | nil =>
    cases b with
    | nil => exact ⟨rfl, by simpa using h⟩
    | cons d b' =>
      simp only [List.nil_append, List.cons_append, List.cons.injEq] at h
      -- one side is at its colon and the other is not
      exact absurd (h.1 ▸ List.mem_cons_self) hb
  | cons c a' ih =>
    cases b with
    | nil =>
      simp only [List.nil_append, List.cons_append, List.cons.injEq] at h
      exact absurd (h.1 ▸ List.mem_cons_self) ha
    | cons d b' =>
      simp only [List.cons_append, List.cons.injEq] at h
      obtain ⟨hcd, htail⟩ := h
      have hrest := ih (fun hm => ha (List.mem_cons_of_mem c hm))
        (fun hm => hb (List.mem_cons_of_mem d hm)) htail
      exact ⟨by rw [hcd, hrest.1], hrest.2⟩

/-- A number and a colon in front of a text can be read off it. -/
theorem number_colon_inj {m n : UInt64} {r s : String}
    (h : (toString m.toNat ++ ":" ++ r : String) = toString n.toNat ++ ":" ++ s) : m = n ∧ r = s := by
  have hlist := congrArg String.toList h
  simp only [String.toList_append, List.append_assoc] at hlist
  obtain ⟨hnum, hrest⟩ := append_colon_inj (colon_not_mem_toString m.toNat)
    (colon_not_mem_toString n.toNat) hlist
  refine ⟨UInt64.toNat_inj.mp (toString_nat_inj (String.toList_inj.mp hnum)), ?_⟩
  exact String.toList_inj.mp hrest

/-! ## Kinds and tags -/

/-- What stands in front of the first number or name: the kind, and a tag that tells objects,
    pointers by number and pointers by name apart. -/
inductive KeyTag where
  | object
  | number
  | name
deriving DecidableEq, Repr

/-- The tag between its colons. -/
def KeyTag.text : KeyTag → String
  | .object => ":obj:"
  | .number => ":id:"
  | .name => ":name:"

/-- The kind and the tag can be read off the front of a key. -/
theorem tagged_inj {kind kind' : EntityKind} {tag tag' : KeyTag} {r s : String}
    (h : kind.text ++ tag.text ++ r = kind'.text ++ tag'.text ++ s) :
    kind = kind' ∧ tag = tag' ∧ r = s := by
  have hlist := congrArg String.toList h
  simp only [String.toList_append, List.append_assoc] at hlist
  cases kind <;> cases kind' <;> cases tag <;> cases tag' <;>
    simp [EntityKind.text, KeyTag.text] at hlist <;>
    exact ⟨rfl, rfl, String.toList_inj.mp hlist⟩

/-- The key of an object, as its kind, its tag and the rest. -/
theorem objectKey_eq (kind : EntityKind) (id : EntityId) (owner : Owner) (name : String) :
    objectKey kind id owner name =
      kind.text ++ KeyTag.object.text ++ (toString id.toNat ++ ":" ++ (toString owner.toNat ++ ":" ++
        name)) := by
  simp only [objectKey, KeyTag.text, String.append_assoc]

theorem pointerKey_id_eq (kind : EntityKind) (owner : Owner) (id : EntityId) :
    pointerKey kind owner (.id id) = kind.text ++ KeyTag.number.text ++ toString id.toNat := rfl

/-- The key of a pointer by name, as its kind, its tag and the rest. -/
theorem pointerKey_name_eq (kind : EntityKind) (owner : Owner) (name : String) :
    pointerKey kind owner (.name name) =
      kind.text ++ KeyTag.name.text ++ (toString owner.toNat ++ ":" ++ name) := by
  simp only [pointerKey, KeyTag.text, String.append_assoc]

/-! ## Keys read back -/

/-- An object key names all that identifies its entity. -/
theorem objectKey_inj {kind kind' : EntityKind} {id id' : EntityId} {owner owner' : Owner}
    {name name' : String} (h : objectKey kind id owner name = objectKey kind' id' owner' name') :
    kind = kind' ∧ id = id' ∧ owner = owner' ∧ name = name' := by
  rw [objectKey_eq, objectKey_eq] at h
  obtain ⟨hkind, -, hrest⟩ := tagged_inj h
  obtain ⟨hid, hrest⟩ := number_colon_inj hrest
  obtain ⟨howner, hname⟩ := number_colon_inj hrest
  exact ⟨hkind, hid, howner, hname⟩

/-- A pointer by number names the kind and the number, and no owner. -/
theorem pointerKey_id_inj {kind kind' : EntityKind} {owner owner' : Owner} {id id' : EntityId}
    (h : pointerKey kind owner (.id id) = pointerKey kind' owner' (.id id')) :
    kind = kind' ∧ id = id' := by
  rw [pointerKey_id_eq, pointerKey_id_eq] at h
  obtain ⟨hkind, -, hnum⟩ := tagged_inj h
  exact ⟨hkind, UInt64.toNat_inj.mp (toString_nat_inj hnum)⟩

/-- A pointer by name names the kind, the owner and the name. -/
theorem pointerKey_name_inj {kind kind' : EntityKind} {owner owner' : Owner} {name name' : String}
    (h : pointerKey kind owner (.name name) = pointerKey kind' owner' (.name name')) :
    kind = kind' ∧ owner = owner' ∧ name = name' := by
  rw [pointerKey_name_eq, pointerKey_name_eq] at h
  obtain ⟨hkind, -, hrest⟩ := tagged_inj h
  obtain ⟨howner, hname⟩ := number_colon_inj hrest
  exact ⟨hkind, howner, hname⟩

/-- The two ways to look something up never meet in one pointer. -/
theorem pointerKey_id_ne_name {kind kind' : EntityKind} {owner owner' : Owner} {id : EntityId}
    {name : String} : pointerKey kind owner (.id id) ≠ pointerKey kind' owner' (.name name) := by
  intro h
  rw [pointerKey_id_eq, pointerKey_name_eq] at h
  exact absurd (tagged_inj h).2.1 (by decide)

/-- A pointer is never taken for an object. -/
theorem pointerKey_ne_objectKey {kind kind' : EntityKind} {owner owner' : Owner} {lookup : Lookup}
    {id : EntityId} {name : String} :
    pointerKey kind owner lookup ≠ objectKey kind' id owner' name := by
  intro h
  rw [objectKey_eq] at h
  cases lookup with
  | id n =>
    rw [pointerKey_id_eq] at h
    exact absurd (tagged_inj h).2.1 (by decide)
  | name s =>
    rw [pointerKey_name_eq] at h
    exact absurd (tagged_inj h).2.1 (by decide)

/-! ## One key, one record -/

/-- Two pointers are one exactly if they lead from one number of a kind, or from one name that one owner
    gave. -/
theorem pointerKey_eq_iff {kind kind' : EntityKind} {owner owner' : Owner} {lookup lookup' : Lookup} :
    pointerKey kind owner lookup = pointerKey kind' owner' lookup' ↔
      kind = kind' ∧ ((∃ id, lookup = .id id ∧ lookup' = .id id) ∨
        owner = owner' ∧ ∃ name, lookup = .name name ∧ lookup' = .name name) := by
  constructor
  · intro h
    cases lookup with
    | id n =>
      cases lookup' with
      | id n' =>
        obtain ⟨hkind, rfl⟩ := pointerKey_id_inj h
        exact ⟨hkind, .inl ⟨n, rfl, rfl⟩⟩
      | name s' => exact absurd h pointerKey_id_ne_name
    | name s =>
      cases lookup' with
      | id n' => exact absurd h.symm pointerKey_id_ne_name
      | name s' =>
        obtain ⟨hkind, howner, rfl⟩ := pointerKey_name_inj h
        exact ⟨hkind, .inr ⟨howner, s, rfl, rfl⟩⟩
  · rintro ⟨rfl, ⟨id, rfl, rfl⟩ | ⟨rfl, name, rfl, rfl⟩⟩
    · -- a pointer by number leaves the owner out
      rfl
    · rfl

/-- **Keys never collide.**  Object keys are equal exactly if the kind, the number, the owner and the name
    are.  Pointer keys are equal exactly if the kind is, and both lead from one number or both from one
    name of one owner.  No pointer key is an object key.  Names are any texts, with colons and digits in
    them. -/
theorem keys_told_apart (kind kind' : EntityKind) (owner owner' : Owner) :
    (∀ id id' name name', objectKey kind id owner name = objectKey kind' id' owner' name' ↔
      kind = kind' ∧ id = id' ∧ owner = owner' ∧ name = name') ∧
    (∀ lookup lookup', pointerKey kind owner lookup = pointerKey kind' owner' lookup' ↔
      kind = kind' ∧ ((∃ id, lookup = .id id ∧ lookup' = .id id) ∨
        owner = owner' ∧ ∃ name, lookup = .name name ∧ lookup' = .name name)) ∧
    ∀ lookup id name, pointerKey kind owner lookup ≠ objectKey kind' id owner' name := by
  refine ⟨fun id id' name name' => ⟨objectKey_inj, ?_⟩, fun _ _ => pointerKey_eq_iff,
    fun _ _ _ => pointerKey_ne_objectKey⟩
  rintro ⟨rfl, rfl, rfl, rfl⟩
  rfl

end QueryCatalog.Cache
