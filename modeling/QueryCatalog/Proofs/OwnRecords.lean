/-
  What an owner sees of the cache.

  All owners share one cache, and pointers by number do not say whose they are.  But an owner can tell
  two caches apart only by which records of own entities are live (`AlikeFor`): a record of somebody
  else's is never taken.  Over caches that are alike for an owner, fetches of that owner end in the
  same way and leave caches that are alike (`fetch_alike`).  And a fetch of another owner leaves a
  cache that is alike (`AlikeFor.foreign`): it writes under that owner's keys, or under a number
  that belongs to no one else.
-/
import QueryCatalog.Proofs.CacheFetch

namespace QueryCatalog.Cache

variable {β γ : Type} [Cached β] [Cached γ]

/-- The same records of an owner's entities of one kind are live. -/
def AlikeFor (β : Type) [Cached β] (owner : Owner) (now : Nat) (m m' : TimedMap ByteArray) : Prop :=
  ∀ e : Entity β, Body.owner e.body = owner → ∀ k v, (k, v) ∈ recordsOf e →
    (m.get? now k = some v ↔ m'.get? now k = some v)

variable {owner : Owner} {now : Nat} {m m' m₁ m₁' : TimedMap ByteArray}

theorem bytesOf_inj {s s' : String} (h : bytesOf s = bytesOf s') : s = s' := by
  have htext := congrArg textOf? h
  rw [textOf?_bytesOf, textOf?_bytesOf, Option.some.injEq] at htext
  exact htext

/-- The key of an object tells its number and its owner. -/
theorem objectKeyOf_inj {e e' : Entity β} (h : objectKeyOf e = objectKeyOf e') :
    e.id = e'.id ∧ Body.owner e.body = Body.owner e'.body := by
  obtain ⟨-, hid, howner, -⟩ := objectKey_inj h
  exact ⟨hid, howner⟩

/-- Entities of two owners share a key only if it is a pointer by a number that both have. -/
theorem shared_key {e e' : Entity β} (hother : Body.owner e'.body ≠ Body.owner e.body) {k : String}
    {v w : ByteArray} (hv : (k, v) ∈ recordsOf e) (hw : (k, w) ∈ recordsOf e') :
    k = pointerKey (Body.kind β) (Body.owner e.body) (.id e.id) ∧ e'.id = e.id ∧
      v = bytesOf (objectKeyOf e) ∧ w = bytesOf (objectKeyOf e') := by
  simp only [recordsOf, List.mem_cons, Prod.mk.injEq, List.not_mem_nil, or_false] at hv
  rcases hv with ⟨rfl, -⟩ | ⟨rfl, hv⟩ | ⟨rfl, -⟩
  · exact absurd (objectKeyOf_inj (written_of_mem hw).2).2 hother
  · obtain ⟨hw, hid⟩ := pointer_of_mem hw
    exact ⟨rfl, hid, hv, hw⟩
  · exact absurd (pointer_of_mem hw).2.1 hother

namespace AlikeFor

theorem refl (m : TimedMap ByteArray) : AlikeFor β owner now m m := fun _ _ _ _ _ => Iff.rfl

theorem symm (h : AlikeFor β owner now m m') : AlikeFor β owner now m' m :=
  fun e he k v hmem => (h e he k v hmem).symm

/-- What is found in one cache is found in a cache that is alike. -/
theorem found (h : AlikeFor β owner now m m') [LawfulCached β] {known : Entity β → Prop}
    (hbacked : Backed known now m) {lookup : Lookup} {e : Entity β}
    (hfound : found? m now owner lookup = some e) : found? m' now owner lookup = some e := by
  obtain ⟨-, hanswers, hpointer, hobject⟩ := hbacked.found hfound
  have howner := Table.owner_of_answers hanswers
  exact found?_of_live hanswers
    ((h e howner _ _ (pointer_mem_recordsOf hanswers)).mp hpointer)
    ((h e howner _ _ List.mem_cons_self).mp hobject)

/-- With the same records of their entities, an owner finds the same. -/
theorem found?_eq (h : AlikeFor β owner now m m') [LawfulCached β] {known known' : Entity β → Prop}
    (hbacked : Backed known now m) (hbacked' : Backed known' now m') (lookup : Lookup) :
    (found? m now owner lookup : Option (Entity β)) = found? m' now owner lookup := by
  refine Option.ext fun e => ⟨h.found hbacked, h.symm.found hbacked'⟩

/-- Writing one entity's records into both caches keeps them alike. -/
theorem populated (h : AlikeFor β owner now m m') {b b' : Backing} (hnow : b.now = now)
    (hnow' : b'.now = now) (httl : b.ttl = b'.ttl) {e : Entity γ} (hm : Populated b e m m₁)
    (hm' : Populated b' e m' m₁') : AlikeFor β owner now m₁ m₁' := by
  intro e₁ howner k v hmem
  rw [hm now (Nat.le_of_eq hnow) k, hm' now (Nat.le_of_eq hnow') k, hnow, hnow', httl]
  cases (recordsOf e).lookup k with
  | none => exact h e₁ howner k v hmem
  | some w => exact Iff.rfl

/-- Writing somebody else's entity into one of the caches keeps them alike. -/
theorem foreign (h : AlikeFor β owner now m m') {known : Entity β → Prop}
    (hbacked : Backed known now m')
    (hunique : ∀ e e', known e → known e' → e.id = e'.id → e = e') {b : Backing} (hnow : b.now = now)
    {e : Entity β} (he : known e) (hother : Body.owner e.body ≠ owner)
    (hm' : Populated b e m' m₁') : AlikeFor β owner now m m₁' := by
  intro e₁ howner k v hmem
  rw [hm' now (Nat.le_of_eq hnow) k]
  cases hlookup : (recordsOf e).lookup k with
  | none => exact h e₁ howner k v hmem
  | some w =>
    subst howner
    obtain ⟨rfl, hid, rfl, rfl⟩ := shared_key hother hmem (mem_of_lookup hlookup)
    -- the number is the other entity's, so no record of this owner stands there, before or after
    have hbefore : ¬ m.get? now (pointerKey (Body.kind β) (Body.owner e₁.body) (.id e₁.id)) =
        some (bytesOf (objectKeyOf e₁)) := by
      rw [h e₁ rfl _ _ hmem]
      intro hget
      obtain ⟨e₂, he₂, hmem₂⟩ := hbacked now (Nat.le_refl now) _ _ hget (.inr ⟨_, _, rfl⟩)
      obtain ⟨hbytes, hid₂⟩ := pointer_of_mem hmem₂
      have heq := hunique e₂ e he₂ he (hid₂.trans hid.symm)
      exact hother (heq ▸ (objectKeyOf_inj (bytesOf_inj hbytes)).2.symm)
    have hafter : ¬ (if now < b.now + b.ttl then some (bytesOf (objectKeyOf e)) else none) =
        some (bytesOf (objectKeyOf e₁)) := by
      split
      · intro hget
        exact hother (objectKeyOf_inj (bytesOf_inj (Option.some.inj hget))).2
      · exact fun hget => by cases hget
    exact iff_of_false hbefore hafter

/-- So does writing an entity of another kind. -/
theorem foreign_kind (h : AlikeFor β owner now m m') {b : Backing} (hnow : b.now = now)
    {e : Entity γ} (hkind : Body.kind γ ≠ Body.kind β) (hm' : Populated b e m' m₁') :
    AlikeFor β owner now m m₁' := by
  intro e₁ howner k v hmem
  rw [hm' now (Nat.le_of_eq hnow) k, lookup_recordsOf_other (isKeyOf_of_mem hmem) hkind]
  exact h e₁ howner k v hmem

end AlikeFor

/-! ## Fetches -/

section Fetch

variable {b b' : Backing} {table table' : Table β} {t t' : Traffic}

/-- A fetch by somebody else leaves a cache that is alike. -/
theorem AlikeFor.fetch_foreign (h : AlikeFor β owner now m t.records) {known : Entity β → Prop}
    (hup : b.down = []) (hnow : b.now = now) (hbacked : Backed known now t.records)
    (hunique : ∀ e e', known e → known e' → e.id = e'.id → e = e')
    (hrows : ∀ e ∈ table.rows, known e) {other : Owner} (hother : other ≠ owner) (lookup : Lookup) :
    AlikeFor β owner now m ((fetch b table other lookup).run t).2.records := by
  have hcases := fetch_cases hup table other lookup t
  generalize (fetch b table other lookup).run t = r at hcases
  cases hcases with
  | hit _ | missing _ _ | overflow _ _ _ => exact h
  | loaded _ hrow _ hpopulated =>
    obtain ⟨hmem, hanswers⟩ := Table.answers_of_find? hrow
    have howner := Table.owner_of_answers hanswers
    exact h.foreign hbacked hunique hnow (hrows _ hmem) (howner ▸ hother) hpopulated

/-- A fetch of one kind leaves a cache that is alike in the other kind. -/
theorem AlikeFor.fetch_kind (h : AlikeFor γ owner now m t.records) (hup : b.down = [])
    (hnow : b.now = now) (hkind : Body.kind β ≠ Body.kind γ) (other : Owner) (lookup : Lookup) :
    AlikeFor γ owner now m ((fetch b table other lookup).run t).2.records := by
  have hcases := fetch_cases hup table other lookup t
  generalize (fetch b table other lookup).run t = r at hcases
  cases hcases with
  | hit _ | missing _ _ | overflow _ _ _ => exact h
  | loaded _ _ _ hpopulated => exact h.foreign_kind hnow hkind hpopulated

/-- What no known entity answers is not found, whatever is in the cache. -/
theorem fetch_unanswered [LawfulCached β] {known : Entity β → Prop} {lookup : Lookup}
    (hup : b.down = []) (hbacked : Backed known b.now t.records) (hrows : ∀ e ∈ table.rows, known e)
    (hnone : ∀ e, known e → ¬ e.answers owner lookup = true) :
    ((fetch b table owner lookup).run t).1 = .error (.notFound (Body.kind β) lookup) := by
  have hcases := fetch_cases hup table owner lookup t
  generalize (fetch b table owner lookup).run t = r at hcases
  cases hcases with
  | hit hfound =>
    obtain ⟨hknown, hanswers, -, -⟩ := hbacked.found hfound
    exact absurd hanswers (hnone _ hknown)
  | missing _ _ => rfl
  | overflow _ hrow _ | loaded _ hrow _ _ =>
    obtain ⟨hmem, hanswers⟩ := Table.answers_of_find? hrow
    exact absurd hanswers (hnone _ (hrows _ hmem))

/-- Where the records have the same for a lookup, and so have the tables, two fetches end in the same
    way: both leave the records, or both write the same entity. -/
theorem fetch_alike (hup : b.down = []) (hup' : b'.down = []) (hnow : b.now = b'.now)
    (httl : b.ttl = b'.ttl) {lookup : Lookup}
    (hfound : (found? t.records b.now owner lookup : Option (Entity β)) =
      found? t'.records b.now owner lookup)
    (hrow : table.find? owner lookup = table'.find? owner lookup) :
    ((fetch b table owner lookup).run t).1 = ((fetch b' table' owner lookup).run t').1 ∧
      ((((fetch b table owner lookup).run t).2.records = t.records ∧
          ((fetch b' table' owner lookup).run t').2.records = t'.records) ∨
        ∃ e : Entity β, Populated b e t.records ((fetch b table owner lookup).run t).2.records ∧
          Populated b' e t'.records ((fetch b' table' owner lookup).run t').2.records) := by
  have hcases := fetch_cases hup table owner lookup t
  have hcases' := fetch_cases hup' table' owner lookup t'
  generalize (fetch b table owner lookup).run t = r at hcases
  generalize (fetch b' table' owner lookup).run t' = r' at hcases'
  rw [show found? t'.records b.now owner lookup = found? t'.records b'.now owner lookup by rw [hnow]]
    at hfound
  -- the branch that one fetch takes is decided by what the other one finds too
  cases hcases with
  | hit hf =>
    rw [hfound] at hf
    cases hcases' with
    | hit hf' =>
      cases hf.symm.trans hf'
      exact ⟨rfl, .inl ⟨rfl, rfl⟩⟩
    | missing hf' _ | overflow hf' _ _ | loaded hf' _ _ _ => cases hf.symm.trans hf'
  | missing hf hr =>
    rw [hfound] at hf
    rw [hrow] at hr
    cases hcases' with
    | hit hf' => cases hf.symm.trans hf'
    | missing _ _ => exact ⟨rfl, .inl ⟨rfl, rfl⟩⟩
    | overflow _ hr' _ | loaded _ hr' _ _ => cases hr.symm.trans hr'
  | overflow hf hr hend =>
    rw [hfound] at hf
    rw [hrow] at hr
    rw [hnow, httl] at hend
    cases hcases' with
    | hit hf' => cases hf.symm.trans hf'
    | missing _ hr' => cases hr.symm.trans hr'
    | overflow _ _ _ => exact ⟨rfl, .inl ⟨rfl, rfl⟩⟩
    | loaded _ _ hend' _ => exact absurd hend' hend
  | loaded hf hr hend hpopulated =>
    rw [hfound] at hf
    rw [hrow] at hr
    rw [hnow, httl] at hend
    cases hcases' with
    | hit hf' => cases hf.symm.trans hf'
    | missing _ hr' => cases hr.symm.trans hr'
    | overflow _ _ hend' => exact absurd hend hend'
    | loaded _ hr' _ hpopulated' =>
      cases hr.symm.trans hr'
      exact ⟨rfl, .inr ⟨_, hpopulated, hpopulated'⟩⟩

/-- So they leave caches that are alike, in any kind. -/
theorem AlikeFor.fetch (h : AlikeFor γ owner now t.records t'.records) (hnow : b.now = now)
    (hnow' : b'.now = now) (httl : b.ttl = b'.ttl) (hrecords : (m = t.records ∧ m' = t'.records) ∨
      ∃ e : Entity β, Populated b e t.records m ∧ Populated b' e t'.records m') :
    AlikeFor γ owner now m m' := by
  rcases hrecords with ⟨rfl, rfl⟩ | ⟨e, hm, hm'⟩
  · exact h
  · exact h.populated hnow hnow' httl hm hm'

end Fetch

end QueryCatalog.Cache
