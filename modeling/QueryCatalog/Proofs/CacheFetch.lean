/-
  What a fetch does, seen through the records.

  With all services in reach a fetch goes one of four ways (`fetch_cases`): the records have the entity;
  or neither they nor the table have it; or the table has it and its records are written; or they
  would expire beyond the end of the clock.  The records are looked at through `get?` only, so
  that the clearing of expired ones is not seen.

  The crux is `Backed`: every live record of a kind is one of the three records of an entity that is
  known.  It survives a write because keys do not collide, and under it what the records have for a
  lookup is a known entity that answers the lookup (`Backed.found`).  A pointer by number does
  not name an owner; that it leads to an object of another owner is what `accepts` rules out.
-/
import QueryCatalog.Cache.Fetch
import QueryCatalog.Proofs.CachedEntity
import QueryCatalog.Proofs.KeySpace
import QueryCatalog.Proofs.StoredTable

namespace QueryCatalog

/-! ## Steps of a computation that keeps a state -/

section Steps

variable {σ α δ : Type} {x : ExceptT Error (StateM σ) α} {f : α → ExceptT Error (StateM σ) δ}
  {s s' : σ}

/-- A computation goes on behind a result. -/
theorem run_bind_ok {a : α} (hx : x.run s = (.ok a, s')) : (x >>= f).run s = (f a).run s' := by
  show (ExceptT.bindCont f (x.run s).1) (x.run s).2 = _
  rw [hx]
  rfl

/-- A computation ends at an error. -/
theorem run_bind_error {e : Error} (hx : x.run s = (.error e, s')) :
    (x >>= f).run s = (.error e, s') := by
  show (ExceptT.bindCont f (x.run s).1) (x.run s).2 = _
  rw [hx]
  rfl

/-- A computation that gives a result has one at each of its steps. -/
theorem run_bind_eq_ok_iff {d : δ} :
    ((x >>= f).run s).1 = .ok d ↔ ∃ a s', x.run s = (.ok a, s') ∧ ((f a).run s').1 = .ok d := by
  constructor
  · intro h
    cases hrun : x.run s with
    | mk r s' =>
      cases r with
      | ok a =>
        rw [run_bind_ok hrun] at h
        exact ⟨a, s', rfl, h⟩
      | error e =>
        rw [run_bind_error hrun] at h
        cases h
  · rintro ⟨a, s', hrun, h⟩
    rw [run_bind_ok hrun]
    exact h

/-- A computation that fails does so at one of its steps. -/
theorem run_bind_eq_error_iff {e : Error} :
    ((x >>= f).run s).1 = .error e ↔
      (x.run s).1 = .error e ∨ ∃ a s', x.run s = (.ok a, s') ∧ ((f a).run s').1 = .error e := by
  constructor
  · intro h
    cases hrun : x.run s with
    | mk r s' =>
      cases r with
      | ok a =>
        rw [run_bind_ok hrun] at h
        exact .inr ⟨a, s', rfl, h⟩
      | error e' =>
        rw [run_bind_error hrun] at h
        exact .inl (congrArg Except.error (Except.error.inj h))
  · rintro (h | ⟨a, s', hrun, h⟩)
    · have hrun : x.run s = (.error e, (x.run s).2) := Prod.ext h rfl
      rw [run_bind_error hrun]
    · rw [run_bind_ok hrun]
      exact h

theorem run_map (f : α → δ) (x : ExceptT Error (StateM σ) α) (s : σ) :
    (f <$> x).run s = ((x.run s).1.map f, (x.run s).2) := by
  cases hrun : x.run s with
  | mk r s' =>
    rw [map_eq_pure_bind]
    cases r with
    | ok a => rw [run_bind_ok hrun]; rfl
    | error e => rw [run_bind_error hrun]; rfl

end Steps

namespace Cache

variable {β γ : Type} [Cached β] [Cached γ]

/-! ## The records of an entity -/

/-- The key of the record that holds the entity. -/
def objectKeyOf (e : Entity β) : String :=
  objectKey (Body.kind β) e.id (Body.owner e.body) (Body.name e.body)

/-- The key of the pointer that leads from a lookup by the entity's owner. -/
def pointerKeyOf (e : Entity β) (lookup : Lookup) : String :=
  pointerKey (Body.kind β) (Body.owner e.body) lookup

/-- The three records of an entity: the object and the two pointers to it. -/
def recordsOf (e : Entity β) : List (String × ByteArray) :=
  [ (objectKeyOf e, written e),
    (pointerKeyOf e (.id e.id), bytesOf (objectKeyOf e)),
    (pointerKeyOf e (.name (Body.name e.body)), bytesOf (objectKeyOf e)) ]

/-- The record under a key, by the three keys that an entity has records under. -/
theorem lookup_recordsOf (e : Entity β) (k : String) :
    (recordsOf e).lookup k =
      if objectKeyOf e = k then some (written e)
      else if pointerKeyOf e (.id e.id) = k then some (bytesOf (objectKeyOf e))
      else if pointerKeyOf e (.name (Body.name e.body)) = k then some (bytesOf (objectKeyOf e))
      else none := by
  have hcons : ∀ (key : String) (v : ByteArray) (rest : List (String × ByteArray)),
      ((key, v) :: rest).lookup k = if key = k then some v else rest.lookup k := by
    intro key v rest
    by_cases hkey : key = k
    · simp [hkey]
    · have hne : (k == key) = false := by simpa using Ne.symm hkey
      simp [List.lookup_cons, hkey, hne]
  rw [recordsOf, hcons, hcons, hcons, List.lookup_nil]

theorem mem_of_lookup {e : Entity β} {k : String} {v : ByteArray}
    (h : (recordsOf e).lookup k = some v) : (k, v) ∈ recordsOf e := by
  obtain ⟨front, back, heq, -⟩ := List.lookup_eq_some_iff.mp h
  rw [heq]
  simp

/-- `after` is `before` with the records of an entity written, as far as any look from then on
    can tell. -/
def Populated (b : Backing) (e : Entity β) (before after : TimedMap ByteArray) : Prop :=
  ∀ later, b.now ≤ later → ∀ k, after.get? later k =
    match (recordsOf e).lookup k with
    | some v => if later < b.now + b.ttl then some v else none
    | none => before.get? later k

/-- What the records have for a lookup. -/
def found? (records : TimedMap ByteArray) (now : Nat) (owner : Owner) (lookup : Lookup) :
    Option (Entity β) := do
  let pointer ← records.get? now (pointerKey (Body.kind β) owner lookup)
  let key ← textOf? pointer
  let bytes ← records.get? now key
  (entity? bytes).filter (accepts owner lookup)

/-! ## One fetch -/

section Run

variable {b : Backing} (hup : b.down = [])
include hup

theorem reach_ok (service : Service) : b.reach service = .ok () := by
  simp [Backing.reach, hup]

theorem read?_run (key : String) (t : Traffic) :
    (read? b key).run t = (.ok (t.records.get? b.now key), t) := by
  simp only [read?, reach_ok hup]
  rfl

/-- A write stores the record to live for the cache's time, or fails if it would outlive the clock. -/
theorem write_run (key : String) (value : ByteArray) (t : Traffic) :
    (write b key value).run t =
      match t.records.set? b.now key value b.ttl with
      | some records => (.ok (), ⟨records, t.reads⟩)
      | none => (.error .expiryOverflow, t) := by
  simp only [write, reach_ok hup]
  show StateT.run (ExceptT.run (match t.records.set? b.now key value b.ttl with
      | some records => set { t with records := records }
      | none => throw .expiryOverflow : Fetching Unit)) t = _
  cases t.records.set? b.now key value b.ttl <;> rfl

theorem write_overflow (hend : ¬ b.now + b.ttl < clockEnd) (key : String) (value : ByteArray)
    (t : Traffic) : (write b key value).run t = (.error .expiryOverflow, t) := by
  rw [write_run hup, TimedMap.set?, if_neg hend]

/-- Within the clock a write is seen under its own key until it expires, and under no other key. -/
theorem write_ok (hend : b.now + b.ttl < clockEnd) (key : String) (value : ByteArray)
    (t : Traffic) :
    ∃ records, (write b key value).run t = (.ok (), ⟨records, t.reads⟩) ∧
      ∀ later, b.now ≤ later → ∀ k, records.get? later k =
        if key = k then (if later < b.now + b.ttl then some value else none)
        else t.records.get? later k := by
  obtain ⟨records, hset⟩ : ∃ records, t.records.set? b.now key value b.ttl = some records :=
    ⟨_, if_pos hend⟩
  refine ⟨records, by rw [write_run hup, hset], fun later hlater k => ?_⟩
  exact TimedMap.get?_set? hset hlater k

/-- Within the clock all three records of an entity are written. -/
theorem populate_ok (hend : b.now + b.ttl < clockEnd) (e : Entity β) (t : Traffic) :
    ∃ records, (populate b e).run t = (.ok (), ⟨records, t.reads⟩) ∧
      Populated b e t.records records := by
  obtain ⟨r₁, hrun₁, hget₁⟩ := write_ok hup hend (objectKeyOf e) (written e) t
  obtain ⟨r₂, hrun₂, hget₂⟩ := write_ok hup hend (pointerKeyOf e (.id e.id))
    (bytesOf (objectKeyOf e)) ⟨r₁, t.reads⟩
  obtain ⟨r₃, hrun₃, hget₃⟩ := write_ok hup hend (pointerKeyOf e (.name (Body.name e.body)))
    (bytesOf (objectKeyOf e)) ⟨r₂, t.reads⟩
  refine ⟨r₃, ?_, fun later hlater k => ?_⟩
  · exact (run_bind_ok hrun₁).trans ((run_bind_ok hrun₂).trans hrun₃)
  · rw [hget₃ later hlater, hget₂ later hlater, hget₁ later hlater, lookup_recordsOf]
    -- the last write is asked first, so the keys have to be told apart
    have hobject : ∀ lookup, pointerKeyOf e lookup ≠ objectKeyOf e :=
      fun _ => pointerKey_ne_objectKey
    have hpointer : pointerKeyOf e (.id e.id) ≠ pointerKeyOf e (.name (Body.name e.body)) :=
      pointerKey_id_ne_name
    by_cases hname : pointerKeyOf e (.name (Body.name e.body)) = k
    · subst hname
      simp [(hobject _).symm, hpointer]
    · by_cases hid : pointerKeyOf e (.id e.id) = k
      · subst hid
        simp [(hobject _).symm, hpointer.symm]
      · by_cases hkey : objectKeyOf e = k <;> simp [hname, hid, hkey]

/-- Beyond the end of the clock the first write fails, and nothing is left behind. -/
theorem populate_overflow (hend : ¬ b.now + b.ttl < clockEnd) (e : Entity β) (t : Traffic) :
    (populate b e).run t = (.error .expiryOverflow, t) :=
  run_bind_error (write_overflow hup hend _ _ t)

/-- What the cache gives for a lookup is what its records have for it. -/
theorem cached?_run (owner : Owner) (lookup : Lookup) (t : Traffic) :
    (cached? b owner lookup : Fetching (Option (Entity β))).run t =
      (.ok (found? t.records b.now owner lookup), t) := by
  rw [cached?, run_bind_ok (read?_run hup _ t), found?]
  cases t.records.get? b.now (pointerKey (Body.kind β) owner lookup) with
  | none => rfl
  | some pointer =>
    simp only [Option.bind_eq_bind, Option.bind_some]
    cases textOf? pointer with
    | none => rfl
    | some key =>
      simp only [run_bind_ok (read?_run hup key t), Option.bind_some]
      cases t.records.get? b.now key <;> rfl

/-- A load reads one row, and is counted. -/
theorem load_run (table : Table β) (owner : Owner) (lookup : Lookup) (t : Traffic) :
    (load b table owner lookup).run t =
      (.ok (table.find? owner lookup), ⟨t.records, t.reads + 1⟩) := by
  simp only [load, reach_ok hup]
  rfl

end Run

/-- The ways that a fetch can go, each with its result and what it leaves. -/
inductive Fetched (b : Backing) (table : Table β) (owner : Owner) (lookup : Lookup) (t : Traffic) :
    Except Error (Entity β) × Traffic → Prop
  | hit {e : Entity β} (hfound : found? t.records b.now owner lookup = some e) :
    Fetched b table owner lookup t (.ok e, t)
  | missing (hfound : (found? t.records b.now owner lookup : Option (Entity β)) = none)
    (hrow : table.find? owner lookup = none) :
    Fetched b table owner lookup t
      (.error (.notFound (Body.kind β) lookup), ⟨t.records, t.reads + 1⟩)
  | overflow {e : Entity β}
    (hfound : (found? t.records b.now owner lookup : Option (Entity β)) = none)
    (hrow : table.find? owner lookup = some e) (hend : ¬ b.now + b.ttl < clockEnd) :
    Fetched b table owner lookup t (.error .expiryOverflow, ⟨t.records, t.reads + 1⟩)
  | loaded {e : Entity β} {records : TimedMap ByteArray}
    (hfound : (found? t.records b.now owner lookup : Option (Entity β)) = none)
    (hrow : table.find? owner lookup = some e) (hend : b.now + b.ttl < clockEnd)
    (hpopulated : Populated b e t.records records) :
    Fetched b table owner lookup t (.ok e, ⟨records, t.reads + 1⟩)

/-- Every fetch goes one of the four ways.  The case splits are those of the fetch itself: the records
    first, then the table, then the clock. -/
theorem fetch_cases {b : Backing} (hup : b.down = []) (table : Table β) (owner : Owner)
    (lookup : Lookup) (t : Traffic) :
    Fetched b table owner lookup t ((fetch b table owner lookup).run t) := by
  have hcached := cached?_run (β := β) hup owner lookup t
  rw [fetch, run_bind_ok hcached]
  cases hfound : (found? t.records b.now owner lookup : Option (Entity β)) with
  | some e => exact .hit hfound
  | none =>
    simp only [run_bind_ok (load_run hup table owner lookup t)]
    cases hrow : table.find? owner lookup with
    | none => exact .missing hfound hrow
    | some e =>
      -- all writes of a fetch expire at the same time, so that the first one decides
      by_cases hend : b.now + b.ttl < clockEnd
      · obtain ⟨records, hrun, hpopulated⟩ := populate_ok hup hend e ⟨t.records, t.reads + 1⟩
        simp only [run_bind_ok hrun]
        exact .loaded hfound hrow hend hpopulated
      · simp only [run_bind_error (populate_overflow hup hend e ⟨t.records, t.reads + 1⟩)]
        exact .overflow hfound hrow hend

/-! ## Records that are backed -/

/-- The keys of the records of one kind. -/
def IsKeyOf (kind : EntityKind) (k : String) : Prop :=
  (∃ id owner name, k = objectKey kind id owner name) ∨
    ∃ owner lookup, k = pointerKey kind owner lookup

/-- Every record of a kind that is live at some time from `now` on is a record of a known entity. -/
def Backed (known : Entity β → Prop) (now : Nat) (records : TimedMap ByteArray) : Prop :=
  ∀ later, now ≤ later → ∀ k v, records.get? later k = some v → IsKeyOf (Body.kind β) k →
    ∃ e, known e ∧ (k, v) ∈ recordsOf e

/-- The records of an entity have keys of its kind. -/
theorem isKeyOf_of_mem {e : Entity β} {k : String} {v : ByteArray} (h : (k, v) ∈ recordsOf e) :
    IsKeyOf (Body.kind β) k := by
  simp only [recordsOf, List.mem_cons, Prod.mk.injEq, List.not_mem_nil, or_false] at h
  rcases h with ⟨rfl, -⟩ | ⟨rfl, -⟩ | ⟨rfl, -⟩
  · exact .inl ⟨_, _, _, rfl⟩
  · exact .inr ⟨_, _, rfl⟩
  · exact .inr ⟨_, _, rfl⟩

/-- The kind of a key can be read off it. -/
theorem IsKeyOf.kind_eq {kind kind' : EntityKind} {k : String} (h : IsKeyOf kind k)
    (h' : IsKeyOf kind' k) : kind = kind' := by
  rcases h with ⟨id, owner, name, rfl⟩ | ⟨owner, lookup, rfl⟩
  · rcases h' with ⟨_, _, _, heq⟩ | ⟨_, _, heq⟩
    · exact (objectKey_inj heq).1
    · exact absurd heq.symm pointerKey_ne_objectKey
  · rcases h' with ⟨_, _, _, heq⟩ | ⟨owner', lookup', heq⟩
    · exact absurd heq pointerKey_ne_objectKey
    · cases lookup with
      | id n =>
        cases lookup' with
        | id n' => exact (pointerKey_id_inj heq).1
        | name s' => exact absurd heq pointerKey_id_ne_name
      | name s =>
        cases lookup' with
        | id n' => exact absurd heq.symm pointerKey_id_ne_name
        | name s' => exact (pointerKey_name_inj heq).1

/-- An entity has no record under the keys of another kind. -/
theorem lookup_recordsOf_other {e : Entity β} {kind : EntityKind} {k : String}
    (hkey : IsKeyOf kind k) (hkind : Body.kind β ≠ kind) : (recordsOf e).lookup k = none := by
  cases hlookup : (recordsOf e).lookup k with
  | none => rfl
  | some w => exact absurd ((isKeyOf_of_mem (mem_of_lookup hlookup)).kind_eq hkey) hkind

/-- The record under an object key is the entity's own. -/
theorem written_of_mem {e e' : Entity β} {v : ByteArray} (h : (objectKeyOf e, v) ∈ recordsOf e') :
    v = written e' ∧ objectKeyOf e' = objectKeyOf e := by
  simp only [recordsOf, List.mem_cons, Prod.mk.injEq, List.not_mem_nil, or_false] at h
  rcases h with ⟨hkey, hv⟩ | ⟨hkey, -⟩ | ⟨hkey, -⟩
  · exact ⟨hv, hkey.symm⟩
  · exact absurd hkey.symm pointerKey_ne_objectKey
  · exact absurd hkey.symm pointerKey_ne_objectKey

/-- The record under a pointer key leads to the entity; a key by number says its number, and one by
    name its owner and its name. -/
theorem pointer_of_mem {e : Entity β} {owner : Owner} {lookup : Lookup} {v : ByteArray}
    (h : (pointerKey (Body.kind β) owner lookup, v) ∈ recordsOf e) :
    v = bytesOf (objectKeyOf e) ∧
      match lookup with
      | .id n => e.id = n
      | .name s => Body.owner e.body = owner ∧ Body.name e.body = s := by
  simp only [recordsOf, List.mem_cons, Prod.mk.injEq, List.not_mem_nil, or_false] at h
  rcases h with ⟨hkey, -⟩ | ⟨hkey, hv⟩ | ⟨hkey, hv⟩
  · exact absurd hkey pointerKey_ne_objectKey
  · refine ⟨hv, ?_⟩
    cases lookup with
    | id n => exact (pointerKey_id_inj hkey).2.symm
    | name s => exact absurd hkey.symm pointerKey_id_ne_name
  · refine ⟨hv, ?_⟩
    cases lookup with
    | id n => exact absurd hkey pointerKey_id_ne_name
    | name s => exact ⟨(pointerKey_name_inj hkey).2.1.symm, (pointerKey_name_inj hkey).2.2.symm⟩

/-- What answers a lookup is accepted for it. -/
theorem accepts_of_answers {e : Entity β} {owner : Owner} {lookup : Lookup}
    (h : e.answers owner lookup = true) : accepts owner lookup e = true := by
  cases lookup with
  | id n =>
    simp only [Entity.answers, Bool.and_eq_true] at h
    simp [accepts, h.2]
  | name s =>
    simp only [Entity.answers, Bool.and_eq_true] at h
    simp [accepts, h.1, h.2]

/-- The pointer that a lookup reads is one of an entity's records if the entity answers it. -/
theorem pointer_mem_recordsOf {e : Entity β} {owner : Owner} {lookup : Lookup}
    (h : e.answers owner lookup = true) :
    (pointerKey (Body.kind β) owner lookup, bytesOf (objectKeyOf e)) ∈ recordsOf e := by
  cases lookup with
  | id n =>
    simp only [Entity.answers, Bool.and_eq_true, beq_iff_eq] at h
    obtain ⟨rfl, rfl⟩ := h
    exact List.mem_cons_of_mem _ List.mem_cons_self
  | name s =>
    simp only [Entity.answers, Bool.and_eq_true, beq_iff_eq] at h
    obtain ⟨rfl, rfl⟩ := h
    exact List.mem_cons_of_mem _ (List.mem_cons_of_mem _ List.mem_cons_self)

/-- An entity that answers a lookup is found while its object and its pointer are live. -/
theorem found?_of_live [LawfulCached β] {e : Entity β} {owner : Owner} {lookup : Lookup}
    {records : TimedMap ByteArray} {now : Nat} (hanswers : e.answers owner lookup = true)
    (hpointer : records.get? now (pointerKey (Body.kind β) owner lookup) =
      some (bytesOf (objectKeyOf e)))
    (hobject : records.get? now (objectKeyOf e) = some (written e)) :
    found? records now owner lookup = some e := by
  simp only [found?, hpointer, Option.bind_eq_bind, Option.bind_some, textOf?_bytesOf, hobject,
    LawfulCached.entity?_written, Option.filter_some, accepts_of_answers hanswers, if_true]

namespace Backed

variable {known known' : Entity β → Prop} {now : Nat} {records records' : TimedMap ByteArray}

/-- What backed records have for a lookup is a known entity that answers it, and both of its records
    that led there are live. -/
theorem found [LawfulCached β] (h : Backed known now records) {owner : Owner} {lookup : Lookup}
    {e : Entity β} (hfound : found? records now owner lookup = some e) :
    known e ∧ e.answers owner lookup = true ∧
      records.get? now (pointerKey (Body.kind β) owner lookup) = some (bytesOf (objectKeyOf e)) ∧
      records.get? now (objectKeyOf e) = some (written e) := by
  simp only [found?, Option.bind_eq_bind, Option.bind_eq_some_iff, Option.filter_eq_some_iff]
    at hfound
  obtain ⟨pointer, hpointer, key, hkey, bytes, hobject, hentity, haccepts⟩ := hfound
  -- the pointer is a record of some entity, and leads to the key of its object
  obtain ⟨e₁, -, hmem₁⟩ := h now (Nat.le_refl now) _ _ hpointer (.inr ⟨_, _, rfl⟩)
  obtain ⟨rfl, hlookup⟩ := pointer_of_mem hmem₁
  rw [textOf?_bytesOf, Option.some.injEq] at hkey
  subst hkey
  -- under that key stands an entity of the same number, which is accepted only for its owner
  obtain ⟨e₂, hknown, hmem₂⟩ := h now (Nat.le_refl now) _ _ hobject (.inl ⟨_, _, _, rfl⟩)
  obtain ⟨rfl, hkeys⟩ := written_of_mem hmem₂
  rw [LawfulCached.entity?_written, Option.some.injEq] at hentity
  subst hentity
  obtain ⟨-, hid, -, -⟩ := objectKey_inj hkeys
  refine ⟨hknown, ?_, hkeys ▸ hpointer, hkeys ▸ hobject⟩
  cases lookup with
  | id n => simpa [Entity.answers, accepts, hid, hlookup] using haccepts
  | name s => simpa [Entity.answers, accepts, and_comm] using haccepts

theorem later (h : Backed known now records) {now' : Nat} (hle : now ≤ now') :
    Backed known now' records :=
  fun later hlater => h later (Nat.le_trans hle hlater)

/-- The more is known, the more is backed. -/
theorem mono (h : Backed known now records) (hknown : ∀ e, known e → known' e) :
    Backed known' now records := by
  intro later hlater k v hget hkey
  obtain ⟨e, he, hmem⟩ := h later hlater k v hget hkey
  exact ⟨e, hknown e he, hmem⟩

theorem empty : Backed known now .empty := by
  intro later _ k v hget
  rw [TimedMap.get?_empty] at hget
  cases hget

/-- Records stay backed when those of a known entity are written. -/
theorem populated (h : Backed known now records) {b : Backing} (hnow : b.now = now) {e : Entity β}
    (he : known e) (hpopulated : Populated b e records records') : Backed known now records' := by
  subst hnow
  intro later hlater k v hget hkey
  rw [hpopulated later hlater k] at hget
  cases hlookup : (recordsOf e).lookup k with
  | none =>
    rw [hlookup] at hget
    exact h later hlater k v hget hkey
  | some w =>
    rw [hlookup] at hget
    by_cases hlive : later < b.now + b.ttl
    · simp only [hlive, if_true, Option.some.injEq] at hget
      subst hget
      exact ⟨e, he, mem_of_lookup hlookup⟩
    · simp [hlive] at hget

/-- Records of one kind stay backed when those of an entity of another kind are written. -/
theorem populated_other (h : Backed known now records) {b : Backing} (hnow : b.now = now)
    {e : Entity γ} (hkind : Body.kind γ ≠ Body.kind β)
    (hpopulated : Populated b e records records') : Backed known now records' := by
  subst hnow
  intro later hlater k v hget hkey
  rw [hpopulated later hlater k, lookup_recordsOf_other hkey hkind] at hget
  exact h later hlater k v hget hkey

end Backed

/-! ## A fetch over backed records -/

section BackedFetch

variable {b : Backing} (hup : b.down = []) {table : Table β} {t : Traffic}
include hup

/-- Over backed records a fetch leaves backed records, and what it gives is known and answers. -/
theorem fetch_backed [LawfulCached β] {known : Entity β → Prop} (h : Backed known b.now t.records)
    (hrows : ∀ e ∈ table.rows, known e) (owner : Owner) (lookup : Lookup) :
    Backed known b.now ((fetch b table owner lookup).run t).2.records ∧
      ∀ e, ((fetch b table owner lookup).run t).1 = .ok e →
        known e ∧ e.answers owner lookup = true := by
  have hcases := fetch_cases hup table owner lookup t
  generalize (fetch b table owner lookup).run t = r at hcases
  cases hcases with
  | hit hfound =>
    obtain ⟨hknown, hanswers, -, -⟩ := h.found hfound
    refine ⟨h, fun e he => ?_⟩
    cases he
    exact ⟨hknown, hanswers⟩
  | missing _ _ => exact ⟨h, fun e he => by cases he⟩
  | overflow _ _ _ => exact ⟨h, fun e he => by cases he⟩
  | loaded _ hrow _ hpopulated =>
    obtain ⟨hmem, hanswers⟩ := Table.answers_of_find? hrow
    refine ⟨h.populated rfl (hrows _ hmem) hpopulated, fun e he => ?_⟩
    cases he
    exact ⟨hrows _ hmem, hanswers⟩

/-- A fetch of one kind keeps the records of another kind backed. -/
theorem fetch_backed_other {known : Entity γ → Prop} (hkind : Body.kind β ≠ Body.kind γ)
    (h : Backed known b.now t.records) (owner : Owner) (lookup : Lookup) :
    Backed known b.now ((fetch b table owner lookup).run t).2.records := by
  have hcases := fetch_cases hup table owner lookup t
  generalize (fetch b table owner lookup).run t = r at hcases
  cases hcases with
  | hit _ | missing _ _ | overflow _ _ _ => exact h
  | loaded _ _ _ hpopulated => exact h.populated_other rfl hkind hpopulated

end BackedFetch

end Cache

end QueryCatalog
