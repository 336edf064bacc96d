/-
  A map whose records expire.

  Time is counted in milliseconds.  A record written at `now` to live for `ttl` is there while the
  clock shows less than `now + ttl`.  Expired records are no longer given but stay in the map until
  they are overwritten or cleared away; the map clears them away itself whenever a write leaves a
  multiple of 256 records.  A record that would expire beyond the end of the clock is not written.

  The map is looked at through `get?`: `get?_cleared` says that clearing is not seen by any later
  look, and `get?_set?` what a write changes.
-/

namespace QueryCatalog

/-- A value and the time from which on it is no longer there. -/
structure Timed (ν : Type) where
  value : ν
  expires : Nat
deriving DecidableEq, Repr, Inhabited

/-- Whether the value is there no longer. -/
def Timed.isExpired {ν : Type} (r : Timed ν) (now : Nat) : Bool := r.expires ≤ now

/-- The times of the clock are below this one: 2^63 seconds. -/
def clockEnd : Nat := 0x8000000000000000 * 1000

/-- Keys with their records, each key once. -/
structure TimedMap (ν : Type) where
  records : List (String × Timed ν)
  distinct : (records.map Prod.fst).Nodup

namespace TimedMap

variable {ν : Type}

/-- A map that holds nothing. -/
def empty : TimedMap ν := ⟨[], List.nodup_nil⟩

instance : Inhabited (TimedMap ν) := ⟨empty⟩

/-- The number of records, expired ones included. -/
def size (m : TimedMap ν) : Nat := m.records.length

/-- The record of a key, expired or not. -/
def find? (m : TimedMap ν) (key : String) : Option (String × Timed ν) :=
  m.records.find? fun r => r.1 == key

/-- The value of a key, unless it is absent or expired. -/
def get? (m : TimedMap ν) (now : Nat) (key : String) : Option ν :=
  match m.find? key with
  | some (_, r) => if r.isExpired now then none else some r.value
  | none => none

/-! ## Writing -/

/-- The records with one of them put in, at its old place if the key has one. -/
def put (key : String) (record : Timed ν) : List (String × Timed ν) → List (String × Timed ν)
  | [] => [(key, record)]
  | r :: rest => if r.1 == key then (key, record) :: rest else r :: put key record rest

/-- A write adds its own key at most. -/
theorem mem_keys_put {key k : String} {record : Timed ν} {rs : List (String × Timed ν)}
    (h : k ∈ (put key record rs).map Prod.fst) : k = key ∨ k ∈ rs.map Prod.fst := by
  induction rs with
  | nil => simpa [put] using h
  | cons r rest ih =>
    by_cases hr : r.1 = key
    · simp only [put, hr, beq_self_eq_true, if_true, List.map_cons, List.mem_cons] at h ⊢
      rcases h with h | h
      · exact .inl h
      · exact .inr (.inr h)
    · simp only [put, beq_eq_false_iff_ne.2 hr, Bool.false_eq_true, if_false, List.map_cons,
        List.mem_cons] at h ⊢
      rcases h with h | h
      · exact .inr (.inl h)
      · rcases ih h with h | h
        · exact .inl h
        · exact .inr (.inr h)

/-- No key is written twice. -/
theorem nodup_put (key : String) (record : Timed ν) {rs : List (String × Timed ν)}
    (h : (rs.map Prod.fst).Nodup) : ((put key record rs).map Prod.fst).Nodup := by
  induction rs with
  | nil => simp [put]
  | cons r rest ih =>
    simp only [List.map_cons, List.nodup_cons] at h
    by_cases hr : r.1 = key
    · simpa [put, hr, hr ▸ h.1] using h.2
    · simp only [put, beq_eq_false_iff_ne.2 hr, Bool.false_eq_true, if_false, List.map_cons,
        List.nodup_cons]
      refine ⟨fun hm => ?_, ih h.2⟩
      rcases mem_keys_put hm with hk | hk
      · exact hr hk
      · exact h.1 hk

/-- What a key finds after a record has been put in. -/
theorem find?_put (key k : String) (record : Timed ν) (rs : List (String × Timed ν)) :
    (put key record rs).find? (fun r => r.1 == k) =
      if key = k then some (key, record) else rs.find? fun r => r.1 == k := by
  induction rs with
  | nil => by_cases hk : key = k <;> simp [put, hk]
  | cons r rest ih =>
    by_cases hr : r.1 = key
    · by_cases hk : key = k <;> simp [put, hr, hk]
    · simp only [put, beq_eq_false_iff_ne.2 hr, Bool.false_eq_true, if_false, List.find?_cons, ih]
      by_cases hk : key = k
      · subst hk
        simp [beq_eq_false_iff_ne.2 hr]
      · simp [hk]

/-! ## Clearing -/

/-- The map without the expired records. -/
def cleared (m : TimedMap ν) (now : Nat) : TimedMap ν :=
  ⟨m.records.filter fun r => !r.2.isExpired now,
    m.distinct.sublist (List.Sublist.map _ List.filter_sublist)⟩

/-- How many records a write leaves when the map clears itself: a multiple of this number. -/
def clearingStep : Nat := 256

/-- Writes a record, unless it would expire beyond the end of the clock. -/
def set? (m : TimedMap ν) (now : Nat) (key : String) (value : ν) (ttl : Nat) :
    Option (TimedMap ν) :=
  if now + ttl < clockEnd then
    let written : TimedMap ν := ⟨put key ⟨value, now + ttl⟩ m.records, nodup_put _ _ m.distinct⟩
    some (if written.size % clearingStep = 0 then written.cleared now else written)
  else none

/-! ## What a look sees -/

theorem get?_empty (now : Nat) (key : String) : (empty : TimedMap ν).get? now key = none := rfl

/-- A key that is in no record finds none. -/
theorem find?_eq_none_of_not_mem {key : String} {rs : List (String × Timed ν)}
    (h : key ∉ rs.map Prod.fst) : (rs.find? fun r => r.1 == key) = none := by
  rw [List.find?_eq_none]
  intro r hr he
  exact h (List.mem_map.2 ⟨r, hr, by simpa using he⟩)

/-- What a key finds among the records that are left: its record, unless that has expired. -/
theorem find?_filter (now : Nat) (key : String) {rs : List (String × Timed ν)}
    (h : (rs.map Prod.fst).Nodup) :
    ((rs.filter fun r => !r.2.isExpired now).find? fun r => r.1 == key) =
      (rs.find? fun r => r.1 == key).filter fun r => !r.2.isExpired now := by
  induction rs with
  | nil => rfl
  | cons r rest ih =>
    simp only [List.map_cons, List.nodup_cons] at h
    by_cases hr : r.1 = key
    · cases he : r.2.isExpired now
      · simp [Option.filter, he, hr]
      · have hn := find?_eq_none_of_not_mem (hr ▸ h.1)
        simp [Option.filter, he, hr, ih h.2, hn]
    · cases he : r.2.isExpired now <;> simp [he, hr, ih h.2]

/-- Clearing is not seen by any look at that time or later. -/
theorem get?_cleared (m : TimedMap ν) {now later : Nat} (h : now ≤ later) (key : String) :
    (m.cleared now).get? later key = m.get? later key := by
  unfold get? find? cleared
  simp only [find?_filter now key m.distinct]
  cases hf : m.records.find? fun r => r.1 == key with
  | none => rfl
  | some r =>
    cases he : r.2.isExpired now
    · simp [Option.filter, he]
    · have hl : r.2.isExpired later := by
        simp only [Timed.isExpired, decide_eq_true_eq] at he ⊢
        omega
      simp [Option.filter, he, hl]

/-- Behind a record that has been put in, its key gives the value for its life, and all other keys give
    what they gave. -/
theorem get?_put (m : TimedMap ν) (key k : String) (value : ν) (now ttl later : Nat)
    (distinct : ((put key ⟨value, now + ttl⟩ m.records).map Prod.fst).Nodup) :
    (⟨put key ⟨value, now + ttl⟩ m.records, distinct⟩ : TimedMap ν).get? later k =
      if key = k then (if later < now + ttl then some value else none) else m.get? later k := by
  unfold get? find?
  simp only [find?_put]
  by_cases hk : key = k
  · by_cases he : later < now + ttl
    · have : ¬ now + ttl ≤ later := by omega
      simp [hk, he, Timed.isExpired, this]
    · have : now + ttl ≤ later := by omega
      simp [hk, he, Timed.isExpired, this]
  · simp [hk]

/-- After a write, its key gives the new value for its life, and all other keys give what they
    gave. -/
theorem get?_set? {m m' : TimedMap ν} {now later ttl : Nat} {key : String} {value : ν}
    (h : m.set? now key value ttl = some m') (hl : now ≤ later) (k : String) :
    m'.get? later k =
      if key = k then (if later < now + ttl then some value else none) else m.get? later k := by
  unfold set? at h
  split at h
  · simp only [Option.some.injEq] at h
    subst h
    split
    · rw [get?_cleared _ hl, get?_put]
    · rw [get?_put]
  · cases h

end TimedMap

end QueryCatalog
