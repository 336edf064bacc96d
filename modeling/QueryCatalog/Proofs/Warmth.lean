/-
  A loaded entity stays warm.

  Where an entity is loaded its three records are written, each to live for the same time, and any of
  them may be written over before that time is up: the pointer by name by whatever has the name next, and
  all three if the entity is loaded again.  What the records keep is said over the journal (`Kept`): for
  every lookup that an entity answers which was loaded less than a life ago, the records lead to the
  entity that was loaded last of those that answer it.

  A load writes under the keys of a lookup exactly if its entity answers the lookup
  (`Populated.leads_own`, `Populated.leads_other`).  A pointer by number does not say its owner, so that
  this rests on no number being given twice.
-/
import QueryCatalog.Proofs.Journal
import QueryCatalog.Proofs.OwnRecords
import QueryCatalog.Proofs.Staleness

namespace QueryCatalog

/-! ## Tables whose names pass on -/

namespace Table

variable {β : Type} [Body β] {t t' : Table β} {past : List (Entity β)}

/-- A table with its past, where of all entities that ever had an owner's name only the last one can
    be a row. -/
structure Succeeds (t : Table β) (past : List (Entity β)) : Prop extends t.Remembers past where
  last : ∀ e ∈ t.rows, ∀ e' ∈ past,
    e'.answers (Body.owner e.body) (.name (Body.name e.body)) = true → e'.id ≤ e.id

theorem Succeeds.empty : (Table.empty : Table β).Succeeds [] where
  toRemembers := .empty
  last _ h := absurd h List.not_mem_nil

/-- An added entity is above the whole past, and no row had its name. -/
theorem Succeeds.add (h : t.Succeeds past) {body : β} {e : Entity β}
    (hadd : t.add body = .ok (e, t')) : t'.Succeeds (past ++ [e]) where
  toRemembers := h.toRemembers.add hadd
  last := by
    have hadded := h.toRemembers.add hadd
    obtain ⟨hfree, rfl, hrows, hcurrent, -⟩ := add_ok hadd
    intro e₁ he₁ e₂ he₂ hname
    rw [hrows] at he₁
    rcases List.mem_append.mp he₁ with hold | hnew
    · rcases List.mem_append.mp he₂ with hold' | hnew'
      · exact h.last e₁ hold e₂ hold' hname
      · -- the name of the new entity would be that of a row
        rw [List.mem_singleton.mp hnew'] at hname
        simp only [Entity.answers, Bool.and_eq_true, beq_iff_eq] at hname
        have hmiss := List.find?_eq_none.mp hfree e₁ hold
        simp [hname.1, hname.2] at hmiss
    · rw [List.mem_singleton.mp hnew]
      obtain ⟨n, hn, hle⟩ := hadded.given e₂ he₂
      rw [hcurrent, Option.some.injEq] at hn
      exact hn ▸ hle

/-- Fewer rows are still the last ones of their names. -/
theorem Succeeds.remove (h : t.Succeeds past) (owner : Owner) (id : EntityId) :
    (t.remove owner id).2.Succeeds past where
  toRemembers := h.toRemembers.remove owner id
  last := by
    intro e he
    rw [Table.remove] at he
    split at he
    · exact h.last e (List.mem_of_mem_eraseP he)
    · exact h.last e he

/-- A step extends the past. -/
theorem Succeeds.moved (h : t.Succeeds past) (hmoved : t.Moved t') :
    ∃ more, t'.Succeeds (past ++ more) := by
  cases hmoved with
  | kept => exact ⟨[], (List.append_nil past).symm ▸ h⟩
  | @added body e _ hadd => exact ⟨[e], h.add hadd⟩
  | removed owner id => exact ⟨[], (List.append_nil past).symm ▸ h.remove owner id⟩

/-- Of the entities of the past that answer a lookup, a row that does has the greatest number. -/
theorem Succeeds.le_of_answers (h : t.Succeeds past) {e e' : Entity β} (he : e ∈ t.rows)
    (he' : e' ∈ past) {owner : Owner} {lookup : Lookup} (hanswers : e.answers owner lookup = true)
    (hanswers' : e'.answers owner lookup = true) : e'.id ≤ e.id := by
  cases lookup with
  | id n =>
    simp only [Entity.answers, Bool.and_eq_true, beq_iff_eq] at hanswers hanswers'
    rw [hanswers.1, hanswers'.1]
    exact UInt64.le_refl n
  | name s =>
    simp only [Entity.answers, Bool.and_eq_true, beq_iff_eq] at hanswers
    obtain ⟨rfl, rfl⟩ := hanswers
    exact h.last e he e' he' hanswers'

end Table

namespace Cache

variable {β γ : Type} [Cached β] [Cached γ]

/-! ## Records that lead to an entity -/

/-- The records lead from a lookup to an entity that answers it. -/
structure Leads (records : TimedMap ByteArray) (now : Nat) (owner : Owner) (lookup : Lookup)
    (e : Entity β) : Prop where
  answers : e.answers owner lookup = true
  pointer : records.get? now (pointerKey (Body.kind β) owner lookup) = some (bytesOf (objectKeyOf e))
  object : records.get? now (objectKeyOf e) = some (written e)

/-- Where the records lead, they are followed. -/
theorem Leads.found [LawfulCached β] {records : TimedMap ByteArray} {now : Nat} {owner : Owner}
    {lookup : Lookup} {e : Entity β} (h : Leads records now owner lookup e) :
    found? records now owner lookup = some e :=
  found?_of_live h.answers h.pointer h.object

/-- What the records have is given, and everything is left as it is. -/
theorem fetch_of_found? {b : Backing} (hup : b.down = []) {t : Traffic} {owner : Owner}
    {lookup : Lookup} {e : Entity β} (hfound : found? t.records b.now owner lookup = some e)
    (table : Table β) : (fetch b table owner lookup).run t = (.ok e, t) := by
  have hcases := fetch_cases hup table owner lookup t
  generalize (fetch b table owner lookup).run t = r at hcases
  cases hcases with
  | hit hfound' =>
    rw [hfound, Option.some.injEq] at hfound'
    rw [hfound']
  | missing hnone _ | overflow hnone _ _ | loaded hnone _ _ _ =>
    rw [hfound] at hnone
    cases hnone

/-- What is found is what the records lead to. -/
theorem Backed.leads [LawfulCached β] {known : Entity β → Prop} {now : Nat}
    {records : TimedMap ByteArray} (h : Backed known now records) {owner : Owner} {lookup : Lookup}
    {e : Entity β} (hfound : found? records now owner lookup = some e) :
    known e ∧ Leads records now owner lookup e := by
  obtain ⟨hknown, hanswers, hpointer, hobject⟩ := h.found hfound
  exact ⟨hknown, hanswers, hpointer, hobject⟩

section Populated

variable {b : Backing} {e e' : Entity β} {before after : TimedMap ByteArray} {later : Nat}
  {owner : Owner} {lookup : Lookup}

/-- Each key of an entity's records is the key of one of them only. -/
theorem lookup_of_mem {k : String} {v : ByteArray} (h : (k, v) ∈ recordsOf e) :
    (recordsOf e).lookup k = some v := by
  rw [lookup_recordsOf]
  simp only [recordsOf, List.mem_cons, Prod.mk.injEq, List.not_mem_nil, or_false] at h
  rcases h with ⟨rfl, rfl⟩ | ⟨rfl, rfl⟩ | ⟨rfl, rfl⟩
  · rw [if_pos rfl]
  · have hobject : objectKeyOf e ≠ pointerKeyOf e (.id e.id) := fun h => pointerKey_ne_objectKey h.symm
    rw [if_neg hobject, if_pos rfl]
  · have hobject : objectKeyOf e ≠ pointerKeyOf e (.name (Body.name e.body)) :=
      fun h => pointerKey_ne_objectKey h.symm
    have hid : pointerKeyOf e (.id e.id) ≠ pointerKeyOf e (.name (Body.name e.body)) :=
      pointerKey_id_ne_name
    rw [if_neg hobject, if_neg hid, if_pos rfl]

/-- Until they expire, the records that were written are the ones that are read. -/
theorem Populated.get?_own (h : Populated b e before after) (hlater : b.now ≤ later)
    (hlive : later < b.now + b.ttl) {k : String} {v : ByteArray} (hmem : (k, v) ∈ recordsOf e) :
    after.get? later k = some v := by
  rw [h later hlater k, lookup_of_mem hmem]
  exact if_pos hlive

/-- Under any other key the same is read as before. -/
theorem Populated.get?_other (h : Populated b e before after) (hlater : b.now ≤ later) {k : String}
    (hmem : ∀ v, (k, v) ∉ recordsOf e) : after.get? later k = before.get? later k := by
  rw [h later hlater k]
  cases hlookup : (recordsOf e).lookup k with
  | none => rfl
  | some v => exact absurd (mem_of_lookup hlookup) (hmem v)

/-- Written records lead from every lookup that their entity answers. -/
theorem Populated.leads_own (h : Populated b e before after) (hlater : b.now ≤ later)
    (hlive : later < b.now + b.ttl) (hanswers : e.answers owner lookup = true) :
    Leads after later owner lookup e where
  answers := hanswers
  pointer := h.get?_own hlater hlive (pointer_mem_recordsOf hanswers)
  object := h.get?_own hlater hlive List.mem_cons_self

/-- From a lookup that the entity does not answer the records lead where they led before. -/
theorem Populated.leads_other (h : Populated b e before after) (hlater : b.now ≤ later)
    (hunique : e.id = e'.id → e = e') (hanswers : ¬ e.answers owner lookup = true)
    (hleads : Leads before later owner lookup e') : Leads after later owner lookup e' where
  answers := hleads.answers
  pointer := by
    rw [h.get?_other hlater, hleads.pointer]
    intro v hmem
    obtain ⟨-, hlookup⟩ := pointer_of_mem hmem
    have hanswers' := hleads.answers
    cases lookup with
    | id n =>
      -- only the number is in the key, but it is the number of both
      simp only [Entity.answers, Bool.and_eq_true, beq_iff_eq] at hanswers'
      exact hanswers (hunique (hlookup.trans hanswers'.1.symm) ▸ hleads.answers)
    | name s =>
      obtain ⟨howner, hname⟩ := hlookup
      apply hanswers
      simp [Entity.answers, howner, hname]
  object := by
    rw [h.get?_other hlater, hleads.object]
    intro v hmem
    have hid := (objectKeyOf_inj (written_of_mem hmem).2).1
    exact hanswers (hunique hid ▸ hleads.answers)

/-- Records of another kind lead where they led. -/
theorem Populated.leads_kind {e : Entity γ} (h : Populated b e before after) (hlater : b.now ≤ later)
    (hkind : Body.kind γ ≠ Body.kind β) (hleads : Leads before later owner lookup e') :
    Leads after later owner lookup e' where
  answers := hleads.answers
  pointer := by
    rw [h later hlater, lookup_recordsOf_other (.inr ⟨_, _, rfl⟩) hkind]
    exact hleads.pointer
  object := by
    have hkey : IsKeyOf (Body.kind β) (objectKeyOf e') := .inl ⟨_, _, _, rfl⟩
    rw [h later hlater, lookup_recordsOf_other hkey hkind]
    exact hleads.object

end Populated

/-! ## What the records keep of the journal -/

/-- The loads of one kind, as the table and the records of the cache keep them. -/
structure Kept (table : Table β) (ttl now : Nat) (loads : List (Load β))
    (records : TimedMap ByteArray) : Prop where
  /-- What was loaded was stored. -/
  known : ∃ past, table.Succeeds past ∧ ∀ load ∈ loads, load.entity ∈ past
  begun : ∀ load ∈ loads, load.time ≤ now
  /-- What answers a lookup was never loaded behind something newer that does. -/
  newest : ∀ load ∈ loads, ∀ owner lookup e, load.entity.answers owner lookup = true →
    latest? loads owner lookup = some e → load.entity.id ≤ e.id
  /-- Every live record is that of a load less than a life ago. -/
  dated : Dated (fun e time => ⟨time, e⟩ ∈ loads) ttl now records
  /-- For a life the records lead to what was loaded last. -/
  warm : ∀ load ∈ loads, ∀ later, now ≤ later → later < load.time + ttl → ∀ owner lookup,
    load.entity.answers owner lookup = true →
      ∃ e, latest? loads owner lookup = some e ∧ Leads records later owner lookup e

namespace Kept

variable {table table' : Table β} {ttl now : Nat} {loads : List (Load β)}
  {records records' : TimedMap ByteArray}

/-- Nothing was loaded yet. -/
theorem blank (hpast : table.Succeeds []) : Kept table ttl now [] .empty where
  known := ⟨[], hpast, fun _ h => absurd h List.not_mem_nil⟩
  begun _ h := absurd h List.not_mem_nil
  newest _ h := absurd h List.not_mem_nil
  dated := .empty
  warm _ h := absurd h List.not_mem_nil

/-- The clock may move on: what is kept is kept at all later times. -/
theorem later (h : Kept table ttl now loads records) {now' : Nat} (hle : now ≤ now') :
    Kept table ttl now' loads records where
  known := h.known
  begun load hload := Nat.le_trans (h.begun load hload) hle
  newest := h.newest
  dated := h.dated.later hle
  warm load hload later hlater := h.warm load hload later (Nat.le_trans hle hlater)

/-- Whatever becomes of the rows, what was loaded stays. -/
theorem moved (h : Kept table ttl now loads records) (hmoved : table.Moved table') :
    Kept table' ttl now loads records where
  known := by
    obtain ⟨past, hpast, hloads⟩ := h.known
    obtain ⟨more, hmore⟩ := hpast.moved hmoved
    exact ⟨past ++ more, hmore, fun load hload => List.mem_append_left more (hloads load hload)⟩
  begun := h.begun
  newest := h.newest
  dated := h.dated
  warm := h.warm

/-- Records that look the same from now on keep the same. -/
theorem congr (h : Kept table ttl now loads records)
    (hrecords : ∀ later, now ≤ later → ∀ k, records'.get? later k = records.get? later k) :
    Kept table ttl now loads records' where
  known := h.known
  begun := h.begun
  newest := h.newest
  dated := by
    intro later hlater k v hget
    rw [hrecords later hlater] at hget
    exact h.dated later hlater k v hget
  warm := by
    intro load hload later hlater hlive owner lookup hanswers
    obtain ⟨e, hlatest, hleads⟩ := h.warm load hload later hlater hlive owner lookup hanswers
    refine ⟨e, hlatest, hleads.answers, ?_, ?_⟩
    · rw [hrecords later hlater]
      exact hleads.pointer
    · rw [hrecords later hlater]
      exact hleads.object

/-- A load is kept: it is the last that answers its lookups, and leaves all others alone. -/
theorem populated {b : Backing} (h : Kept table b.ttl b.now loads records) {e : Entity β}
    (he : e ∈ table.rows) (hpopulated : Populated b e records records') :
    Kept table b.ttl b.now (⟨b.now, e⟩ :: loads) records' := by
  obtain ⟨past, hpast, hloads⟩ := h.known
  have hknown : ∀ load ∈ (⟨b.now, e⟩ : Load β) :: loads, load.entity ∈ past :=
    List.forall_mem_cons.mpr ⟨hpast.kept.subset he, hloads⟩
  have hbegun : ∀ load ∈ (⟨b.now, e⟩ : Load β) :: loads, load.time ≤ b.now :=
    List.forall_mem_cons.mpr ⟨Nat.le_refl b.now, h.begun⟩
  refine ⟨⟨past, hpast, hknown⟩, hbegun, ?_, ?_, ?_⟩
  · -- what was loaded just now is a row, and so the newest of its name
    intro load hload owner lookup e' hanswers hlatest
    rw [latest?_cons] at hlatest
    by_cases hnew : e.answers owner lookup = true
    · rw [if_pos hnew, Option.some.injEq] at hlatest
      subst hlatest
      exact hpast.le_of_answers he (hknown load hload) hnew hanswers
    · rw [if_neg hnew] at hlatest
      rcases List.mem_cons.mp hload with rfl | hold
      · exact absurd hanswers hnew
      · exact h.newest load hold owner lookup e' hanswers hlatest
  · have hdated := h.dated.mono fun _ _ hmem => List.mem_cons_of_mem (⟨b.now, e⟩ : Load β) hmem
    exact hdated.populated List.mem_cons_self hpopulated
  · intro load hload later hlater hlive owner lookup hanswers
    rw [latest?_cons]
    by_cases hnew : e.answers owner lookup = true
    · have hbefore := hbegun load hload
      rw [if_pos hnew]
      exact ⟨e, rfl, hpopulated.leads_own hlater (by omega) hnew⟩
    · rw [if_neg hnew]
      rcases List.mem_cons.mp hload with rfl | hold
      · exact absurd hanswers hnew
      · -- the new records do not touch those of a lookup that the entity does not answer
        obtain ⟨e', hlatest, hleads⟩ := h.warm load hold later hlater hlive owner lookup hanswers
        obtain ⟨⟨load', hload', rfl⟩, -⟩ := answers_of_latest? hlatest
        have hunique := hpast.eq_of_id_eq (hpast.kept.subset he) (hloads load' hload')
        exact ⟨load'.entity, hlatest, hpopulated.leads_other hlater hunique hnew hleads⟩

/-- A load of another kind is not noticed. -/
theorem populated_other {b : Backing} (h : Kept table b.ttl b.now loads records) {e : Entity γ}
    (hkind : Body.kind γ ≠ Body.kind β) (hpopulated : Populated b e records records') :
    Kept table b.ttl b.now loads records' where
  known := h.known
  begun := h.begun
  newest := h.newest
  dated := h.dated.populated_other hkind hpopulated
  warm := by
    intro load hload later hlater hlive owner lookup hanswers
    obtain ⟨e', hlatest, hleads⟩ := h.warm load hload later hlater hlive owner lookup hanswers
    exact ⟨e', hlatest, hpopulated.leads_kind hlater hkind hleads⟩

section Fetch

variable {b : Backing} (hup : b.down = []) {t : Traffic} (owner : Owner) (lookup : Lookup)
include hup

/-- A fetch keeps the loads, with its own entered. -/
theorem fetch (h : Kept table b.ttl b.now loads t.records) :
    Kept table b.ttl b.now
      (entered b.now t loads ((Cache.fetch b table owner lookup).run t))
      ((Cache.fetch b table owner lookup).run t).2.records := by
  have hcases := fetch_cases hup table owner lookup t
  generalize (Cache.fetch b table owner lookup).run t = r at hcases
  cases hcases with
  | hit _ =>
    rw [entered, if_neg (Nat.lt_irrefl _)]
    exact h
  | missing _ _ | overflow _ _ _ => exact h
  | loaded _ hrow _ hpopulated =>
    obtain ⟨hmem, -⟩ := Table.answers_of_find? hrow
    rw [entered, if_pos (Nat.lt_succ_self _)]
    exact h.populated hmem hpopulated

/-- A fetch from the other table leaves what is kept of this one. -/
theorem fetch_other {other : Table γ} (hkind : Body.kind γ ≠ Body.kind β)
    (h : Kept table b.ttl b.now loads t.records) :
    Kept table b.ttl b.now loads ((Cache.fetch b other owner lookup).run t).2.records := by
  have hcases := fetch_cases hup other owner lookup t
  generalize (Cache.fetch b other owner lookup).run t = r at hcases
  cases hcases with
  | hit _ | missing _ _ | overflow _ _ _ => exact h
  | loaded _ _ _ hpopulated => exact h.populated_other hkind hpopulated

end Fetch

/-- What the records have for a lookup is what was loaded last for it, less than a life ago. -/
theorem latest?_of_found [LawfulCached β] (h : Kept table ttl now loads records) {owner : Owner}
    {lookup : Lookup} {e : Entity β} (hfound : found? records now owner lookup = some e) :
    latest? loads owner lookup = some e ∧
      ∃ load ∈ loads, load.entity = e ∧ now < load.time + ttl := by
  obtain ⟨⟨time, hload, hlive⟩, hleads⟩ := h.dated.backed.leads hfound
  obtain ⟨e', hlatest, hleads'⟩ :=
    h.warm ⟨time, e⟩ hload now (Nat.le_refl now) hlive owner lookup hleads.answers
  have hfound' := hleads'.found
  rw [hfound, Option.some.injEq] at hfound'
  exact ⟨hfound' ▸ hlatest, ⟨time, e⟩, hload, rfl, hlive⟩

/-- Every lookup that was answered by a load less than a life ago gives what was loaded last for it, and
    the store is not asked. -/
theorem fetch_warm [LawfulCached β] {b : Backing} (hup : b.down = []) {t : Traffic}
    (h : Kept table b.ttl b.now loads t.records) {load : Load β} (hload : load ∈ loads)
    (hlive : b.now < load.time + b.ttl) {owner : Owner} {lookup : Lookup}
    (hanswers : load.entity.answers owner lookup = true) :
    ∃ e, latest? loads owner lookup = some e ∧
      (Cache.fetch b table owner lookup).run t = (.ok e, t) := by
  obtain ⟨e, hlatest, hleads⟩ := h.warm load hload b.now (Nat.le_refl _) hlive owner lookup hanswers
  exact ⟨e, hlatest, fetch_of_found? hup hleads.found table⟩

/-- What was loaded last of a number is the only entity that has it. -/
theorem latest?_id (h : Kept table ttl now loads records) {load : Load β} (hload : load ∈ loads)
    {owner : Owner} {e : Entity β} (hlatest : latest? loads owner (.id load.entity.id) = some e) :
    e = load.entity := by
  obtain ⟨past, hpast, hloads⟩ := h.known
  obtain ⟨⟨load', hload', rfl⟩, hanswers⟩ := answers_of_latest? hlatest
  simp only [Entity.answers, Bool.and_eq_true, beq_iff_eq] at hanswers
  exact hpast.eq_of_id_eq (hloads load' hload') (hloads load hload) hanswers.1

end Kept

end Cache

/-! ## Along a history -/

namespace Catalog

/-- The journal of all that was loaded on the way to a catalog, as its tables and its cache keep it. -/
structure Keeps (c : Catalog) (n : Cache.Noted) : Prop where
  up : c.down = []
  aliases : Cache.Kept c.store.aliases c.settings.ttl c.now n.journal.aliases n.traffic.records
  queries : Cache.Kept c.store.queries c.settings.ttl c.now n.journal.queries n.traffic.records

namespace Keeps

variable {c : Catalog} {n n' : Cache.Noted}

/-- Noted fetches are kept. -/
theorem walked {owner : Owner} (h : c.Keeps n) (hwalk : Cache.NotedWalk c.backing owner n n') :
    c.Keeps n' := by
  have hup : c.backing.down = [] := h.up
  induction hwalk with
  | refl => exact h
  | aliased _ lookup ih =>
    simp only [Cache.notedLookups, Cache.noting_run]
    exact ⟨h.up, ih.aliases.fetch (b := c.backing) hup owner lookup,
      ih.queries.fetch_other (b := c.backing) hup owner lookup (by decide)⟩
  | query _ lookup ih =>
    simp only [Cache.notedLookups, Cache.noting_run]
    exact ⟨h.up, ih.aliases.fetch_other (b := c.backing) hup owner lookup (by decide),
      ih.queries.fetch (b := c.backing) hup owner lookup⟩

/-- What a request does beside its fetches is to move a table. -/
theorem effect {c' : Catalog} {owner : Owner} {deletes : Bool} (h : c.Keeps n)
    (heffect : Effect owner deletes c c') : c'.Keeps n := by
  have hup : c'.down = c.down := by cases heffect <;> rfl
  refine ⟨hup.trans h.up, ?_, ?_⟩
  · rw [heffect.settings_eq, heffect.now_eq]
    exact h.aliases.moved heffect.aliases_moved
  · rw [heffect.settings_eq, heffect.now_eq]
    exact h.queries.moved heffect.queries_moved

end Keeps

end Catalog

/-- Every event keeps the journal: a request walks its fetches one by one, and then moves a table at
    most. -/
theorem Observed.keeps_after {o : Observed} (h : o.catalog.Keeps o.noted) (event : Event) :
    (o.after event).catalog.Keeps (o.after event).noted := by
  cases event with
  | step step =>
    cases step with
    | advance milliseconds =>
      exact ⟨h.up, h.aliases.later (Nat.le_add_right _ _), h.queries.later (Nat.le_add_right _ _)⟩
    | request owner r =>
      obtain ⟨htraffic, hwalk⟩ := Observed.walk_noted h.up owner r
      have hkeeps := (h.walked hwalk).effect (Catalog.perform_effect h.up owner r)
      -- the journal is that of the noted walk, and the traffic is the same
      show (o.catalog.after (.request owner r)).Keeps
        ⟨(o.catalog.after (.request owner r)).traffic, (o.walked owner r).journal⟩
      rw [← htraffic]
      exact hkeeps
  | clearing =>
    have hsame : ∀ later, o.catalog.now ≤ later → ∀ k,
        (o.catalog.traffic.records.cleared o.catalog.now).get? later k =
          o.catalog.traffic.records.get? later k :=
      fun later hlater k => TimedMap.get?_cleared _ hlater k
    exact ⟨h.up, h.aliases.congr hsame, h.queries.congr hsame⟩

namespace Catalog

/-- Whatever happens to a catalog, its journal is kept. -/
theorem observed_keeps (settings : Settings) (schema : Schema) (events : List Event) :
    (observed settings schema events).catalog.Keeps (observed settings schema events).noted := by
  induction events using List.reverseRecOn with
  | nil => exact ⟨rfl, .blank .empty, .blank .empty⟩
  | append_singleton events event ih =>
    rw [observed_concat]
    exact Observed.keeps_after ih event

theorem observed_settings (settings : Settings) (schema : Schema) (events : List Event) :
    (observed settings schema events).catalog.settings = settings := by
  induction events using List.reverseRecOn with
  | nil => rfl
  | append_singleton events event ih =>
    have hup := (observed_keeps settings schema events).up
    rw [observed_concat]
    cases event with
    | clearing => exact ih
    | step step =>
      cases step with
      | advance milliseconds => exact ih
      | request owner r => exact (perform_effect hup owner r).settings_eq.trans ih

/-- What a catalog gives for an entity that it has in its cache: for its number the entity, and for its
    name the one that was loaded last of those that had it.  The catalog is left as it is, so that the
    store was not asked. -/
structure Warm {β : Type} [Body β] (fetch : Owner → Lookup → Action (Entity β)) (c : Catalog)
    (loads : List (Cache.Load β)) (e : Entity β) : Prop where
  byId : (fetch (Body.owner e.body) (.id e.id)).run c = (.ok e, c)
  byName : ∃ e', Cache.latest? loads (Body.owner e.body) (.name (Body.name e.body)) = some e' ∧
    (fetch (Body.owner e.body) (.name (Body.name e.body))).run c = (.ok e', c)

/-- The action fetches from a table, through the cache. -/
def FetchesFrom {β : Type} [Cache.Cached β] (fetch : Owner → Lookup → Action (Entity β))
    (table : Store → Table β) : Prop :=
  ∀ (c : Catalog) (owner : Owner) (lookup : Lookup),
    (fetch owner lookup).run c =
      (((Cache.fetch c.backing (table c.store) owner lookup).run c.traffic).1,
        { c with traffic := ((Cache.fetch c.backing (table c.store) owner lookup).run c.traffic).2 })

theorem fetchAlias_from : FetchesFrom fetchAlias Store.aliases := by
  intro c owner lookup
  rw [fetchAlias, resolving, fetching_run]
  rfl

theorem fetchQuery_from : FetchesFrom fetchQuery Store.queries := by
  intro c owner lookup
  rw [fetchQuery, resolving, fetching_run]
  rfl

/-- What the records keep of a load that is still alive is what a fetch then gives. -/
theorem warm_of_kept {β : Type} [Cache.Cached β] [Cache.LawfulCached β]
    {fetch : Owner → Lookup → Action (Entity β)} {table : Store → Table β}
    (hfetch : FetchesFrom fetch table) {c : Catalog} (hup : c.down = [])
    {loads : List (Cache.Load β)}
    (h : Cache.Kept (table c.store) c.settings.ttl c.now loads c.traffic.records)
    {load : Cache.Load β} (hload : load ∈ loads) (hlive : c.now < load.time + c.settings.ttl) :
    Warm fetch c loads load.entity where
  byId := by
    obtain ⟨e, hlatest, hrun⟩ :=
      h.fetch_warm (b := c.backing) hup hload hlive load.entity.answers_id
    rw [h.latest?_id hload hlatest] at hrun
    rw [hfetch, hrun]
  byName := by
    obtain ⟨e, hlatest, hrun⟩ :=
      h.fetch_warm (b := c.backing) hup hload hlive load.entity.answers_name
    exact ⟨e, hlatest, by rw [hfetch, hrun]⟩

/-- What is given without the store being asked was loaded before, less than a life ago. -/
theorem loaded_of_unasked {β : Type} [Cache.Cached β] [Cache.LawfulCached β]
    {fetch : Owner → Lookup → Action (Entity β)} {table : Store → Table β}
    (hfetch : FetchesFrom fetch table) {c : Catalog} (hup : c.down = [])
    {loads : List (Cache.Load β)}
    (h : Cache.Kept (table c.store) c.settings.ttl c.now loads c.traffic.records)
    {owner : Owner} {lookup : Lookup} {e : Entity β} (hrun : (fetch owner lookup).run c = (.ok e, c)) :
    ∃ load ∈ loads, load.entity = e ∧ c.now < load.time + c.settings.ttl := by
  have hcases := Cache.fetch_cases (b := c.backing) hup (table c.store) owner lookup c.traffic
  rw [hfetch] at hrun
  generalize (Cache.fetch c.backing (table c.store) owner lookup).run c.traffic = r at hcases hrun
  cases hcases with
  | hit hfound =>
    cases Except.ok.inj (congrArg Prod.fst hrun)
    exact (h.latest?_of_found hfound).2
  | missing _ _ | overflow _ _ _ => cases congrArg Prod.fst hrun
  | loaded _ _ _ _ =>
    -- the lookup in the store was counted
    have hreads : c.traffic.reads + 1 = c.traffic.reads :=
      congrArg (fun r => r.2.traffic.reads) hrun
    omega

/-- How a catalog stands to what was loaded: for a life of records it is warm, and nothing else is given
    without the store being asked. -/
structure WarmFor {β : Type} [Body β] (fetch : Owner → Lookup → Action (Entity β)) (c : Catalog)
    (ttl : Nat) (loads : List (Cache.Load β)) : Prop where
  warm : ∀ load ∈ loads, c.now < load.time + ttl → Warm fetch c loads load.entity
  loaded : ∀ owner lookup e, (fetch owner lookup).run c = (.ok e, c) →
    ∃ load ∈ loads, load.entity = e ∧ c.now < load.time + ttl

/-- **A loaded entity stays warm for a whole life of records.**  Whatever happened since it was loaded,
    and also in the middle of a request that has made some fetches. -/
theorem loads_stay_warm (settings : Settings) (schema : Schema) (events : List Event) (owner : Owner)
    (n : Cache.Noted)
    (hwalk : Cache.NotedWalk (observed settings schema events).catalog.backing owner
      (observed settings schema events).noted n) :
    WarmFor fetchAlias ((observed settings schema events).paused n) settings.ttl n.journal.aliases ∧
      WarmFor fetchQuery ((observed settings schema events).paused n) settings.ttl
        n.journal.queries := by
  have hkeeps := (observed_keeps settings schema events).walked hwalk
  have hsettings := observed_settings settings schema events
  generalize observed settings schema events = o at hkeeps hsettings ⊢
  subst hsettings
  constructor
  · exact ⟨fun _ => warm_of_kept fetchAlias_from (c := o.paused n) hkeeps.up hkeeps.aliases,
      fun _ _ _ => loaded_of_unasked fetchAlias_from (c := o.paused n) hkeeps.up hkeeps.aliases⟩
  · exact ⟨fun _ => warm_of_kept fetchQuery_from (c := o.paused n) hkeeps.up hkeeps.queries,
      fun _ _ _ => loaded_of_unasked fetchQuery_from (c := o.paused n) hkeeps.up hkeeps.queries⟩

/-- A name is given to one column and then to another.  The first alias is loaded by a request that comes
    to nothing, since it is no table; it is deleted before the second one is loaded. -/
def renamedTotal : List Event :=
  [ .step (.request 1 (.createAlias ⟨"total", .expr (.column "orders" "total")⟩)),
    .step (.request 1 (.compile ⟨⟨.all, .aliased (.id 1), none⟩, none, none, none, none, none⟩)),
    .step (.advance 1000),
    .step (.request 1 (.deleteAlias 1)),
    .step (.request 1 (.createAlias ⟨"total", .expr (.column "orders" "id")⟩)),
    .step (.request 1 (.fetchAlias (.id 2))),
    .step (.request 2 (.fetchAlias (.name "total"))),
    .clearing,
    .step (.advance 3598999) ]

/-- What is observed behind it, a millisecond before the records of the first alias expire. -/
def renamed : Observed := observed .standard Sample.schema renamedTotal

/-- The alias that is gone. -/
def oldTotal : Alias := ⟨1, ⟨1, "total", "\x60orders\x60.\x60total\x60", false, false⟩⟩

/-- The alias that has its name. -/
def newTotal : Alias := ⟨2, ⟨1, "total", "\x60orders\x60.\x60id\x60", false, false⟩⟩

/-- By its number the alias that is gone is still served, and by its name the new one. -/
theorem loads_stay_warm_renamed :
    (renamed.catalog.store.aliases.rows = [newTotal] ∧
      renamed.journal.aliases = [⟨1000, newTotal⟩, ⟨0, oldTotal⟩] ∧
      renamed.catalog.now < 0 + Settings.standard.ttl) ∧
      (fetchAlias 1 (.id 1)).run renamed.catalog = (.ok oldTotal, renamed.catalog) ∧
      (fetchAlias 1 (.name "total")).run renamed.catalog = (.ok newTotal, renamed.catalog) := by
  have hstate : renamed.catalog.store.aliases.rows = [newTotal] ∧
      renamed.journal.aliases = [⟨1000, newTotal⟩, ⟨0, oldTotal⟩] ∧
      renamed.catalog.now < 0 + Settings.standard.ttl := by decide +kernel
  have hwarm : Warm fetchAlias renamed.catalog renamed.journal.aliases oldTotal := by
    obtain ⟨haliases, -⟩ := loads_stay_warm .standard Sample.schema renamedTotal 1 _ .refl
    rw [← renamed, Observed.paused_noted] at haliases
    simp only [Observed.noted] at haliases
    refine haliases.warm ⟨0, oldTotal⟩ ?_ hstate.2.2
    rw [hstate.2.1]
    exact List.mem_cons_of_mem _ List.mem_cons_self
  -- of the two that had the name, the second was loaded last
  obtain ⟨e, hlatest, hname⟩ := hwarm.byName
  rw [hstate.2.1] at hlatest
  cases hlatest
  exact ⟨hstate, hwarm.byId, hname⟩

end Catalog

end QueryCatalog
