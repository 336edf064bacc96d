/-
  How stale a fetched entity can be.

  A fetch may serve an entity that is no longer stored, but never one that was gone a whole life of
  records ago.  The object and the pointers of an entity are records on their own: a successor of the
  same name overwrites some of them, and they may expire, or be cleared, one without the other.  What
  ties them together is a date (`Dated`): each record that is live at some time is a record of an entity
  that was in the store less than a life before that time.  A record is only ever written where its
  entity has just been read from the store, and the invariant speaks of all later times at once, so that
  the clock can move on without another argument.

  That a removed entity is not served later than that is a consequence: no step brings it back
  (`Table.Lost`), since no number is given twice.
-/
import Mathlib.Data.List.Induction
import QueryCatalog.Proofs.Expansion
import QueryCatalog.Sample

namespace QueryCatalog

/-! ## Dated records -/

namespace Cache

variable {β γ : Type} [Cached β] [Cached γ]

/-- The entity was seen less than a life before `now`. -/
def Recent (seen : Entity β → Nat → Prop) (ttl now : Nat) (e : Entity β) : Prop :=
  ∃ t, seen e t ∧ now < t + ttl

/-- Every record of a kind that is live at some time from `now` on is a record of an entity that was seen
    less than a life before that time. -/
def Dated (seen : Entity β → Nat → Prop) (ttl now : Nat) (records : TimedMap ByteArray) : Prop :=
  ∀ later, now ≤ later → ∀ k v, records.get? later k = some v → IsKeyOf (Body.kind β) k →
    ∃ e, Recent seen ttl later e ∧ (k, v) ∈ recordsOf e

namespace Dated

variable {seen seen' : Entity β → Nat → Prop} {ttl now : Nat} {records records' : TimedMap ByteArray}

/-- Dated records are backed by what was seen recently. -/
theorem backed (h : Dated seen ttl now records) : Backed (Recent seen ttl now) now records := by
  intro later hlater k v hget hkey
  obtain ⟨e, ⟨t, hseen, hlive⟩, hmem⟩ := h later hlater k v hget hkey
  exact ⟨e, ⟨t, hseen, Nat.lt_of_le_of_lt hlater hlive⟩, hmem⟩

/-- The clock may move on, since a record is dated at all times at which it is live. -/
theorem later (h : Dated seen ttl now records) {now' : Nat} (hle : now ≤ now') :
    Dated seen ttl now' records :=
  fun later hlater => h later (Nat.le_trans hle hlater)

/-- Whatever else is seen, what was dated stays so. -/
theorem mono (h : Dated seen ttl now records) (hseen : ∀ e t, seen e t → seen' e t) :
    Dated seen' ttl now records := by
  intro later hlater k v hget hkey
  obtain ⟨e, ⟨t, he, hlive⟩, hmem⟩ := h later hlater k v hget hkey
  exact ⟨e, ⟨t, hseen e t he, hlive⟩, hmem⟩

theorem empty : Dated seen ttl now .empty := by
  intro later _ k v hget
  rw [TimedMap.get?_empty] at hget
  cases hget

/-- Records stay dated when those of an entity that is seen now are written. -/
theorem populated {b : Backing} (h : Dated seen b.ttl b.now records) {e : Entity β}
    (he : seen e b.now) (hpopulated : Populated b e records records') :
    Dated seen b.ttl b.now records' := by
  intro later hlater k v hget hkey
  rw [hpopulated later hlater k] at hget
  cases hlookup : (recordsOf e).lookup k with
  | none =>
    rw [hlookup] at hget
    exact h later hlater k v hget hkey
  | some w =>
    rw [hlookup] at hget
    by_cases hlive : later < b.now + b.ttl
    · -- the record was written now, and now is the time at which its entity was seen
      simp only [hlive, if_true, Option.some.injEq] at hget
      subst hget
      exact ⟨e, ⟨b.now, he, hlive⟩, mem_of_lookup hlookup⟩
    · simp [hlive] at hget

/-- Records of one kind stay dated when those of an entity of another kind are written. -/
theorem populated_other {b : Backing} (h : Dated seen b.ttl b.now records) {e : Entity γ}
    (hkind : Body.kind γ ≠ Body.kind β) (hpopulated : Populated b e records records') :
    Dated seen b.ttl b.now records' := by
  intro later hlater k v hget hkey
  rw [hpopulated later hlater k, lookup_recordsOf_other hkey hkind] at hget
  exact h later hlater k v hget hkey

end Dated

section DatedFetch

variable {b : Backing} (hup : b.down = []) {table : Table β} {t : Traffic}
include hup

/-- Over dated records a fetch leaves dated records.  What it gives answers the lookup, and is a row or
    was seen recently. -/
theorem fetch_dated [LawfulCached β] {seen : Entity β → Nat → Prop}
    (h : Dated seen b.ttl b.now t.records) (hrows : ∀ e ∈ table.rows, seen e b.now)
    (owner : Owner) (lookup : Lookup) :
    Dated seen b.ttl b.now ((fetch b table owner lookup).run t).2.records ∧
      ∀ e, ((fetch b table owner lookup).run t).1 = .ok e →
        e.answers owner lookup = true ∧ (e ∈ table.rows ∨ Recent seen b.ttl b.now e) := by
  have hcases := fetch_cases hup table owner lookup t
  generalize (fetch b table owner lookup).run t = r at hcases
  cases hcases with
  | hit hfound =>
    -- the date is that of the object, which the pointer only leads to
    obtain ⟨hrecent, hanswers, -, -⟩ := h.backed.found hfound
    refine ⟨h, fun e he => ?_⟩
    cases he
    exact ⟨hanswers, .inr hrecent⟩
  | missing _ _ => exact ⟨h, fun e he => by cases he⟩
  | overflow _ _ _ => exact ⟨h, fun e he => by cases he⟩
  | loaded _ hrow _ hpopulated =>
    obtain ⟨hmem, hanswers⟩ := Table.answers_of_find? hrow
    refine ⟨h.populated (hrows _ hmem) hpopulated, fun e he => ?_⟩
    cases he
    exact ⟨hanswers, .inl hmem⟩

/-- A fetch of one kind writes no record of the other. -/
theorem fetch_dated_other {seen : Entity γ → Nat → Prop} (hkind : Body.kind β ≠ Body.kind γ)
    (h : Dated seen b.ttl b.now t.records) (owner : Owner) (lookup : Lookup) :
    Dated seen b.ttl b.now ((fetch b table owner lookup).run t).2.records := by
  have hcases := fetch_cases hup table owner lookup t
  generalize (fetch b table owner lookup).run t = r at hcases
  cases hcases with
  | hit _ | missing _ _ | overflow _ _ _ => exact h
  | loaded _ _ _ hpopulated => exact h.populated_other hkind hpopulated

end DatedFetch

end Cache

/-! ## Tables along a run -/

namespace Table

variable {β : Type} [Body β]

/-- What a step can do to a table. -/
inductive Moved (t : Table β) : Table β → Prop
  | kept : Moved t t
  | added {body : β} {e : Entity β} {t' : Table β} (h : t.add body = .ok (e, t')) : Moved t t'
  | removed (owner : Owner) (id : EntityId) : Moved t (t.remove owner id).2

/-- An entity of the past that is not in the table. -/
def Lost (t : Table β) (e : Entity β) : Prop :=
  ∃ past, t.Remembers past ∧ e ∈ past ∧ e ∉ t.rows

/-- What is lost does not come back: an entity that is added has a greater number. -/
theorem Lost.moved {t t' : Table β} {e : Entity β} (h : t.Lost e) (hmoved : t.Moved t') : t'.Lost e := by
  obtain ⟨past, hremembers, hpast, hgone⟩ := h
  cases hmoved with
  | kept => exact ⟨past, hremembers, hpast, hgone⟩
  | @added _ e' _ hadd =>
    have hadded := hremembers.add hadd
    obtain ⟨-, -, hrows, -⟩ := add_ok hadd
    refine ⟨past ++ [e'], hadded, List.mem_append_left _ hpast, fun hmem => ?_⟩
    rw [hrows] at hmem
    rcases List.mem_append.mp hmem with hmem | hmem
    · exact hgone hmem
    · -- the new row has a greater number than all of the past
      have hlt := (List.pairwise_append.mp hadded.increasing).2.2 e hpast e' List.mem_cons_self
      rw [List.mem_singleton.mp hmem] at hlt
      exact absurd hlt (UInt64.lt_irrefl _)
  | removed owner id =>
    refine ⟨past, hremembers.remove owner id, hpast, fun hmem => hgone ?_⟩
    rw [Table.remove] at hmem
    split at hmem
    · exact List.mem_of_mem_eraseP hmem
    · exact hmem

/-- What a step takes away is lost. -/
theorem Remembers.lost_of_moved {t t' : Table β} {past : List (Entity β)} (h : t.Remembers past)
    (hmoved : t.Moved t') {e : Entity β} (he : e ∈ t.rows) (hgone : e ∉ t'.rows) : t'.Lost e := by
  have hpast : e ∈ past := h.kept.subset he
  cases hmoved with
  | kept => exact absurd he hgone
  | added hadd => exact ⟨_, h.add hadd, List.mem_append_left _ hpast, hgone⟩
  | removed owner id => exact ⟨past, h.remove owner id, hpast, hgone⟩

end Table

namespace Catalog

namespace Effect

variable {owner : Owner} {deletes : Bool} {c c' : Catalog}

/-- Of the cache a request does nothing but fetch. -/
theorem walked (h : Effect owner deletes c c') : Cache.Walked c.backing owner c.traffic c'.traffic := by
  cases h with
  | fetched hwalked | aliasAdded hwalked _ _ | queryAdded hwalked _ _ => exact hwalked
  | aliasRemoved _ _ | queryRemoved _ _ => exact .refl

theorem now_eq (h : Effect owner deletes c c') : c'.now = c.now := by
  cases h <;> rfl

theorem settings_eq (h : Effect owner deletes c c') : c'.settings = c.settings := by
  cases h <;> rfl

/-- A request does one thing at most to the table of aliases. -/
theorem aliases_moved (h : Effect owner deletes c c') : c.store.aliases.Moved c'.store.aliases := by
  cases h with
  | aliasAdded _ _ hadd => exact .added hadd
  | aliasRemoved _ id => exact .removed owner id
  | fetched _ | queryAdded _ _ _ | queryRemoved _ _ => exact .kept

theorem queries_moved (h : Effect owner deletes c c') : c.store.queries.Moved c'.store.queries := by
  cases h with
  | queryAdded _ _ hadd => exact .added hadd
  | queryRemoved _ id => exact .removed owner id
  | fetched _ | aliasAdded _ _ _ | aliasRemoved _ _ => exact .kept

end Effect

variable {c : Catalog} {past : Past}

theorem Coherent.settings_after (h : c.Coherent past) (step : Step) :
    (c.after step).settings = c.settings := by
  cases step with
  | advance milliseconds => rfl
  | request owner r => exact (perform_effect h.up owner r).settings_eq

theorem Coherent.settings_run (h : c.Coherent past) (steps : List Step) :
    (c.run steps).settings = c.settings := by
  induction steps generalizing c past with
  | nil => rfl
  | cons step steps ih =>
    obtain ⟨past', h'⟩ := h.after step
    exact (ih h').trans (h.settings_after step)

/-- Time does not go back. -/
theorem Coherent.now_le_after (h : c.Coherent past) (step : Step) : c.now ≤ (c.after step).now := by
  cases step with
  | advance milliseconds => exact Nat.le_add_right _ _
  | request owner r => exact Nat.le_of_eq (perform_effect h.up owner r).now_eq.symm

theorem Coherent.now_le_run (h : c.Coherent past) (steps : List Step) : c.now ≤ (c.run steps).now := by
  induction steps generalizing c past with
  | nil => exact Nat.le_refl _
  | cons step steps ih =>
    obtain ⟨past', h'⟩ := h.after step
    exact Nat.le_trans (h.now_le_after step) (ih h')

theorem run_append (c : Catalog) (before after : List Step) :
    c.run (before ++ after) = (c.run before).run after := List.foldl_append

end Catalog

/-- One of the tables of a store: in a catalog with a past it remembers, and a step moves it. -/
structure Store.IsTable {β : Type} [Body β] (table : Store → Table β) : Prop where
  remembers : ∀ {c : Catalog} {past : Past}, c.Coherent past →
    ∃ past, (table c.store).Remembers past
  moved : ∀ {c : Catalog}, c.down = [] → ∀ step, (table c.store).Moved (table (c.after step).store)

theorem Store.isTable_aliases : Store.IsTable Store.aliases where
  remembers h := ⟨_, h.aliases⟩
  moved {c} hup step := by
    cases step with
    | advance milliseconds => exact .kept
    | request owner r => exact (Catalog.perform_effect hup owner r).aliases_moved

theorem Store.isTable_queries : Store.IsTable Store.queries where
  remembers h := ⟨_, h.queries⟩
  moved {c} hup step := by
    cases step with
    | advance milliseconds => exact .kept
    | request owner r => exact (Catalog.perform_effect hup owner r).queries_moved

namespace Catalog

section Run

variable {β : Type} [Body β] {table : Store → Table β} {c : Catalog} {past : Past} {e : Entity β}

/-- What is lost stays lost. -/
theorem Coherent.lost_run (htable : Store.IsTable table) (h : c.Coherent past)
    (hlost : (table c.store).Lost e) (steps : List Step) : (table (c.run steps).store).Lost e := by
  induction steps generalizing c past with
  | nil => exact hlost
  | cons step steps ih =>
    obtain ⟨past', h'⟩ := h.after step
    exact ih h' (hlost.moved (htable.moved h.up step))

/-- The entity is in the table at that time of a run. -/
def Seen (table : Store → Table β) (c : Catalog) (steps : List Step) (e : Entity β) (t : Nat) : Prop :=
  ∃ before after, steps = before ++ after ∧ (c.run before).now = t ∧
    e ∈ (table (c.run before).store).rows

omit [Body β] in
/-- What is stored is seen at this time. -/
theorem seen_now {steps : List Step} (h : e ∈ (table (c.run steps).store).rows) :
    Seen table c steps e (c.run steps).now :=
  ⟨steps, [], (List.append_nil steps).symm, rfl, h⟩

omit [Body β] in
/-- What was seen at a time of a run is seen at it for ever. -/
theorem Seen.later {steps : List Step} {t : Nat} (h : Seen table c steps e t) (more : List Step) :
    Seen table c (steps ++ more) e t := by
  obtain ⟨before, after, rfl, htime, hmem⟩ := h
  exact ⟨before, after ++ more, List.append_assoc before after more, htime, hmem⟩

end Run

/-! ## The cache along a run -/

/-- The cache that some steps leave is dated by what the store held in their course. -/
structure DatedBy (c : Catalog) (steps : List Step) (t : Cache.Traffic) : Prop where
  aliases : Cache.Dated (Seen Store.aliases c steps) (c.run steps).settings.ttl (c.run steps).now
    t.records
  queries : Cache.Dated (Seen Store.queries c steps) (c.run steps).settings.ttl (c.run steps).now
    t.records

namespace DatedBy

variable {c₀ : Catalog} {steps : List Step} {owner : Owner} {t : Cache.Traffic}

/-- Fetches keep it dated: the store does not change meanwhile. -/
theorem walked (hup : (c₀.run steps).down = []) (h : c₀.DatedBy steps (c₀.run steps).traffic)
    (hwalked : Cache.Walked (c₀.run steps).backing owner (c₀.run steps).traffic t) :
    c₀.DatedBy steps t := by
  have hup : (c₀.run steps).backing.down = [] := hup
  induction hwalked with
  | refl => exact h
  | aliased _ lookup ih =>
    obtain ⟨haliases, -⟩ := Cache.fetch_dated hup ih.aliases (fun _ => seen_now) owner lookup
    exact ⟨haliases, Cache.fetch_dated_other hup (by decide) ih.queries owner lookup⟩
  | query _ lookup ih =>
    obtain ⟨hqueries, -⟩ := Cache.fetch_dated hup ih.queries (fun _ => seen_now) owner lookup
    exact ⟨Cache.fetch_dated_other hup (by decide) ih.aliases owner lookup, hqueries⟩

/-- Another step keeps it dated. -/
theorem after {past : Past} (hcoherent : (c₀.run steps).Coherent past)
    (h : c₀.DatedBy steps (c₀.run steps).traffic) (step : Step) :
    c₀.DatedBy (steps ++ [step]) (c₀.run (steps ++ [step])).traffic := by
  have hsettings : (c₀.run (steps ++ [step])).settings = (c₀.run steps).settings := by
    rw [run_concat]
    exact hcoherent.settings_after step
  have hnow : (c₀.run steps).now ≤ (c₀.run (steps ++ [step])).now := by
    rw [run_concat]
    exact hcoherent.now_le_after step
  have hdated : c₀.DatedBy steps (c₀.run (steps ++ [step])).traffic := by
    rw [run_concat]
    cases step with
    | advance milliseconds => exact h
    | request owner r => exact h.walked hcoherent.up (perform_effect hcoherent.up owner r).walked
  -- the clock may have moved on, and there is one more state in which entities are seen
  constructor
  · rw [hsettings]
    exact (hdated.aliases.later hnow).mono fun _ _ hseen => hseen.later [step]
  · rw [hsettings]
    exact (hdated.queries.later hnow).mono fun _ _ hseen => hseen.later [step]

end DatedBy

/-- The cache of a catalog with a history is dated. -/
theorem run_dated (settings : Settings) (schema : Schema) (steps : List Step) :
    (fresh settings schema .empty).DatedBy steps ((fresh settings schema .empty).run steps).traffic := by
  induction steps using List.reverseRecOn with
  | nil => exact ⟨.empty, .empty⟩
  | append_singleton steps step ih =>
    obtain ⟨past, hcoherent⟩ := run_coherent settings schema steps
    exact ih.after hcoherent step

/-! ## What a fetch gives -/

end Catalog

/-- The entity has the number or the name that is looked up. -/
def Lookup.Names {β : Type} [Body β] (e : Entity β) : Lookup → Prop
  | .id n => e.id = n
  | .name s => Body.name e.body = s

/-- What answers a lookup belongs to who asks, and has the number or the name. -/
theorem Entity.owner_and_names {β : Type} [Body β] {e : Entity β} {owner : Owner} {lookup : Lookup}
    (h : e.answers owner lookup = true) : Body.owner e.body = owner ∧ lookup.Names e := by
  refine ⟨Table.owner_of_answers h, ?_⟩
  cases lookup with
  | id n =>
    simp only [Entity.answers, Bool.and_eq_true, beq_iff_eq] at h
    exact h.1
  | name s =>
    simp only [Entity.answers, Bool.and_eq_true, beq_iff_eq] at h
    exact h.1

namespace Catalog

section Given

variable {β : Type} [Body β] (table : Store → Table β) (c : Catalog) (steps : List Step)

/-- An entity that is stored, or was stored at an earlier time of the run, less than a life of records
    ago. -/
def Timely (e : Entity β) : Prop :=
  e ∈ (table (c.run steps).store).rows ∨
    ∃ before after, steps = before ++ after ∧ after ≠ [] ∧ e ∈ (table (c.run before).store).rows ∧
      (c.run steps).now < (c.run before).now + c.settings.ttl

/-- An entity that a step of the run took away, a life of records ago or longer. -/
def Bygone (e : Entity β) : Prop :=
  ∃ before step after, steps = before ++ step :: after ∧
    e ∈ (table (c.run before).store).rows ∧ e ∉ (table (c.run (before ++ [step])).store).rows ∧
      (c.run (before ++ [step])).now + c.settings.ttl ≤ (c.run steps).now

variable {table c steps} {e : Entity β} {past : Past}

omit [Body β] in
/-- What was seen less than a life ago is stored now, or was at a point of the run that is not its
    end. -/
theorem timely_of_recent (hsettings : (c.run steps).settings = c.settings)
    (h : Cache.Recent (Seen table c steps) (c.run steps).settings.ttl (c.run steps).now e) :
    Timely table c steps e := by
  obtain ⟨t, ⟨before, after, hsteps, rfl, hmem⟩, hlive⟩ := h
  rw [hsettings] at hlive
  cases after with
  | nil =>
    rw [List.append_nil] at hsteps
    exact .inl (hsteps ▸ hmem)
  | cons step after => exact .inr ⟨before, step :: after, hsteps, List.cons_ne_nil _ _, hmem, hlive⟩

/-- A bygone entity is not timely: at every time at which it was stored its life was to end before. -/
theorem Timely.not_bygone (htable : Store.IsTable table) (hcoherent : c.Coherent past)
    (h : Timely table c steps e) : ¬ Bygone table c steps e := by
  rintro ⟨before, step, after, rfl, hmem, hgone, hend⟩
  obtain ⟨past', hbefore⟩ := hcoherent.run before
  obtain ⟨remembered, hremembers⟩ := htable.remembers hbefore
  have hlost : ∀ more, e ∉ (table (c.run (before ++ [step] ++ more)).store).rows := by
    intro more
    rw [run_concat] at hgone
    obtain ⟨past'', hafter⟩ := hbefore.after step
    have hlost := hremembers.lost_of_moved (htable.moved hbefore.up step) hmem hgone
    obtain ⟨-, -, -, hout⟩ := hafter.lost_run htable hlost more
    rw [run_append, run_concat]
    exact hout
  have hsplit : before ++ step :: after = before ++ [step] ++ after := by
    rw [List.append_assoc, List.singleton_append]
  rcases h with hstored | ⟨before', after', hsteps, -, hmem', hlive⟩
  · rw [hsplit] at hstored
    exact hlost after hstored
  · -- the time at which it was stored is behind the removal, or not
    rw [hsplit] at hsteps
    rcases List.append_eq_append_iff.mp hsteps with ⟨more, hbefore', -⟩ | ⟨more, hbefore', -⟩
    · rw [hbefore'] at hmem'
      exact hlost more hmem'
    · obtain ⟨past'', hcoherent'⟩ := hcoherent.run before'
      have hle := hcoherent'.now_le_run more
      rw [← run_append, ← hbefore'] at hle
      omega

/-- What a fetch may give to an owner: an own entity, with the number or the name that was asked for,
    that is timely and not bygone. -/
structure Served (table : Store → Table β) (c : Catalog) (steps : List Step) (owner : Owner)
    (lookup : Lookup) (e : Entity β) : Prop where
  owner_eq : Body.owner e.body = owner
  names : lookup.Names e
  timely : Timely table c steps e
  not_bygone : ¬ Bygone table c steps e

end Given

/-- What a fetch gives may be given: the cache is dated, and nothing that is lost comes back. -/
theorem fetch_served {β : Type} [Cache.Cached β] [Cache.LawfulCached β] {table : Store → Table β}
    (htable : Store.IsTable table) {c : Catalog} {past : Past} (hcoherent : c.Coherent past)
    {steps : List Step} {t : Cache.Traffic}
    (hdated : Cache.Dated (Seen table c steps) (c.run steps).settings.ttl (c.run steps).now t.records)
    {owner : Owner} {lookup : Lookup} {e : Entity β}
    (hfetch : ((Cache.fetch (c.run steps).backing (table (c.run steps).store) owner lookup).run t).1 =
      .ok e) : Served table c steps owner lookup e := by
  obtain ⟨past', hnow⟩ := hcoherent.run steps
  obtain ⟨-, hgiven⟩ := Cache.fetch_dated (b := (c.run steps).backing) hnow.up hdated
    (fun _ => seen_now) owner lookup
  obtain ⟨hanswers, hheld⟩ := hgiven e hfetch
  obtain ⟨howner, hnames⟩ := Entity.owner_and_names hanswers
  have htimely : Timely table c steps e := by
    rcases hheld with hstored | hrecent
    · exact .inl hstored
    · exact timely_of_recent (hcoherent.settings_run steps) hrecent
  exact ⟨howner, hnames, htimely, htimely.not_bygone htable hcoherent⟩

/-- **Staleness is bounded.**  Whatever happened to a catalog, and also in the middle of a request that
    has made some fetches, a fetch that succeeds gives an entity of the owner that is stored, or was
    stored less than a life of records ago; one that was removed longer ago is never served. -/
theorem staleness_bounded (settings : Settings) (schema : Schema) (steps : List Step) (owner : Owner)
    (lookup : Lookup) (t : Cache.Traffic)
    (hwalked : Cache.Walked ((fresh settings schema .empty).run steps).backing owner
      ((fresh settings schema .empty).run steps).traffic t) :
    (∀ e, ((fetchAlias owner lookup).run
        { (fresh settings schema .empty).run steps with traffic := t }).1 = .ok e →
      Served Store.aliases (fresh settings schema .empty) steps owner lookup e) ∧
    ∀ e, ((fetchQuery owner lookup).run
        { (fresh settings schema .empty).run steps with traffic := t }).1 = .ok e →
      Served Store.queries (fresh settings schema .empty) steps owner lookup e := by
  have hstart := Coherent.fresh settings schema
  obtain ⟨past, hnow⟩ := hstart.run steps
  -- the fetches of an interrupted request leave the cache dated too
  have hdated := (run_dated settings schema steps).walked hnow.up hwalked
  constructor
  · intro e hfetch
    rw [fetchAlias, resolving, fetching_run] at hfetch
    exact fetch_served Store.isTable_aliases hstart hdated.aliases hfetch
  · intro e hfetch
    rw [fetchQuery, resolving, fetching_run] at hfetch
    exact fetch_served Store.isTable_queries hstart hdated.queries hfetch

/-- Names the orders, fetches the alias, and removes it; a second goes by. -/
def removedOrders : List Step :=
  [ .request 1 (.createAlias ⟨"orders", .expr (.table "orders")⟩),
    .request 1 (.fetchAlias (.name "orders")),
    .request 1 (.deleteAlias 1),
    .advance 1000 ]

/-- The alias that was removed. -/
def ordersAlias : Alias := ⟨1, ⟨1, "orders", "\x60orders\x60", true, false⟩⟩

/-- It is served still, but not when its records have expired. -/
theorem staleness_bounded_removed :
    ordersAlias ∉ ((fresh .standard Sample.schema .empty).run removedOrders).store.aliases.rows ∧
      ((fetchAlias 1 (.name "orders")).run
        ((fresh .standard Sample.schema .empty).run removedOrders)).1 = .ok ordersAlias ∧
      Served Store.aliases (fresh .standard Sample.schema .empty) removedOrders 1 (.name "orders")
        ordersAlias ∧
      ∀ lookup, ((fetchAlias 1 lookup).run ((fresh .standard Sample.schema .empty).run
        (removedOrders ++ [.advance 3599000]))).1 ≠ .ok ordersAlias := by
  have hgone : ordersAlias ∉
      ((fresh .standard Sample.schema .empty).run removedOrders).store.aliases.rows := by
    decide +kernel
  have hserved : ((fetchAlias 1 (.name "orders")).run
      ((fresh .standard Sample.schema .empty).run removedOrders)).1 = .ok ordersAlias :=
    eq_ok_of_toOption (by decide +kernel)
  -- a catalog at rest is one in the middle of a request that has not fetched yet
  have hrest : ∀ (c : Catalog) (t : Cache.Traffic), c.traffic = t → { c with traffic := t } = c := by
    rintro c _ rfl
    rfl
  refine ⟨hgone, hserved, ?_, fun lookup hfetch => ?_⟩
  · obtain ⟨haliases, -⟩ :=
      staleness_bounded .standard Sample.schema removedOrders 1 (.name "orders") _ .refl
    rw [hrest _ _ rfl] at haliases
    exact haliases _ hserved
  · obtain ⟨haliases, -⟩ := staleness_bounded .standard Sample.schema
      (removedOrders ++ [.advance 3599000]) 1 lookup _ .refl
    rw [hrest _ _ rfl] at haliases
    refine (haliases _ hfetch).not_bygone ⟨removedOrders.take 2, .request 1 (.deleteAlias 1),
      [.advance 1000, .advance 3599000], rfl, ?_, ?_, ?_⟩ <;> decide +kernel

end Catalog

end QueryCatalog
