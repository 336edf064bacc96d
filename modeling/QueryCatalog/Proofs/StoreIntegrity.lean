/-
  What a request leaves behind.

  A request that fails leaves the store as it was, also when it failed deep inside a compilation, or
  because a record would have outlived the clock; one that creates an entity appends that entity to its
  table and does nothing else to the store.  The cache may change either way, but only by records of
  entities in the store.

  No state is excluded: whatever the store and the cache hold, and whichever services are out of reach.
  So nothing is said here through `get?`; the records are compared as they stand in the map, with the
  time at which they expire.  All that a request writes it writes by fetching, and a fetch writes the
  three records of an entity that it has found in the store (`adds_fetch`).
-/
import QueryCatalog.Proofs.History
import QueryCatalog.Sample

namespace QueryCatalog

/-! ## Records that are written -/

namespace TimedMap

variable {ν : Type}

/-- What is in a map behind a write was written or was there before. -/
theorem mem_put {key : String} {record : Timed ν} {rs : List (String × Timed ν)}
    {r : String × Timed ν} (h : r ∈ put key record rs) : r = (key, record) ∨ r ∈ rs := by
  induction rs with
  | nil => exact .inl (List.mem_singleton.mp h)
  | cons s rs ih =>
    rw [put] at h
    split at h
    · rcases List.mem_cons.mp h with h | h
      · exact .inl h
      · exact .inr (List.mem_cons_of_mem s h)
    · rcases List.mem_cons.mp h with h | h
      · exact .inr (h ▸ List.mem_cons_self)
      · rcases ih h with h | h
        · exact .inl h
        · exact .inr (List.mem_cons_of_mem s h)

/-- A write leaves the record that it writes, and records that were there. -/
theorem mem_of_set? {m m' : TimedMap ν} {now ttl : Nat} {key : String} {value : ν}
    (h : m.set? now key value ttl = some m') {r : String × Timed ν} (hr : r ∈ m'.records) :
    r = (key, ⟨value, now + ttl⟩) ∨ r ∈ m.records := by
  rw [set?] at h
  split at h
  · have hm' := Option.some.inj h
    subst hm'
    refine mem_put ?_
    split at hr
    · -- clearing only takes records away
      exact (List.mem_filter.mp hr).1
    · exact hr
  · cases h

end TimedMap

namespace Cache

/-- A record as it stands in the map, with the time at which it expires. -/
abbrev StoredRecord := String × Timed ByteArray

/-- One of the three records of an entity in the store, written now. -/
def Backing.Supplies (b : Backing) (r : StoredRecord) : Prop :=
  r.2.expires = b.now + b.ttl ∧
    ((∃ e ∈ b.store.aliases.rows, (r.1, r.2.value) ∈ recordsOf e) ∨
      ∃ e ∈ b.store.queries.rows, (r.1, r.2.value) ∈ recordsOf e)

/-- All records that a computation leaves were there before, or have a property. -/
def Adds {α : Type} (P : StoredRecord → Prop) (x : Fetching α) : Prop :=
  ∀ t : Traffic, ∀ r ∈ (x.run t).2.records.records, r ∈ t.records.records ∨ P r

variable {α δ : Type} {P : StoredRecord → Prop}

/-- One computation behind another adds what either adds. -/
theorem Adds.bind {x : Fetching α} {f : α → Fetching δ} (hx : Adds P x)
    (hf : ∀ a, (∃ t, (x.run t).1 = .ok a) → Adds P (f a)) : Adds P (x >>= f) := by
  intro t r hr
  cases hrun : x.run t with
  | mk result t' =>
    have hfirst : ∀ r ∈ t'.records.records, r ∈ t.records.records ∨ P r := by
      have hleft := hx t
      rw [hrun] at hleft
      exact hleft
    cases result with
    | error e =>
      rw [run_bind_error hrun] at hr
      exact hfirst r hr
    | ok a =>
      rw [run_bind_ok hrun] at hr
      -- what the second part finds was there before, or was added by the first
      rcases hf a ⟨t, by rw [hrun]⟩ t' r hr with hr | hr
      · exact hfirst r hr
      · exact .inr hr

/-- A computation that leaves the records alone. -/
theorem Adds.of_records_eq {x : Fetching α} (h : ∀ t, (x.run t).2.records = t.records) : Adds P x := by
  intro t r hr
  rw [h t] at hr
  exact .inl hr

variable (b : Backing)

theorem adds_read? (key : String) : Adds P (read? b key) := by
  refine .of_records_eq fun t => ?_
  rw [read?]
  cases b.reach .cacheReads <;> rfl

/-- A write adds its own record. -/
theorem adds_write {key : String} {value : ByteArray} (h : P (key, ⟨value, b.now + b.ttl⟩)) :
    Adds P (write b key value) := by
  refine Adds.bind (.of_records_eq fun t => ?_) fun _ _ => ?_
  · cases b.reach .cacheWrites <;> rfl
  · intro t r hr
    have hget : (get : Fetching Traffic).run t = (.ok t, t) := rfl
    rw [run_bind_ok hget] at hr
    cases hset : t.records.set? b.now key value b.ttl with
    | none =>
      rw [hset] at hr
      exact .inl hr
    | some records =>
      rw [hset] at hr
      rcases TimedMap.mem_of_set? hset hr with rfl | hr
      · exact .inr h
      · exact .inl hr

variable {β : Type} [Cached β]

/-- Populating adds the records of the entity. -/
theorem adds_populate {e : Entity β}
    (h : ∀ record ∈ recordsOf e, P (record.1, ⟨record.2, b.now + b.ttl⟩)) : Adds P (populate b e) := by
  simp only [recordsOf, List.forall_mem_cons] at h
  exact (adds_write b h.1).bind fun _ _ => (adds_write b h.2.1).bind fun _ _ => adds_write b h.2.2.1

/-- A look into the cache adds nothing. -/
theorem adds_cached? (owner : Owner) (lookup : Lookup) :
    Adds P (cached? b owner lookup : Fetching (Option (Entity β))) := by
  have hpure : ∀ found : Option (Entity β), Adds P (pure found) :=
    fun _ => .of_records_eq fun _ => rfl
  rw [cached?]
  -- two reads, and whatever comes of them is not written
  refine (adds_read? b _).bind fun pointer _ => ?_
  cases pointer with
  | none => exact hpure none
  | some pointer =>
    cases htext : textOf? pointer with
    | none =>
      simp only [htext]
      exact hpure none
    | some key =>
      simp only [htext]
      refine (adds_read? b key).bind fun bytes _ => ?_
      cases bytes with
      | none => exact hpure none
      | some bytes => exact hpure _

/-- A fetch writes the records of a row of its table, or none. -/
theorem adds_fetch {table : Table β} (owner : Owner) (lookup : Lookup)
    (h : ∀ e ∈ table.rows, ∀ record ∈ recordsOf e, P (record.1, ⟨record.2, b.now + b.ttl⟩)) :
    Adds P (fetch b table owner lookup) := by
  rw [fetch]
  refine (adds_cached? b owner lookup).bind fun hit _ => ?_
  cases hit with
  | some e => exact .of_records_eq fun _ => rfl
  | none =>
    have hload : ∀ t, (load b table owner lookup).run t =
        ((b.reach .store).map fun _ => table.find? owner lookup, ⟨t.records, t.reads + 1⟩) := by
      intro t
      rw [load]
      cases b.reach .store <;> rfl
    -- only a row that was loaded is written back, so what it was loaded from has to be remembered
    refine Adds.bind (.of_records_eq fun t => by rw [hload]) fun row hrow => ?_
    cases row with
    | none => exact .of_records_eq fun _ => rfl
    | some e =>
      obtain ⟨t, hresult⟩ := hrow
      have hfind : table.find? owner lookup = some e := by
        rw [hload] at hresult
        cases hreach : b.reach .store with
        | error cause =>
          rw [hreach] at hresult
          cases hresult
        | ok _ =>
          rw [hreach] at hresult
          exact Except.ok.inj hresult
      have hmem := (Table.answers_of_find? hfind).1
      exact (adds_populate b (h e hmem)).bind fun _ _ => .of_records_eq fun _ => rfl

/-- A run of fetches writes records of entities in the store. -/
theorem Walked.supplied {b : Backing} {owner : Owner} {t t' : Traffic} (h : Walked b owner t t') :
    ∀ r ∈ t'.records.records, r ∈ t.records.records ∨ b.Supplies r := by
  induction h with
  | refl => exact fun _ hr => .inl hr
  | @aliased t' _ lookup ih =>
    have hadds : Adds b.Supplies (fetch b b.store.aliases owner lookup) :=
      adds_fetch b owner lookup fun e he _ hrecord => ⟨rfl, .inl ⟨e, he, hrecord⟩⟩
    intro r hr
    exact (hadds t' r hr).elim (ih r) .inr
  | @query t' _ lookup ih =>
    have hadds : Adds b.Supplies (fetch b b.store.queries owner lookup) :=
      adds_fetch b owner lookup fun e he _ hrecord => ⟨rfl, .inr ⟨e, he, hrecord⟩⟩
    intro r hr
    exact (hadds t' r hr).elim (ih r) .inr

end Cache

/-! ## What a request does to the store -/

/-- A table with one more row, under the next number. -/
def Table.Gains {β : Type} (t : Table β) (e : Entity β) (t' : Table β) : Prop :=
  t'.rows = t.rows ++ [e] ∧ t.ids.next = (some e.id, t'.ids)

/-- A table from which one row with that number is gone, if one was found.  The numbers given so far stay
    given. -/
def Table.Loses {β : Type} (t : Table β) (id : EntityId) (found : Bool) (t' : Table β) : Prop :=
  if found then
    t'.ids = t.ids ∧ ∃ before e after,
      t.rows = before ++ e :: after ∧ e.id = id ∧ t'.rows = before ++ after
  else t' = t

/-- What a request that gets this reply makes of the store. -/
def Request.Changes : Request → Reply → Store → Store → Prop
  | .createAlias _, .aliased e, s, s' => s.aliases.Gains e s'.aliases ∧ s'.queries = s.queries
  | .createQuery _ _, .query e, s, s' => s.queries.Gains e s'.queries ∧ s'.aliases = s.aliases
  | .deleteAlias id, .deleted found, s, s' =>
    s.aliases.Loses id found s'.aliases ∧ s'.queries = s.queries
  | .deleteQuery id, .deleted found, s, s' =>
    s.queries.Loses id found s'.queries ∧ s'.aliases = s.aliases
  | .createAlias _, _, _, _ | .createQuery _ _, _, _, _ | .deleteAlias _, _, _, _
  | .deleteQuery _, _, _, _ => False
  | .listAliases, _, s, s' | .listQueries, _, s, s' | .fetchAlias _, _, s, s' | .fetchQuery _, _, s, s'
  | .scalarize _, _, s, s' | .compile _, _, s, s' => s' = s

namespace Table

variable {β : Type} [Body β]

/-- A row that is added is the only change. -/
theorem gains_of_add {t t' : Table β} {body : β} {e : Entity β} (h : t.add body = .ok (e, t')) :
    t.Gains e t' := by
  simp only [add] at h
  split at h
  · cases h
  · split at h
    · cases h
    · rename_i n ids hnext
      cases h
      exact ⟨rfl, hnext⟩

/-- The row that is found is removed, and nothing else changes. -/
theorem loses_remove (t : Table β) (owner : Owner) (id : EntityId) :
    t.Loses id (t.remove owner id).1 (t.remove owner id).2 := by
  rw [remove]
  split
  · rename_i hfound
    obtain ⟨e, hfind⟩ := Option.isSome_iff_exists.mp hfound
    obtain ⟨hmem, hanswers⟩ := answers_of_find? hfind
    obtain ⟨gone, before, after, -, hid, hrows, herased⟩ :=
      List.exists_of_eraseP hmem (p := fun e => e.id == id) (Bool.and_eq_true_iff.mp hanswers).1
    exact ⟨rfl, before, gone, after, hrows, eq_of_beq hid, herased⟩
  · exact rfl

end Table

namespace Catalog

/-- What a request can leave: the store as it is, with fetched records in the cache, or a store with the
    change that its reply stands for. -/
inductive Outcome (owner : Owner) (r : Request) (c : Catalog) : Except Error Reply × Catalog → Prop
  | failed {e : Error} {t : Cache.Traffic} (hwalked : Cache.Walked c.backing owner c.traffic t) :
    Outcome owner r c (.error e, { c with traffic := t })
  | granted {reply : Reply} {s : Store} {t : Cache.Traffic}
    (hwalked : Cache.Walked c.backing owner c.traffic t) (hchanges : r.Changes reply c.store s) :
    Outcome owner r c (.ok reply, { c with store := s, traffic := t })

/-- What needs the store fails, and changes nothing, or goes on with it. -/
theorem reachStore_bind {α : Type} (f : Store → Action α) (c : Catalog) :
    (∃ e, (reachStore >>= f).run c = (.error e, c)) ∨
      (reachStore >>= f).run c = (f c.store).run c := by
  have hrun : ∀ result, c.backing.reach .store = result → reachStore.run c =
      (result.map fun _ => c.store, c) := by
    rintro result rfl
    rw [reachStore]
    show StateT.run (ExceptT.run (Resolve.passing (c.backing.reach .store) >>= fun _ =>
      pure c.store : Action Store)) c = _
    cases c.backing.reach .store <;> rfl
  cases hreach : c.backing.reach .store with
  | error e => exact .inl ⟨e, run_bind_error (hrun _ hreach)⟩
  | ok _ => exact .inr (run_bind_ok (hrun _ hreach))

/-- An alias is added, or nothing happens. -/
theorem insertAlias_cases (body : AliasBody) (c : Catalog) :
    (∃ e, (insertAlias body).run c = (.error e, c)) ∨
      ∃ e table, c.store.aliases.Gains e table ∧
        (insertAlias body).run c = (.ok e, { c with store := { c.store with aliases := table } }) := by
  rcases reachStore_bind _ c with hdown | hup
  · exact .inl hdown
  · rw [insertAlias, hup]
    cases hadd : c.store.aliases.add body with
    | error cause => exact .inl ⟨_, rfl⟩
    | ok r => exact .inr ⟨r.1, r.2, Table.gains_of_add hadd, rfl⟩

theorem insertQuery_cases (body : QueryBody) (c : Catalog) :
    (∃ e, (insertQuery body).run c = (.error e, c)) ∨
      ∃ e table, c.store.queries.Gains e table ∧
        (insertQuery body).run c = (.ok e, { c with store := { c.store with queries := table } }) := by
  rcases reachStore_bind _ c with hdown | hup
  · exact .inl hdown
  · rw [insertQuery, hup]
    cases hadd : c.store.queries.add body with
    | error cause => exact .inl ⟨_, rfl⟩
    | ok r => exact .inr ⟨r.1, r.2, Table.gains_of_add hadd, rfl⟩

variable {owner : Owner} {c : Catalog}

/-- A creation checks the name and builds, and only then comes to the store. -/
theorem outcome_create {α δ : Type} {r : Request} (name : String) {x : Catalog → Cache.Fetching α}
    {insert : α → Action δ} (reply : δ → Reply)
    (hwalked : Cache.Walked c.backing owner c.traffic ((x c).run c.traffic).2)
    (hinsert : ∀ a t,
      (∃ e, (insert a).run { c with traffic := t } = (.error e, { c with traffic := t })) ∨
      ∃ d s, r.Changes (reply d) c.store s ∧
        (insert a).run { c with traffic := t } = (.ok d, { c with store := s, traffic := t })) :
    Outcome owner r c ((reply <$> (checkName name >>= fun _ => fetching x >>= insert)).run c) := by
  have hcheck := checkName_run name c
  rw [run_map]
  cases hname : EntityName.isValid name with
  | false =>
    rw [hname] at hcheck
    rw [run_bind_error hcheck]
    exact .failed .refl
  | true =>
    rw [hname] at hcheck
    rw [run_bind_ok hcheck]
    -- whether it is built or not, its fetches have been made
    cases hbuild : (x c).run c.traffic with
    | mk result t =>
      rw [hbuild] at hwalked
      cases result with
      | error e =>
        rw [run_bind_error (fetching_eq hbuild)]
        exact .failed hwalked
      | ok a =>
        rw [run_bind_ok (fetching_eq hbuild)]
        rcases hinsert a t with ⟨e, hrun⟩ | ⟨d, s, hchanges, hrun⟩
        · rw [hrun]
          exact .failed hwalked
        · rw [hrun]
          exact .granted hwalked hchanges

/-- A request for an alias adds the alias of its reply, or fails and leaves the store as it was. -/
theorem outcome_createAlias (request : Input.AliasRequest) :
    Outcome owner (.createAlias request) c ((perform owner (.createAlias request)).run c) := by
  have hwalked := (Cache.build_walk c.tableAccess c.backing owner c.traffic request).1
  refine outcome_create request.name (x := fun c =>
    AliasTarget.build c.tableAccess (Cache.lookups c.backing owner) owner request) .aliased hwalked ?_
  intro body t
  rcases insertAlias_cases body { c with traffic := t } with hfailed | ⟨e, table, hgains, hrun⟩
  · exact .inl hfailed
  · exact .inr ⟨e, { c.store with aliases := table }, ⟨hgains, rfl⟩, hrun⟩

theorem outcome_createQuery (name : String) (input : Input.Query) :
    Outcome owner (.createQuery name input) c ((perform owner (.createQuery name input)).run c) := by
  have hwalked := (Cache.compile_walk c.backing owner c.traffic input).1
  refine outcome_create name (x := fun c => Resolve.compile (Cache.lookups c.backing owner) input)
    .query hwalked ?_
  intro compiled t
  rcases insertQuery_cases ⟨owner, name, compiled.sql, compiled.columnCount⟩ { c with traffic := t } with
    hfailed | ⟨e, table, hgains, hrun⟩
  · exact .inl hfailed
  · exact .inr ⟨e, { c.store with queries := table }, ⟨hgains, rfl⟩, hrun⟩

/-- A request that only fetches. -/
theorem outcome_fetching {α : Type} {r : Request} {x : Catalog → Cache.Fetching α} (reply : α → Reply)
    (hwalked : Cache.Walked c.backing owner c.traffic ((x c).run c.traffic).2)
    (hchanges : ∀ a, r.Changes (reply a) c.store c.store) :
    Outcome owner r c ((reply <$> fetching x).run c) := by
  rw [run_map, fetching_run]
  cases ((x c).run c.traffic).1 with
  | error e => exact .failed hwalked
  | ok a => exact .granted hwalked (hchanges a)

/-- A request that goes straight to the store, and to which it has a reply. -/
theorem outcome_reachStore {α : Type} {r : Request} (f : Store → Action α) (reply : α → Reply)
    {a : α} {s : Store} (hf : (f c.store).run c = (.ok a, { c with store := s }))
    (hchanges : r.Changes (reply a) c.store s) :
    Outcome owner r c ((reply <$> (reachStore >>= f)).run c) := by
  rw [run_map]
  rcases reachStore_bind f c with ⟨e, hdown⟩ | hup
  · rw [hdown]
    exact .failed .refl
  · rw [hup, hf]
    exact .granted .refl hchanges

/-- Reading a query as a single value only fetches, whether it has such a value or not. -/
theorem outcome_scalarize (lookup : Lookup) :
    Outcome owner (.scalarize lookup) c ((perform owner (.scalarize lookup)).run c) := by
  have hwalked : Cache.Walked c.backing owner c.traffic
      ((Cache.fetch c.backing c.store.queries owner lookup).run c.traffic).2 := .query .refl lookup
  rw [perform, run_map, scalarize_run]
  split
  · rename_i e t hrun
    rw [hrun] at hwalked
    exact .failed hwalked
  · rename_i query t hrun
    rw [hrun] at hwalked
    cases query.body.scalar with
    | error e => exact .failed hwalked
    | ok sql => exact .granted hwalked rfl

/-- Every request has one of the outcomes. -/
theorem perform_outcome (owner : Owner) (r : Request) (c : Catalog) :
    Outcome owner r c ((perform owner r).run c) := by
  cases r with
  | createAlias request => exact outcome_createAlias request
  | createQuery name input => exact outcome_createQuery name input
  | deleteAlias id =>
    exact outcome_reachStore _ .deleted rfl ⟨c.store.aliases.loses_remove owner id, rfl⟩
  | deleteQuery id =>
    exact outcome_reachStore _ .deleted rfl ⟨c.store.queries.loses_remove owner id, rfl⟩
  | listAliases => exact outcome_reachStore _ .aliases rfl rfl
  | listQueries => exact outcome_reachStore _ .queries rfl rfl
  | fetchAlias lookup => exact outcome_fetching .aliased (.aliased .refl lookup) fun _ => rfl
  | fetchQuery lookup => exact outcome_fetching .query (.query .refl lookup) fun _ => rfl
  | scalarize lookup => exact outcome_scalarize lookup
  | compile input =>
    exact outcome_fetching (x := fun c => Resolve.compile (Cache.lookups c.backing owner) input)
      .compiled (Cache.compile_walk c.backing owner c.traffic input).1 fun _ => rfl

/-- **Failed requests leave the store intact.**  In every state, a request that fails leaves the store as
    it was, one that succeeds makes the change that its reply stands for and no other, and either way
    every record that is new in the cache is one of the three records of an entity in the store. -/
theorem store_intact (c : Catalog) (owner : Owner) (r : Request) :
    (∀ e, ((perform owner r).run c).1 = .error e → ((perform owner r).run c).2.store = c.store) ∧
      (∀ reply, ((perform owner r).run c).1 = .ok reply →
        r.Changes reply c.store ((perform owner r).run c).2.store) ∧
      ∀ record ∈ ((perform owner r).run c).2.traffic.records.records,
        record ∈ c.traffic.records.records ∨ c.backing.Supplies record := by
  have houtcome := perform_outcome owner r c
  generalize (perform owner r).run c = result at houtcome
  cases houtcome with
  | failed hwalked =>
    refine ⟨fun _ _ => rfl, fun reply h => ?_, hwalked.supplied⟩
    cases h
  | granted hwalked hchanges =>
    refine ⟨fun e h => ?_, fun reply h => ?_, hwalked.supplied⟩
    · cases h
    · cases h
      exact hchanges

/-- Stores the orders above a revenue: an aggregate where none may stand. -/
def storeProfitable : Request := .createQuery "profitable" {
  select := ⟨.all, .aliased (.name "orders"), none⟩
  filter := some (.comparison (.aliased (.name "revenue")) ">" (.literal (.int 1)))
  groups := none
  having := none
  order := none
  limit := none }

/-- It fails when both of its aliases are in the cache. -/
theorem store_intact_misplaced :
    ((perform 1 storeProfitable).run Sample.catalog).1 = .error (.misplacedAggregate .filter) ∧
      ((perform 1 storeProfitable).run Sample.catalog).2.store = Sample.catalog.store ∧
      ((perform 1 storeProfitable).run Sample.catalog).2.traffic.records.records.length = 6 ∧
      ∀ record ∈ ((perform 1 storeProfitable).run Sample.catalog).2.traffic.records.records,
        Sample.catalog.backing.Supplies record := by
  have hlength :
      ((perform 1 storeProfitable).run Sample.catalog).2.traffic.records.records.length = 6 := by
    decide +kernel
  have hcause : ((perform 1 storeProfitable).run Sample.catalog).1.map (fun _ => ()) =
      .error (.misplacedAggregate .filter) := by
    decide +kernel
  have herror := eq_error_of_map hcause
  obtain ⟨hstore, -, hrecords⟩ := store_intact Sample.catalog 1 storeProfitable
  refine ⟨herror, hstore _ herror, hlength, fun record hrecord => ?_⟩
  exact (hrecords record hrecord).resolve_left List.not_mem_nil

end Catalog

end QueryCatalog
