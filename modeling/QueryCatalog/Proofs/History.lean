/-
  Catalogs with a history.

  A history is a run of steps from an empty store and an empty cache: requests of any owners, and the
  clock moving on.  What a request can do to a catalog is said once (`Effect`): it makes a run of
  fetches, and then adds one entity, removes one, or leaves the store as it is.

  Behind a catalog with a history stands its past, every entity that was ever stored (`Coherent`): both
  tables remember it, every live record is one of its records, and it obeys every law that is kept by
  building one entity from others (`EntityLaw`).  Entities that are gone from the store belong to the
  past, since the cache may serve them still.

  `run_coherent` is the induction over the steps; `run_coherent_stored` says that where nothing is
  deleted the past is what the store holds, and `greatest_le_length` that numbers last for as many
  steps as there are numbers.
-/
import QueryCatalog.Catalog.Request
import QueryCatalog.Catalog.Surroundings
import QueryCatalog.Proofs.FetchWalk

namespace QueryCatalog

/-! ## Steps -/

/-- Whether a request may remove an entity. -/
def Request.deletes : Request → Bool
  | .deleteAlias _ | .deleteQuery _ => true
  | _ => false

/-- What can happen to a catalog. -/
inductive Step where
  | request (owner : Owner) (request : Request)
  | advance (milliseconds : Nat)

/-- Whether a step may remove an entity. -/
def Step.deletes : Step → Bool
  | .request _ r => r.deletes
  | .advance _ => false

namespace Catalog

/-- The catalog behind a step. -/
def after (c : Catalog) : Step → Catalog
  | .request owner request => ((perform owner request).run c).2
  | .advance milliseconds => c.advance milliseconds

/-- The catalog behind some steps. -/
def run (c : Catalog) (steps : List Step) : Catalog := steps.foldl after c

/-! ## What a request does -/

/-- What a request of an owner can do to a catalog; only one that deletes removes an entity. -/
inductive Effect (owner : Owner) (deletes : Bool) (c : Catalog) : Catalog → Prop
  | fetched {t : Cache.Traffic} (hwalked : Cache.Walked c.backing owner c.traffic t) :
    Effect owner deletes c { c with traffic := t }
  | aliasAdded {t : Cache.Traffic} {name : String} {body : AliasBody} {e : Alias}
    {table : Table AliasBody} (hwalked : Cache.Walked c.backing owner c.traffic t)
    (hbuilt : ∀ k, Cache.Fetchable c.backing owner c.traffic k →
      AliasTarget.Built c.tableAccess k owner name body)
    (hadd : c.store.aliases.add body = .ok (e, table)) :
    Effect owner deletes c { c with store := { c.store with aliases := table }, traffic := t }
  | queryAdded {t : Cache.Traffic} {name : String} {compiled : Sql.Compiled} {e : StoredQuery}
    {table : Table QueryBody} (hwalked : Cache.Walked c.backing owner c.traffic t)
    (hcompiled : ∀ k, Cache.Fetchable c.backing owner c.traffic k →
      ∃ q : Sql.Query, q.Uses k ∧ compiled = q.compiled)
    (hadd : c.store.queries.add ⟨owner, name, compiled.sql, compiled.columnCount⟩ = .ok (e, table)) :
    Effect owner deletes c { c with store := { c.store with queries := table }, traffic := t }
  | aliasRemoved (hdeletes : deletes = true) (id : EntityId) :
    Effect owner deletes c
      { c with store := { c.store with aliases := (c.store.aliases.remove owner id).2 } }
  | queryRemoved (hdeletes : deletes = true) (id : EntityId) :
    Effect owner deletes c
      { c with store := { c.store with queries := (c.store.queries.remove owner id).2 } }

section Run

variable {α : Type} {c : Catalog} (hup : c.down = [])

/-- A run of fetches touches nothing but the traffic of the cache. -/
theorem fetching_run (x : Catalog → Cache.Fetching α) (c : Catalog) :
    (fetching x).run c =
      (((x c).run c.traffic).1, { c with traffic := ((x c).run c.traffic).2 }) := by
  show StateT.run (ExceptT.run (Resolve.passing ((x c).run c.traffic).1 : Action α))
    { c with traffic := ((x c).run c.traffic).2 } = _
  cases ((x c).run c.traffic).1 <;> rfl

theorem fetching_eq {x : Catalog → Cache.Fetching α} {c : Catalog} {r : Except Error α}
    {t : Cache.Traffic} (hrun : (x c).run c.traffic = (r, t)) :
    (fetching x).run c = (r, { c with traffic := t }) := by
  rw [fetching_run, hrun]

/-- Compiling is a run of fetches, and so leaves the store alone. -/
theorem compile_eq {owner : Owner} {input : Input.Query} {r : Except Error Sql.Compiled}
    {t : Cache.Traffic}
    (hrun : (Resolve.compile (Cache.lookups c.backing owner) input).run c.traffic = (r, t)) :
    (compile owner input).run c = (r, { c with traffic := t }) :=
  fetching_eq (x := fun c => Resolve.compile (Cache.lookups c.backing owner) input) hrun

include hup

theorem reachStore_run : reachStore.run c = (.ok c.store, c) := by
  show StateT.run (ExceptT.run (Resolve.passing (c.backing.reach .store) >>= fun _ =>
    pure c.store : Action Store)) c = _
  rw [Cache.reach_ok hup]
  rfl

/-- Either an alias is added to its table, or nothing changes and the error of the store is passed on. -/
theorem insertAlias_run (body : AliasBody) :
    (insertAlias body).run c =
      match c.store.aliases.add body with
      | .error e => (.error (.store e), c)
      | .ok (e, table) => (.ok e, { c with store := { c.store with aliases := table } }) := by
  rw [insertAlias, run_bind_ok (reachStore_run hup)]
  cases c.store.aliases.add body <;> rfl

theorem insertQuery_run (body : QueryBody) :
    (insertQuery body).run c =
      match c.store.queries.add body with
      | .error e => (.error (.store e), c)
      | .ok (e, table) => (.ok e, { c with store := { c.store with queries := table } }) := by
  rw [insertQuery, run_bind_ok (reachStore_run hup)]
  cases c.store.queries.add body <;> rfl

/-- Deleting an alias never fails, and changes the table of aliases alone. -/
theorem deleteAlias_run (owner : Owner) (id : EntityId) :
    (deleteAlias owner id).run c = (.ok (c.store.aliases.remove owner id).1,
      { c with store := { c.store with aliases := (c.store.aliases.remove owner id).2 } }) := by
  rw [deleteAlias, run_bind_ok (reachStore_run hup)]
  rfl

theorem deleteQuery_run (owner : Owner) (id : EntityId) :
    (deleteQuery owner id).run c = (.ok (c.store.queries.remove owner id).1,
      { c with store := { c.store with queries := (c.store.queries.remove owner id).2 } }) := by
  rw [deleteQuery, run_bind_ok (reachStore_run hup)]
  rfl

/-- A list of aliases is read from the store, past the cache. -/
theorem listAliases_run (owner : Owner) :
    (listAliases owner).run c = (.ok (c.store.aliases.list owner), c) := by
  rw [listAliases, run_bind_ok (reachStore_run hup)]
  rfl

theorem listQueries_run (owner : Owner) :
    (listQueries owner).run c = (.ok (c.store.queries.list owner), c) := by
  rw [listQueries, run_bind_ok (reachStore_run hup)]
  rfl

omit hup in
/-- Names are checked before anything is fetched or stored. -/
theorem checkName_run (name : String) (c : Catalog) :
    (checkName name).run c =
      (if EntityName.isValid name then .ok () else .error (.invalidName name), c) := by
  rw [checkName]
  split <;> rfl

/-- Creating an alias: its name is checked, its body is built, and that is added. -/
theorem createAlias_run (owner : Owner) (request : Input.AliasRequest) :
    (createAlias owner request).run c =
      if EntityName.isValid request.name then
        match (AliasTarget.build c.tableAccess (Cache.lookups c.backing owner) owner request).run
          c.traffic with
        | (.error e, t) => (.error e, { c with traffic := t })
        | (.ok body, t) =>
          match c.store.aliases.add body with
          | .error e => (.error (.store e), { c with traffic := t })
          | .ok (e, table) =>
            (.ok e, { c with store := { c.store with aliases := table }, traffic := t })
      else (.error (.invalidName request.name), c) := by
  have hcheck := checkName_run request.name c
  split
  · rename_i hvalid
    rw [if_pos hvalid] at hcheck
    rw [createAlias, run_bind_ok hcheck]
    split
    · -- what was fetched stays in the cache, even if nothing is built of it
      rename_i e t hrun
      exact run_bind_error (fetching_eq hrun)
    · rename_i body t hrun
      rw [buildAlias, run_bind_ok (fetching_eq hrun),
        insertAlias_run (c := { c with traffic := t }) hup]
      rfl
  · rename_i hvalid
    rw [if_neg hvalid] at hcheck
    exact run_bind_error hcheck

/-- Creating a query: its name is checked, it is compiled, and the statement is added. -/
theorem createQuery_run (owner : Owner) (name : String) (input : Input.Query) :
    (createQuery owner name input).run c =
      if EntityName.isValid name then
        match (Resolve.compile (Cache.lookups c.backing owner) input).run c.traffic with
        | (.error e, t) => (.error e, { c with traffic := t })
        | (.ok compiled, t) =>
          match c.store.queries.add ⟨owner, name, compiled.sql, compiled.columnCount⟩ with
          | .error e => (.error (.store e), { c with traffic := t })
          | .ok (e, table) =>
            (.ok e, { c with store := { c.store with queries := table }, traffic := t })
      else (.error (.invalidName name), c) := by
  have hcheck := checkName_run name c
  split
  · rename_i hvalid
    rw [if_pos hvalid] at hcheck
    rw [createQuery, run_bind_ok hcheck]
    split
    · rename_i e t hrun
      exact run_bind_error (compile_eq hrun)
    · rename_i compiled t hrun
      rw [run_bind_ok (compile_eq hrun), insertQuery_run (c := { c with traffic := t }) hup]
      rfl
  · rename_i hvalid
    rw [if_neg hvalid] at hcheck
    exact run_bind_error hcheck

omit hup in
/-- A scalarized query is fetched, and then only looked at. -/
theorem scalarize_run (owner : Owner) (lookup : Lookup) :
    (scalarize owner lookup).run c =
      match (Cache.fetch c.backing c.store.queries owner lookup).run c.traffic with
      | (.error e, t) => (.error e, { c with traffic := t })
      | (.ok query, t) => (query.body.scalar, { c with traffic := t }) := by
  rw [scalarize, fetchQuery, resolving]
  split
  · rename_i e t hrun
    exact run_bind_error (fetching_eq hrun)
  · rename_i query t hrun
    rw [run_bind_ok (fetching_eq hrun)]
    cases query.body.scalar <;> rfl

end Run

section Effects

variable {c : Catalog} (hup : c.down = []) (owner : Owner)
include hup

/-- Creating an alias fetches what its target refers to, and then adds it if nothing was wrong. -/
theorem createAlias_effect (deletes : Bool) (request : Input.AliasRequest) :
    Effect owner deletes c ((createAlias owner request).run c).2 := by
  obtain ⟨hwalked, hbuilt⟩ := Cache.build_walk c.tableAccess c.backing owner c.traffic request
  rw [createAlias_run hup]
  split
  · split
    · rename_i e t hrun
      rw [hrun] at hwalked
      exact .fetched hwalked
    · rename_i body t hrun
      rw [hrun] at hwalked hbuilt
      split
      · -- the name is taken or no number is left, but what was fetched stays in the cache
        exact .fetched hwalked
      · rename_i e table hadd
        exact .aliasAdded hwalked (fun k hk => hbuilt k hk body rfl) hadd
  · exact .fetched .refl

/-- Creating a query fetches what its input refers to, and then adds it if nothing was wrong. -/
theorem createQuery_effect (deletes : Bool) (name : String) (input : Input.Query) :
    Effect owner deletes c ((createQuery owner name input).run c).2 := by
  obtain ⟨hwalked, hcompiled⟩ := Cache.compile_walk c.backing owner c.traffic input
  rw [createQuery_run hup]
  split
  · split
    · rename_i e t hrun
      rw [hrun] at hwalked
      exact .fetched hwalked
    · rename_i compiled t hrun
      rw [hrun] at hwalked hcompiled
      split
      · exact .fetched hwalked
      · rename_i e table hadd
        refine .queryAdded hwalked (fun k hk => ?_) hadd
        -- whatever the owner can fetch, the query is over that
        obtain ⟨q, huses, -, heq⟩ := hcompiled k hk compiled rfl
        exact ⟨q, huses, heq⟩
  · exact .fetched .refl

omit hup in
/-- Reading a query as a single value is a fetch. -/
theorem scalarize_effect (deletes : Bool) (lookup : Lookup) :
    Effect owner deletes c ((scalarize owner lookup).run c).2 := by
  have hwalked : Cache.Walked c.backing owner c.traffic
      ((Cache.fetch c.backing c.store.queries owner lookup).run c.traffic).2 := .query .refl lookup
  rw [scalarize_run]
  split <;> rename_i hrun <;> rw [hrun] at hwalked <;> exact .fetched hwalked

/-- Every request of an owner has one of the effects. -/
theorem perform_effect (r : Request) : Effect owner r.deletes c ((perform owner r).run c).2 := by
  cases r with
  | createAlias request =>
    rw [perform, run_map]
    exact createAlias_effect hup owner _ request
  | createQuery name input =>
    rw [perform, run_map]
    exact createQuery_effect hup owner _ name input
  | deleteAlias id =>
    rw [perform, run_map, deleteAlias_run hup]
    exact .aliasRemoved rfl id
  | deleteQuery id =>
    rw [perform, run_map, deleteQuery_run hup]
    exact .queryRemoved rfl id
  | listAliases =>
    rw [perform, run_map, listAliases_run hup]
    exact .fetched .refl
  | listQueries =>
    rw [perform, run_map, listQueries_run hup]
    exact .fetched .refl
  | fetchAlias lookup =>
    rw [perform, run_map, fetchAlias, resolving, fetching_run]
    exact .fetched (.aliased .refl lookup)
  | fetchQuery lookup =>
    rw [perform, run_map, fetchQuery, resolving, fetching_run]
    exact .fetched (.query .refl lookup)
  | scalarize lookup =>
    rw [perform, run_map]
    exact scalarize_effect owner _ lookup
  | compile input =>
    rw [perform, run_map, compile, resolving, fetching_run]
    exact .fetched (Cache.compile_walk c.backing owner c.traffic input).1

end Effects

end Catalog

/-! ## The past -/

/-- All entities that were ever stored, oldest first. -/
structure Past where
  aliases : List Alias
  queries : List StoredQuery

/-- Every live record is one of an entity of the past. -/
structure Past.Backs (past : Past) (now : Nat) (records : TimedMap ByteArray) : Prop where
  aliases : Cache.Backed (fun e : Alias => e ∈ past.aliases) now records
  queries : Cache.Backed (fun e : StoredQuery => e ∈ past.queries) now records

/-- The entities whose bodies have a property. -/
def Known.ofBodies (aliased : AliasBody → Prop) (query : QueryBody → Prop) : Known :=
  ⟨fun e => aliased e.body, fun e => query e.body⟩

/-- A property of bodies that holds of whatever is built over entities that have it. -/
structure EntityLaw (access : TableAccess) where
  aliased : AliasBody → Prop
  query : QueryBody → Prop
  ofBuilt : ∀ {owner : Owner} {name : String} {body : AliasBody},
    AliasTarget.Built access (.ofBodies aliased query) owner name body → aliased body
  ofQuery : ∀ {owner : Owner} {name : String} {q : Sql.Query}, q.Uses (.ofBodies aliased query) →
    query ⟨owner, name, q.compiled.sql, q.compiled.columnCount⟩

/-- The entities that obey a law. -/
def EntityLaw.known {access : TableAccess} (law : EntityLaw access) : Known :=
  .ofBodies law.aliased law.query

/-- The whole past obeys a law. -/
structure Past.Obeys {access : TableAccess} (past : Past) (law : EntityLaw access) : Prop where
  aliases : ∀ e ∈ past.aliases, law.aliased e.body
  queries : ∀ e ∈ past.queries, law.query e.body

namespace Catalog

/-- A catalog with its past: services are in reach, both tables remember the past, it backs the cache,
    and it obeys every law. -/
structure Coherent (c : Catalog) (past : Past) : Prop where
  up : c.down = []
  aliases : c.store.aliases.Remembers past.aliases
  queries : c.store.queries.Remembers past.queries
  backs : past.Backs c.now c.traffic.records
  lawful : ∀ law : EntityLaw c.tableAccess, past.Obeys law

namespace Coherent

variable {c c' : Catalog} {past : Past} {owner : Owner}

/-- Nothing has happened yet. -/
theorem fresh (settings : Settings) (schema : Schema) :
    (Catalog.fresh settings schema .empty).Coherent ⟨[], []⟩ where
  up := rfl
  aliases := .empty
  queries := .empty
  backs := ⟨.empty, .empty⟩
  lawful _ := ⟨fun _ h => absurd h List.not_mem_nil, fun _ h => absurd h List.not_mem_nil⟩

/-- Fetching an alias leaves the cache backed. -/
theorem backs_fetchAlias (h : c.Coherent past) {t : Cache.Traffic} (ht : past.Backs c.now t.records)
    (owner : Owner) (lookup : Lookup) :
    past.Backs c.now ((Cache.fetch c.backing c.store.aliases owner lookup).run t).2.records where
  aliases := (Cache.fetch_backed (b := c.backing) h.up ht.aliases
    (fun _ => (h.aliases.kept.subset ·)) owner lookup).1
  queries := Cache.fetch_backed_other (b := c.backing) h.up (by decide) ht.queries owner lookup

/-- Fetching a stored query leaves the cache backed. -/
theorem backs_fetchQuery (h : c.Coherent past) {t : Cache.Traffic} (ht : past.Backs c.now t.records)
    (owner : Owner) (lookup : Lookup) :
    past.Backs c.now ((Cache.fetch c.backing c.store.queries owner lookup).run t).2.records where
  aliases := Cache.fetch_backed_other (b := c.backing) h.up (by decide) ht.aliases owner lookup
  queries := (Cache.fetch_backed (b := c.backing) h.up ht.queries
    (fun _ => (h.queries.kept.subset ·)) owner lookup).1

/-- A run of fetches writes records of the past only. -/
theorem backs_of_walked (h : c.Coherent past) {t : Cache.Traffic}
    (hwalked : Cache.Walked c.backing owner c.traffic t) : past.Backs c.now t.records := by
  induction hwalked with
  | refl => exact h.backs
  | aliased _ lookup ih => exact h.backs_fetchAlias ih owner lookup
  | query _ lookup ih => exact h.backs_fetchQuery ih owner lookup

/-- What can be fetched belongs to the past. -/
theorem fetchable (h : c.Coherent past) (owner : Owner) :
    Cache.Fetchable c.backing owner c.traffic
      ⟨fun e => e ∈ past.aliases, fun e => e ∈ past.queries⟩ where
  aliased hwalked _ _ he :=
    ((Cache.fetch_backed h.up (h.backs_of_walked hwalked).aliases
      (fun _ => (h.aliases.kept.subset ·)) owner _).2 _ he).1
  query hwalked _ _ he :=
    ((Cache.fetch_backed h.up (h.backs_of_walked hwalked).queries
      (fun _ => (h.queries.kept.subset ·)) owner _).2 _ he).1

/-- What can be fetched obeys every law. -/
theorem fetchable_lawful (h : c.Coherent past) (owner : Owner) (law : EntityLaw c.tableAccess) :
    Cache.Fetchable c.backing owner c.traffic law.known where
  aliased hwalked _ _ he := (h.lawful law).aliases _ ((h.fetchable owner).aliased hwalked he)
  query hwalked _ _ he := (h.lawful law).queries _ ((h.fetchable owner).query hwalked he)

/-- A compiled query is built over entities that obey the law. -/
theorem compile_ok (h : c.Coherent past) {input : Input.Query} {compiled : Sql.Compiled}
    (hrun : ((compile owner input).run c).1 = .ok compiled) (law : EntityLaw c.tableAccess) :
    ∃ q : Sql.Query, q.Uses law.known ∧ q.limit = input.limit ∧ compiled = q.compiled := by
  rw [compile, resolving, fetching_run] at hrun
  exact (Cache.compile_walk c.backing owner c.traffic input).2 _ (h.fetchable_lawful owner law)
    compiled hrun

/-! ## One step -/

/-- Fetches leave the past as it is. -/
theorem fetched (h : c.Coherent past) {t : Cache.Traffic}
    (hwalked : Cache.Walked c.backing owner c.traffic t) :
    Coherent { c with traffic := t } past :=
  ⟨h.up, h.aliases, h.queries, h.backs_of_walked hwalked, h.lawful⟩

/-- As the clock moves on, fewer records are live. -/
theorem advance (h : c.Coherent past) (milliseconds : Nat) :
    (c.advance milliseconds).Coherent past where
  up := h.up
  aliases := h.aliases
  queries := h.queries
  backs := ⟨h.backs.aliases.later (Nat.le_add_right _ _), h.backs.queries.later (Nat.le_add_right _ _)⟩
  lawful := h.lawful

/-- An alias that is added is new in the past, and obeys the laws since what it is built over does. -/
theorem aliasAdded (h : c.Coherent past) {t : Cache.Traffic} {name : String} {body : AliasBody}
    {e : Alias} {table : Table AliasBody} (hwalked : Cache.Walked c.backing owner c.traffic t)
    (hbuilt : ∀ k, Cache.Fetchable c.backing owner c.traffic k →
      AliasTarget.Built c.tableAccess k owner name body)
    (hadd : c.store.aliases.add body = .ok (e, table)) :
    Coherent { c with store := { c.store with aliases := table }, traffic := t }
      ⟨past.aliases ++ [e], past.queries⟩ where
  up := h.up
  aliases := h.aliases.add hadd
  queries := h.queries
  backs := ⟨(h.backs_of_walked hwalked).aliases.mono fun _ => List.mem_append_left _,
    (h.backs_of_walked hwalked).queries⟩
  lawful law := by
    obtain ⟨-, rfl, -⟩ := Table.add_ok hadd
    have hnew := law.ofBuilt (hbuilt law.known (h.fetchable_lawful owner law))
    refine ⟨List.forall_mem_append.mpr ⟨(h.lawful law).aliases, ?_⟩, (h.lawful law).queries⟩
    exact List.forall_mem_singleton.mpr hnew

/-- A query that is added is new in the past, and obeys the laws since what it is built over does. -/
theorem queryAdded (h : c.Coherent past) {t : Cache.Traffic} {name : String}
    {compiled : Sql.Compiled} {e : StoredQuery} {table : Table QueryBody}
    (hwalked : Cache.Walked c.backing owner c.traffic t)
    (hcompiled : ∀ k, Cache.Fetchable c.backing owner c.traffic k →
      ∃ q : Sql.Query, q.Uses k ∧ compiled = q.compiled)
    (hadd : c.store.queries.add ⟨owner, name, compiled.sql, compiled.columnCount⟩ = .ok (e, table)) :
    Coherent { c with store := { c.store with queries := table }, traffic := t }
      ⟨past.aliases, past.queries ++ [e]⟩ where
  up := h.up
  aliases := h.aliases
  queries := h.queries.add hadd
  backs := ⟨(h.backs_of_walked hwalked).aliases,
    (h.backs_of_walked hwalked).queries.mono fun _ => List.mem_append_left _⟩
  lawful law := by
    obtain ⟨-, hbody, -⟩ := Table.add_ok hadd
    -- the law holds of all that could be fetched, and so of what is made of it
    obtain ⟨q, huses, rfl⟩ := hcompiled law.known (h.fetchable_lawful owner law)
    refine ⟨(h.lawful law).aliases, List.forall_mem_append.mpr ⟨(h.lawful law).queries, ?_⟩⟩
    exact List.forall_mem_singleton.mpr (hbody ▸ law.ofQuery huses)

/-- What is removed stays in the past. -/
theorem aliasRemoved (h : c.Coherent past) (owner : Owner) (id : EntityId) :
    Coherent { c with store := { c.store with aliases := (c.store.aliases.remove owner id).2 } }
      past :=
  ⟨h.up, h.aliases.remove owner id, h.queries, h.backs, h.lawful⟩

theorem queryRemoved (h : c.Coherent past) (owner : Owner) (id : EntityId) :
    Coherent { c with store := { c.store with queries := (c.store.queries.remove owner id).2 } }
      past :=
  ⟨h.up, h.aliases, h.queries.remove owner id, h.backs, h.lawful⟩

/-- A step keeps a catalog coherent. -/
theorem after (h : c.Coherent past) (step : Step) : ∃ past', (c.after step).Coherent past' := by
  cases step with
  | advance milliseconds => exact ⟨past, h.advance milliseconds⟩
  | request owner r =>
    have heffect := perform_effect h.up owner r
    rw [Catalog.after]
    generalize ((perform owner r).run c).2 = c' at heffect ⊢
    cases heffect with
    | fetched hwalked => exact ⟨_, h.fetched hwalked⟩
    | aliasAdded hwalked hbuilt hadd => exact ⟨_, h.aliasAdded hwalked hbuilt hadd⟩
    | queryAdded hwalked hcompiled hadd => exact ⟨_, h.queryAdded hwalked hcompiled hadd⟩
    | aliasRemoved _ id => exact ⟨_, h.aliasRemoved owner id⟩
    | queryRemoved _ id => exact ⟨_, h.queryRemoved owner id⟩

/-- A catalog with a past has one behind any steps. -/
theorem run (h : c.Coherent past) (steps : List Step) : ∃ past', (c.run steps).Coherent past' := by
  induction steps generalizing c past with
  | nil => exact ⟨past, h⟩
  | cons step steps ih =>
    obtain ⟨past', h'⟩ := h.after step
    exact ih h'

end Coherent

/-- A catalog with a history is coherent. -/
theorem run_coherent (settings : Settings) (schema : Schema) (steps : List Step) :
    ∃ past, ((fresh settings schema .empty).run steps).Coherent past :=
  (Coherent.fresh settings schema).run steps

/-! ## Numbers -/

end Catalog

/-- The sequence of the numbers of one kind. -/
def Store.ids (s : Store) : EntityKind → IdSequence
  | .aliased => s.aliases.ids
  | .query => s.queries.ids

namespace Catalog

/-- A step takes at most one number. -/
theorem taken_after {c : Catalog} (hup : c.down = []) (step : Step) (kind : EntityKind) :
    ((c.after step).store.ids kind).taken ≤ (c.store.ids kind).taken + 1 := by
  cases step with
  | advance milliseconds => exact Nat.le_add_right _ 1
  | request owner r =>
    have heffect := perform_effect hup owner r
    rw [Catalog.after]
    generalize ((perform owner r).run c).2 = c' at heffect ⊢
    -- only an addition takes a number, and only one of its own kind
    cases heffect with
    | fetched _ => exact Nat.le_add_right _ 1
    | aliasAdded _ _ hadd =>
      cases kind with
      | aliased => exact Table.taken_add hadd
      | query => exact Nat.le_add_right _ 1
    | queryAdded _ _ hadd =>
      cases kind with
      | aliased => exact Nat.le_add_right _ 1
      | query => exact Table.taken_add hadd
    | aliasRemoved _ id =>
      cases kind with
      | aliased =>
        simp only [Store.ids, Table.ids_remove]
        exact Nat.le_add_right _ 1
      | query => exact Nat.le_add_right _ 1
    | queryRemoved _ id =>
      cases kind with
      | aliased => exact Nat.le_add_right _ 1
      | query =>
        simp only [Store.ids, Table.ids_remove]
        exact Nat.le_add_right _ 1

/-- A run takes at most one number of each kind with every step. -/
theorem Coherent.taken_run {c : Catalog} {past : Past} (h : c.Coherent past) (steps : List Step)
    (kind : EntityKind) :
    ((c.run steps).store.ids kind).taken ≤ (c.store.ids kind).taken + steps.length := by
  induction steps generalizing c past with
  | nil => exact Nat.le_refl _
  | cons step steps ih =>
    obtain ⟨past', h'⟩ := h.after step
    calc ((c.run (step :: steps)).store.ids kind).taken
        ≤ ((c.after step).store.ids kind).taken + steps.length := ih h'
      _ ≤ (c.store.ids kind).taken + 1 + steps.length :=
        Nat.add_le_add_right (taken_after h.up step kind) _
      _ = (c.store.ids kind).taken + (step :: steps).length := by
        rw [List.length_cons]
        omega

/-- The numbers run out only in a history of as many steps as there are numbers. -/
theorem greatest_le_length {settings : Settings} {schema : Schema} {steps : List Step}
    (kind : EntityKind)
    (hend : (((fresh settings schema .empty).run steps).store.ids kind).current =
      some IdSequence.greatest) : IdSequence.greatest.toNat ≤ steps.length := by
  have htaken := (Coherent.fresh settings schema).taken_run steps kind
  rw [IdSequence.taken, hend] at htaken
  cases kind <;> simpa [Catalog.fresh, Store.ids, Store.empty, Table.empty, IdSequence.fresh,
    IdSequence.taken] using htaken

/-! ## Runs without deletions -/

/-- What the store holds, taken for the past. -/
def stored (c : Catalog) : Past := ⟨c.store.aliases.rows, c.store.queries.rows⟩

namespace Coherent

variable {c : Catalog}

/-- A step that deletes nothing keeps the past in the store. -/
theorem after_stored (h : c.Coherent c.stored) {step : Step} (hstep : step.deletes = false) :
    (c.after step).Coherent (c.after step).stored := by
  cases step with
  | advance milliseconds => exact h.advance milliseconds
  | request owner r =>
    have hkept : r.deletes = false := hstep
    have heffect := perform_effect h.up owner r
    rw [Catalog.after]
    generalize ((perform owner r).run c).2 = c' at heffect ⊢
    -- a row that is added goes to the end of the table, as it does in the past
    cases heffect with
    | fetched hwalked => exact h.fetched hwalked
    | aliasAdded hwalked hbuilt hadd =>
      obtain ⟨-, -, hrows, -⟩ := Table.add_ok hadd
      have hnew := h.aliasAdded hwalked hbuilt hadd
      simpa only [stored, hrows] using hnew
    | queryAdded hwalked hcompiled hadd =>
      obtain ⟨-, -, hrows, -⟩ := Table.add_ok hadd
      have hnew := h.queryAdded hwalked hcompiled hadd
      simpa only [stored, hrows] using hnew
    | aliasRemoved hdeletes _ => exact absurd (hkept.symm.trans hdeletes) Bool.false_ne_true
    | queryRemoved hdeletes _ => exact absurd (hkept.symm.trans hdeletes) Bool.false_ne_true

end Coherent

/-- Where nothing was deleted, the past is what the store holds. -/
theorem run_coherent_stored (settings : Settings) (schema : Schema) {steps : List Step}
    (hkept : ∀ step ∈ steps, step.deletes = false) :
    ((fresh settings schema .empty).run steps).Coherent
      ((fresh settings schema .empty).run steps).stored := by
  have hrun : ∀ c : Catalog, c.Coherent c.stored → (c.run steps).Coherent (c.run steps).stored := by
    induction steps with
    | nil => exact fun _ h => h
    | cons step steps ih =>
      obtain ⟨hstep, hsteps⟩ := List.forall_mem_cons.mp hkept
      exact fun c h => ih hsteps (c.after step) (h.after_stored hstep)
  exact hrun _ (Coherent.fresh settings schema)

end Catalog

end QueryCatalog
