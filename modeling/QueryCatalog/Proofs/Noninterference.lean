/-
  What other owners do changes nothing for an owner.

  Owners share the store, two sequences of numbers and the cache.  Two catalogs are alike for an owner
  (`AlikeFor`) when the owner's entities in the store are the same and the same records of
  the owner's entities are live.  A request of somebody else leads from a catalog to one that is alike
  (`AlikeFor.effect`), whatever that request is, whether it succeeds or not; and in alike catalogs a
  request of the owner gets the same reply (`AlikeFor.reply`), but for the number of a new entity.

  The reply could differ in one more way: the sequence of numbers may have come to its end.  That takes
  as many steps as there are numbers, and is kept as a case of its own.
-/
import QueryCatalog.Proofs.History
import QueryCatalog.Proofs.OwnRecords
import QueryCatalog.Sample

namespace QueryCatalog

/-! ## Tables -/

namespace Table

variable {β : Type} [Body β]

omit [Body β] in
/-- Removing a row that is left out anyway leaves the others. -/
theorem filter_eraseP {rows : List (Entity β)} {removed kept : Entity β → Bool} {e : Entity β}
    (hfind : rows.find? removed = some e) (he : kept e = false) :
    (rows.eraseP removed).filter kept = rows.filter kept := by
  induction rows with
  | nil => cases hfind
  | cons row rows ih =>
    by_cases hrow : removed row = true
    · rw [List.find?_cons_of_pos hrow, Option.some.injEq] at hfind
      subst hfind
      rw [List.eraseP_cons_of_pos hrow, List.filter_cons_of_neg (by simp [he])]
    · rw [List.find?_cons_of_neg hrow] at hfind
      rw [List.eraseP_cons_of_neg hrow, List.filter_cons, List.filter_cons, ih hfind]

/-- What adding a body gives. -/
def added (t : Table β) (body : β) : Except Error (Entity β) :=
  match t.add body with
  | .error e => .error (.store e)
  | .ok (e, _) => .ok e

/-- An owner has the same entities in both tables; numbers that have run out in the one have run out in
    the other. -/
structure AlikeFor (owner : Owner) (t t' : Table β) : Prop where
  list : t.list owner = t'.list owner
  exhausted : t.ids.current = some IdSequence.greatest → t'.ids.current = some IdSequence.greatest

namespace AlikeFor

variable {owner other : Owner} {t t' t₁ : Table β} {past past' : List (Entity β)}

theorem refl (owner : Owner) (t : Table β) : t.AlikeFor owner t := ⟨rfl, id⟩

/-- Tables that are alike for an owner have the same rows of theirs. -/
theorem mem_rows_iff (h : t.AlikeFor owner t') {e : Entity β} (howner : Body.owner e.body = owner) :
    e ∈ t.rows ↔ e ∈ t'.rows := by
  have hlist : ∀ s : Table β, e ∈ s.rows ↔ e ∈ s.list owner := by
    intro s
    simp [Table.list, howner]
  rw [hlist t, hlist t', h.list]

/-- The owner's lookups find the same. -/
theorem find?_eq (h : t.AlikeFor owner t') (ht : t.Remembers past) (ht' : t'.Remembers past')
    (lookup : Lookup) : t.find? owner lookup = t'.find? owner lookup := by
  refine Option.ext fun e => ?_
  rw [ht.find?_eq_some_iff, ht'.find?_eq_some_iff]
  -- whatever answers a lookup of the owner is the owner's
  exact and_congr_left fun hanswers => h.mem_rows_iff (Table.owner_of_answers hanswers)

/-- Adding a body of the owner has the same outcome in both tables, but for the number that it is given,
    unless there is no number left. -/
theorem added_own (h : t.AlikeFor owner t') (ht : t.Remembers past) (ht' : t'.Remembers past')
    {body : β} (howner : Body.owner body = owner) :
    (t.added body).map Entity.body = (t'.added body).map Entity.body ∨
      (t'.added body = .error (.store (.idsExhausted (Body.kind β))) ∧
        t'.ids.current = some IdSequence.greatest) := by
  have hfind := h.find?_eq ht ht' (.name (Body.name body))
  rw [← howner] at hfind
  simp only [added, Table.add, hfind]
  cases t'.find? (Body.owner body) (.name (Body.name body)) with
  | some e => exact .inl rfl
  | none =>
    simp only [Option.isSome_none, Bool.false_eq_true, if_false]
    cases hnext' : t'.ids.next with
    | mk n' ids' =>
      cases n' with
      | none => exact .inr ⟨rfl, IdSequence.next_none hnext'⟩
      | some n' =>
        cases hnext : t.ids.next with
        | mk n ids =>
          cases n with
          | none =>
            -- numbers cannot have run out in the first table alone
            have hend := h.exhausted (IdSequence.next_none hnext)
            simp [IdSequence.next, hend] at hnext'
          | some n => exact .inl rfl

/-- Adding somebody else's entity. -/
theorem add (h : t.AlikeFor owner t') {body : β} {e : Entity β} (hother : Body.owner body ≠ owner)
    (hadd : t'.add body = .ok (e, t₁)) : t.AlikeFor owner t₁ := by
  obtain ⟨-, rfl, hrows, -, hlt⟩ := add_ok hadd
  refine ⟨?_, fun hend => ?_⟩
  · rw [h.list, Table.list, Table.list, hrows, List.filter_append]
    simp [hother]
  · -- there would have been no number for it
    have hgreater := hlt _ (h.exhausted hend)
    have hbound := e.id.toNat_lt
    rw [UInt64.lt_iff_toNat_lt] at hgreater
    have hgreatest : IdSequence.greatest.toNat = 18446744073709551615 := rfl
    omega

/-- Removing somebody else's entity. -/
theorem remove (h : t.AlikeFor owner t') (hother : other ≠ owner) (id : EntityId) :
    t.AlikeFor owner (t'.remove other id).2 := by
  rw [Table.remove]
  split
  · rename_i hfound
    obtain ⟨e, he⟩ := Option.isSome_iff_exists.mp hfound
    simp only [find?, Option.filter_eq_some_iff, beq_iff_eq] at he
    refine ⟨h.list.trans (filter_eraseP he.1 ?_).symm, h.exhausted⟩
    simpa [he.2] using hother
  · exact h

end AlikeFor

/-- A number that means nothing to an owner: an entity of somebody else has it, or it was never
    given. -/
def Strange (t : Table β) (owner : Owner) (n : EntityId) : Prop :=
  (∃ e ∈ t.rows, e.id = n ∧ Body.owner e.body ≠ owner) ∨ ∀ last, t.ids.current = some last → last < n

/-- No entity, not even a removed one, answers to such a number. -/
theorem Remembers.not_answers {t : Table β} {past : List (Entity β)} (ht : t.Remembers past)
    {owner : Owner} {n : EntityId} (hstrange : t.Strange owner n) {e : Entity β} (he : e ∈ past) :
    ¬ e.answers owner (.id n) = true := by
  intro hanswers
  simp only [Entity.answers, Bool.and_eq_true, beq_iff_eq] at hanswers
  obtain ⟨rfl, howner⟩ := hanswers
  rcases hstrange with ⟨e', he', hid, hother⟩ | hnew
  · rw [ht.eq_of_id_eq (ht.kept.subset he') he hid] at hother
    exact hother howner
  · obtain ⟨last, hlast, hle⟩ := ht.given e he
    exact absurd (hnew last hlast) (UInt64.not_lt.mpr hle)

end Table

/-! ## Replies -/

/-- Whether a request creates an entity. -/
def Request.creates : Request → Bool
  | .createAlias _ | .createQuery _ _ => true
  | _ => false

/-- A reply without the number of the entity in it. -/
def Reply.unnumbered : Reply → Reply
  | .aliased e => .aliased ⟨0, e.body⟩
  | .query e => .query ⟨0, e.body⟩
  | reply => reply

/-- What counts of the outcome of a request: everything, but for the number of a new entity. -/
def Request.outcome (request : Request) (result : Except Error Reply) : Except Error Reply :=
  if request.creates then result.map Reply.unnumbered else result

/-- The outcome of a creation depends on the body of the new entity only. -/
theorem Request.outcome_of_body {β : Type} {request : Request} {reply : Entity β → Reply}
    (hcreates : request.creates = true)
    (hreply : ∀ e : Entity β, (reply e).unnumbered = (reply ⟨0, e.body⟩).unnumbered)
    {r r' : Except Error (Entity β)} (h : r.map Entity.body = r'.map Entity.body) :
    request.outcome (r.map reply) = request.outcome (r'.map reply) := by
  simp only [outcome, hcreates, if_true]
  cases r with
  | error e =>
    cases r' with
    | error e' =>
      cases h
      rfl
    | ok b => cases h
  | ok a =>
    cases r' with
    | error e => cases h
    | ok b =>
      have hbody : a.body = b.body := Except.ok.inj h
      exact congrArg Except.ok ((hreply a).trans (hbody ▸ (hreply b).symm))

/-! ## Catalogs -/

namespace Catalog

section Results

variable {c : Catalog} {owner : Owner}

/-- What comes of a request for an alias: its name is checked, its target built, and then it is added. -/
theorem createAlias_fst (hup : c.down = []) (request : Input.AliasRequest) :
    ((createAlias owner request).run c).1 =
      if EntityName.isValid request.name then
        match ((AliasTarget.build c.tableAccess (Cache.lookups c.backing owner) owner request).run
          c.traffic).1 with
        | .error e => .error e
        | .ok body => c.store.aliases.added body
      else .error (.invalidName request.name) := by
  rw [createAlias_run hup]
  split
  · split
    · rename_i hrun
      rw [hrun]
    · rename_i body t hrun
      simp only [hrun, Table.added]
      cases c.store.aliases.add body <;> rfl
  · rfl

/-- What comes of a request for a query: its name is checked, it is compiled, and then it is added. -/
theorem createQuery_fst (hup : c.down = []) (name : String) (input : Input.Query) :
    ((createQuery owner name input).run c).1 =
      if EntityName.isValid name then
        match ((Resolve.compile (Cache.lookups c.backing owner) input).run c.traffic).1 with
        | .error e => .error e
        | .ok compiled =>
          c.store.queries.added ⟨owner, name, compiled.sql, compiled.columnCount⟩
      else .error (.invalidName name) := by
  rw [createQuery_run hup]
  split
  · split
    · rename_i hrun
      rw [hrun]
    · rename_i compiled t hrun
      simp only [hrun, Table.added]
      cases c.store.queries.add ⟨owner, name, compiled.sql, compiled.columnCount⟩ <;> rfl
  · rfl

theorem scalarize_fst (lookup : Lookup) :
    ((scalarize owner lookup).run c).1 =
      match ((Cache.fetch c.backing c.store.queries owner lookup).run c.traffic).1 with
      | .error e => .error e
      | .ok query => query.body.scalar := by
  rw [scalarize_run]
  split <;> rename_i hrun <;> rw [hrun]

end Results

/-- Two catalogs that are the same for an owner: same settings, schema and time, same entities in the
    store, same live records. -/
structure AlikeFor (owner : Owner) (c c' : Catalog) : Prop where
  settings : c.settings = c'.settings
  schema : c.schema = c'.schema
  now : c.now = c'.now
  aliases : c.store.aliases.AlikeFor owner c'.store.aliases
  queries : c.store.queries.AlikeFor owner c'.store.queries
  aliasRecords : Cache.AlikeFor AliasBody owner c.now c.traffic.records c'.traffic.records
  queryRecords : Cache.AlikeFor QueryBody owner c.now c.traffic.records c'.traffic.records

namespace AlikeFor

variable {owner other : Owner} {c c' c₁ : Catalog} {past past' : Past}

theorem refl (owner : Owner) (c : Catalog) : c.AlikeFor owner c :=
  ⟨rfl, rfl, rfl, .refl owner _, .refl owner _, .refl _, .refl _⟩

/-! ## Requests of others -/

/-- Fetches by somebody else leave a cache that is alike. -/
theorem records_of_walked (h : c.AlikeFor owner c') (hc' : c'.Coherent past') (hother : other ≠ owner)
    {t : Cache.Traffic} (hwalked : Cache.Walked c'.backing other c'.traffic t) :
    Cache.AlikeFor AliasBody owner c.now c.traffic.records t.records ∧
      Cache.AlikeFor QueryBody owner c.now c.traffic.records t.records := by
  have hup : c'.backing.down = [] := hc'.up
  have hnow : c'.backing.now = c.now := h.now.symm
  have hkind : Body.kind AliasBody ≠ Body.kind QueryBody := by decide
  induction hwalked with
  | refl => exact ⟨h.aliasRecords, h.queryRecords⟩
  | @aliased t hwalked lookup ih =>
    -- the other owner writes records of their own entities, under keys that no entity of this owner
    -- has
    have hbacks : past'.Backs c.now t.records := h.now ▸ hc'.backs_of_walked hwalked
    exact ⟨ih.1.fetch_foreign hup hnow hbacks.aliases (fun _ _ => hc'.aliases.eq_of_id_eq)
      (fun _ => (hc'.aliases.kept.subset ·)) hother lookup, ih.2.fetch_kind hup hnow hkind other lookup⟩
  | @query t hwalked lookup ih =>
    have hbacks : past'.Backs c.now t.records := h.now ▸ hc'.backs_of_walked hwalked
    exact ⟨ih.1.fetch_kind hup hnow hkind.symm other lookup,
      ih.2.fetch_foreign hup hnow hbacks.queries (fun _ _ => hc'.queries.eq_of_id_eq)
        (fun _ => (hc'.queries.kept.subset ·)) hother lookup⟩

/-- The fetches of another owner leave the records of this one's entities as they are. -/
theorem fetched (h : c.AlikeFor owner c') (hc' : c'.Coherent past') (hother : other ≠ owner)
    {t : Cache.Traffic} (hwalked : Cache.Walked c'.backing other c'.traffic t) :
    c.AlikeFor owner { c' with traffic := t } := by
  obtain ⟨haliases, hqueries⟩ := h.records_of_walked hc' hother hwalked
  exact ⟨h.settings, h.schema, h.now, h.aliases, h.queries, haliases, hqueries⟩

/-- Whatever somebody else asks for, and whether it is granted or not, the catalog stays alike. -/
theorem effect (h : c.AlikeFor owner c') (hc' : c'.Coherent past') (hother : other ≠ owner)
    {deletes : Bool} (heffect : Effect other deletes c' c₁) : c.AlikeFor owner c₁ := by
  cases heffect with
  | fetched hwalked => exact h.fetched hc' hother hwalked
  | aliasAdded hwalked hbuilt hadd =>
    -- an alias belongs to who asked for it
    have hbody := (hbuilt _ (Cache.fetchable_true c'.backing other c'.traffic)).owner_eq
    have h₁ := h.fetched hc' hother hwalked
    exact ⟨h.settings, h.schema, h.now, h.aliases.add (hbody ▸ hother) hadd, h.queries,
      h₁.aliasRecords, h₁.queryRecords⟩
  | queryAdded hwalked _ hadd =>
    have h₁ := h.fetched hc' hother hwalked
    exact ⟨h.settings, h.schema, h.now, h.aliases, h.queries.add hother hadd, h₁.aliasRecords,
      h₁.queryRecords⟩
  | aliasRemoved _ id =>
    exact ⟨h.settings, h.schema, h.now, h.aliases.remove hother id, h.queries, h.aliasRecords,
      h.queryRecords⟩
  | queryRemoved _ id =>
    exact ⟨h.settings, h.schema, h.now, h.aliases, h.queries.remove hother id, h.aliasRecords,
      h.queryRecords⟩

/-! ## Requests of the owner -/

/-- The traffic of two walks of the owner, one in each of two alike catalogs. -/
structure Walks (owner : Owner) (now : Nat) (past past' : Past) (t t' : Cache.Traffic) : Prop where
  backs : past.Backs now t.records
  backs' : past'.Backs now t'.records
  aliases : Cache.AlikeFor AliasBody owner now t.records t'.records
  queries : Cache.AlikeFor QueryBody owner now t.records t'.records

/-- In alike catalogs the owner's lookups give the same, and the walks stay alike. -/
theorem lookups_between (h : c.AlikeFor owner c') (hc : c.Coherent past) (hc' : c'.Coherent past') :
    (Cache.sameUnder (Walks owner c.now past past')).Between ⟨fun _ => True, fun _ => True⟩
      (Cache.lookups c.backing owner) (Cache.lookups c'.backing owner) := by
  have hup : c.backing.down = [] := hc.up
  have hup' : c'.backing.down = [] := hc'.up
  have hnow : c'.backing.now = c.now := h.now.symm
  have httl : c.backing.ttl = c'.backing.ttl := congrArg Settings.ttl h.settings
  constructor
  · intro lookup t t' hw
    -- either both find it in their caches, or both load it
    obtain ⟨hresult, hrecords⟩ := Cache.fetch_alike hup hup' h.now httl
      (hw.aliases.found?_eq hw.backs.aliases hw.backs'.aliases lookup)
      (h.aliases.find?_eq hc.aliases hc'.aliases lookup)
    refine ⟨hresult, ⟨hc.backs_fetchAlias hw.backs owner lookup, ?_, ?_, ?_⟩, fun _ _ => trivial⟩
    · exact h.now ▸ hc'.backs_fetchAlias (h.now ▸ hw.backs') owner lookup
    · exact hw.aliases.fetch rfl hnow httl hrecords
    · exact hw.queries.fetch rfl hnow httl hrecords
  · intro lookup t t' hw
    obtain ⟨hresult, hrecords⟩ := Cache.fetch_alike hup hup' h.now httl
      (hw.queries.found?_eq hw.backs.queries hw.backs'.queries lookup)
      (h.queries.find?_eq hc.queries hc'.queries lookup)
    refine ⟨hresult, ⟨hc.backs_fetchQuery hw.backs owner lookup, ?_, ?_, ?_⟩, fun _ _ => trivial⟩
    · exact h.now ▸ hc'.backs_fetchQuery (h.now ▸ hw.backs') owner lookup
    · exact hw.aliases.fetch rfl hnow httl hrecords
    · exact hw.queries.fetch rfl hnow httl hrecords

/-- Both walks of the owner start alike. -/
theorem walks (h : c.AlikeFor owner c') (hc : c.Coherent past) (hc' : c'.Coherent past') :
    Walks owner c.now past past' c.traffic c'.traffic :=
  ⟨hc.backs, h.now ▸ hc'.backs, h.aliasRecords, h.queryRecords⟩

/-- Catalogs that are alike have the same schema to check columns by. -/
theorem tableAccess_eq (h : c.AlikeFor owner c') (hc : c.Coherent past) (hc' : c'.Coherent past') :
    c.tableAccess = c'.tableAccess := by
  rw [tableAccess, tableAccess, h.settings, h.schema, hc.up, hc'.up]

/-- An alias of the owner is created in both catalogs or in none. -/
theorem createAlias_outcome (h : c.AlikeFor owner c') (hc : c.Coherent past)
    (hc' : c'.Coherent past') (request : Input.AliasRequest) :
    ((createAlias owner request).run c).1.map Entity.body =
        ((createAlias owner request).run c').1.map Entity.body ∨
      ((createAlias owner request).run c').1 = .error (.store (.idsExhausted .aliased)) ∧
        c'.store.aliases.ids.current = some IdSequence.greatest := by
  obtain ⟨hresult, -, hbuilt⟩ := AliasTarget.build_agrees (h.lookups_between hc hc') c.tableAccess
    owner request c.traffic c'.traffic (h.walks hc hc')
  rw [createAlias_fst hc.up, createAlias_fst hc'.up, ← h.tableAccess_eq hc hc', ← hresult]
  split
  · split
    · exact .inl rfl
    · rename_i body hbody
      exact h.aliases.added_own hc.aliases hc'.aliases (hbuilt body hbody).owner_eq
  · exact .inl rfl

/-- A query of the owner is stored in both catalogs or in none. -/
theorem createQuery_outcome (h : c.AlikeFor owner c') (hc : c.Coherent past)
    (hc' : c'.Coherent past') (name : String) (input : Input.Query) :
    ((createQuery owner name input).run c).1.map Entity.body =
        ((createQuery owner name input).run c').1.map Entity.body ∨
      ((createQuery owner name input).run c').1 = .error (.store (.idsExhausted .query)) ∧
        c'.store.queries.ids.current = some IdSequence.greatest := by
  obtain ⟨hresult, -⟩ := Resolve.compile_agrees (h.lookups_between hc hc') input c.traffic c'.traffic
    (h.walks hc hc')
  rw [createQuery_fst hc.up, createQuery_fst hc'.up, ← hresult]
  split
  · split
    · exact .inl rfl
    · exact h.queries.added_own hc.queries hc'.queries rfl
  · exact .inl rfl

/-- A request of the owner has the same outcome in alike catalogs, unless there is no number left for a
    new entity. -/
theorem reply (h : c.AlikeFor owner c') (hc : c.Coherent past) (hc' : c'.Coherent past')
    (request : Request) :
    request.outcome ((perform owner request).run c).1 =
        request.outcome ((perform owner request).run c').1 ∨
      ∃ kind, ((perform owner request).run c').1 = .error (.store (.idsExhausted kind)) ∧
        (c'.store.ids kind).current = some IdSequence.greatest := by
  have hlook := h.lookups_between hc hc'
  have hwalks := h.walks hc hc'
  cases request with
  | createAlias request =>
    rw [perform, run_map, run_map]
    rcases h.createAlias_outcome hc hc' request with hsame | ⟨hresult, hend⟩
    · exact .inl (Request.outcome_of_body rfl (fun _ => rfl) hsame)
    · exact .inr ⟨.aliased, by rw [hresult]; rfl, hend⟩
  | createQuery name input =>
    rw [perform, run_map, run_map]
    rcases h.createQuery_outcome hc hc' name input with hsame | ⟨hresult, hend⟩
    · exact .inl (Request.outcome_of_body rfl (fun _ => rfl) hsame)
    · exact .inr ⟨.query, by rw [hresult]; rfl, hend⟩
  | deleteAlias id =>
    -- only whether there is such an entity is told, not which one was removed
    have hfind := h.aliases.find?_eq hc.aliases hc'.aliases (.id id)
    refine .inl ?_
    rw [perform, run_map, run_map, deleteAlias_run hc.up, deleteAlias_run hc'.up, Table.remove,
      Table.remove, hfind]
    split <;> rfl
  | deleteQuery id =>
    have hfind := h.queries.find?_eq hc.queries hc'.queries (.id id)
    refine .inl ?_
    rw [perform, run_map, run_map, deleteQuery_run hc.up, deleteQuery_run hc'.up, Table.remove,
      Table.remove, hfind]
    split <;> rfl
  | listAliases =>
    refine .inl ?_
    rw [perform, run_map, run_map, listAliases_run hc.up, listAliases_run hc'.up, h.aliases.list]
  | listQueries =>
    refine .inl ?_
    rw [perform, run_map, run_map, listQueries_run hc.up, listQueries_run hc'.up, h.queries.list]
  | fetchAlias lookup =>
    have hresult := (hlook.aliased lookup c.traffic c'.traffic hwalks).1
    refine .inl ?_
    rw [perform, run_map, run_map, fetchAlias, resolving, fetching_run, fetching_run, hresult]
  | fetchQuery lookup =>
    have hresult := (hlook.query lookup c.traffic c'.traffic hwalks).1
    refine .inl ?_
    rw [perform, run_map, run_map, fetchQuery, resolving, fetching_run, fetching_run, hresult]
  | scalarize lookup =>
    have hresult : ((Cache.fetch c.backing c.store.queries owner lookup).run c.traffic).1 =
        ((Cache.fetch c'.backing c'.store.queries owner lookup).run c'.traffic).1 :=
      (hlook.query lookup c.traffic c'.traffic hwalks).1
    refine .inl ?_
    rw [perform, run_map, run_map, scalarize_fst, scalarize_fst, hresult]
  | compile input =>
    have hresult := (Resolve.compile_agrees hlook input c.traffic c'.traffic hwalks).1
    refine .inl ?_
    rw [perform, run_map, run_map, compile, resolving, fetching_run, fetching_run, hresult]

/-- Requests of others, one after the other, lead to a catalog that is alike. -/
theorem run (h : c.AlikeFor owner c') (hc' : c'.Coherent past') {others : List (Owner × Request)}
    (hothers : ∀ x ∈ others, x.1 ≠ owner) :
    c.AlikeFor owner (c'.run (others.map fun x => .request x.1 x.2)) := by
  induction others generalizing c' past' with
  | nil => exact h
  | cons x others ih =>
    obtain ⟨hx, hrest⟩ := List.forall_mem_cons.mp hothers
    obtain ⟨past₁, hc₁⟩ := hc'.after (.request x.1 x.2)
    exact ih (h.effect hc' hx (perform_effect hc'.up x.1 x.2)) hc₁ hrest

end AlikeFor

/-! ## Numbers of others -/

/-- The number of an alias that is not one's own is not found. -/
theorem Coherent.fetchAlias_strange {c : Catalog} {past : Past} (h : c.Coherent past) {owner : Owner}
    {n : EntityId} (hstrange : c.store.aliases.Strange owner n) :
    ((fetchAlias owner (.id n)).run c).1 = .error (.notFound .aliased (.id n)) := by
  rw [fetchAlias, resolving, fetching_run]
  exact Cache.fetch_unanswered (b := c.backing) h.up h.backs.aliases
    (fun _ => (h.aliases.kept.subset ·)) fun _ => h.aliases.not_answers hstrange

theorem Coherent.fetchQuery_strange {c : Catalog} {past : Past} (h : c.Coherent past) {owner : Owner}
    {n : EntityId} (hstrange : c.store.queries.Strange owner n) :
    ((fetchQuery owner (.id n)).run c).1 = .error (.notFound .query (.id n)) := by
  rw [fetchQuery, resolving, fetching_run]
  exact Cache.fetch_unanswered (b := c.backing) h.up h.backs.queries
    (fun _ => (h.queries.kept.subset ·)) fun _ => h.queries.not_answers hstrange

/-- **Owner noninterference.**  After any requests of others, with the clock standing still, a request of
    an owner has the outcome that it would have had without them, but for the number of a new entity;
    the one exception is a creation for which no number is left, after as many steps as there are
    numbers.  The number of an entity of somebody else is not found, just as one that was never given,
    whatever is in the cache. -/
theorem noninterference (settings : Settings) (schema : Schema) (steps : List Step) (owner : Owner)
    (others : List (Owner × Request)) (hothers : ∀ x ∈ others, x.1 ≠ owner) (request : Request) :
    let c := (fresh settings schema .empty).run steps
    let c' := c.run (others.map fun x => .request x.1 x.2)
    (request.outcome ((perform owner request).run c).1 =
          request.outcome ((perform owner request).run c').1 ∨
        (∃ kind, ((perform owner request).run c').1 = .error (.store (.idsExhausted kind))) ∧
          IdSequence.greatest.toNat ≤ steps.length + others.length) ∧
      (∀ n, c'.store.aliases.Strange owner n →
        ((fetchAlias owner (.id n)).run c').1 = .error (.notFound .aliased (.id n))) ∧
      ∀ n, c'.store.queries.Strange owner n →
        ((fetchQuery owner (.id n)).run c').1 = .error (.notFound .query (.id n)) := by
  intro c c'
  obtain ⟨past, hc⟩ := run_coherent settings schema steps
  obtain ⟨past', hc'⟩ := hc.run (others.map fun x => .request x.1 x.2)
  -- a catalog is alike to itself, and the others cannot lead away from that
  have halike : c.AlikeFor owner c' := (AlikeFor.refl owner c).run hc hothers
  refine ⟨?_, fun _ => hc'.fetchAlias_strange, fun _ => hc'.fetchQuery_strange⟩
  rcases halike.reply hc hc' request with hsame | ⟨kind, hresult, hend⟩
  · exact .inl hsame
  · have hrun : c' =
        (fresh settings schema .empty).run (steps ++ others.map fun x => .request x.1 x.2) :=
      List.foldl_append.symm
    rw [hrun] at hend
    have hlength := greatest_le_length kind hend
    rw [List.length_append, List.length_map] at hlength
    exact .inr ⟨⟨kind, hresult⟩, hlength⟩

/-! ## Two owners of one name -/

/-- The catalog of an owner with a table under a name, fetched once. -/
def ofOneOwner : Catalog :=
  (fresh .standard Sample.schema .empty).run
    [.request 1 (.createAlias ⟨"orders", .expr (.table "orders")⟩),
      .request 1 (.fetchAlias (.name "orders"))]

/-- Somebody else takes the same name for another table, fetches it, and tries the owner's number. -/
def neighbour : List (Owner × Request) :=
  [(2, .createAlias ⟨"orders", .expr (.table "customers")⟩), (2, .fetchAlias (.name "orders")),
    (2, .fetchAlias (.id 1)), (2, .deleteAlias 1)]

/-- The store that both leave. -/
def sharedStore : Store where
  aliases := ⟨[⟨1, ⟨1, "orders", "`orders`", true, false⟩⟩,
    ⟨2, ⟨2, "orders", "`customers`", true, false⟩⟩], ⟨some 2⟩⟩
  queries := .empty

/-- The owner names a column; its number is 2 without the neighbour and 3 with them. -/
def columnRequest : Request := .createAlias ⟨"total", .expr (.column "orders" "total")⟩

/-- The neighbour's requests are not seen in the outcome, and the neighbour's alias is not found by
    its number. -/
theorem noninterference_neighbour :
    (∀ x ∈ neighbour, x.1 ≠ 1) ∧
      columnRequest.outcome ((perform 1 columnRequest).run ofOneOwner).1 =
        columnRequest.outcome ((perform 1 columnRequest).run
          (ofOneOwner.run (neighbour.map fun x => .request x.1 x.2))).1 ∧
      ((fetchAlias 1 (.id 2)).run (ofOneOwner.run (neighbour.map fun x => .request x.1 x.2))).1 =
        .error (.notFound .aliased (.id 2)) := by
  have hothers : ∀ x ∈ neighbour, x.1 ≠ 1 := by decide +kernel
  have hstore : (ofOneOwner.run (neighbour.map fun x => .request x.1 x.2)).store = sharedStore := by
    decide +kernel
  obtain ⟨houtcome, haliases, -⟩ := noninterference .standard Sample.schema _ 1 neighbour hothers
    columnRequest
  rw [ofOneOwner] at hstore
  refine ⟨hothers, houtcome.resolve_right ?_, haliases 2 (.inl ?_)⟩
  · -- there are not so many steps that numbers could run out
    rintro ⟨-, hlength⟩
    exact absurd hlength (by decide)
  · rw [hstore]
    exact ⟨⟨2, ⟨2, "orders", "`customers`", true, false⟩⟩, by decide, rfl, by decide⟩

end Catalog

end QueryCatalog
