/-
  Looking twice.

  An entity can be asked for by its number and by its name.  The pointer by number is its own, but the
  pointer by name is shared by all that ever had the name: behind a removal it may lead to the entity
  that has the name now while the number still leads to the one that is gone.  So the two ways do not
  always give one entity.

  What they do give is said over the journal.  Right behind a fetch that gave an entity, its number gives
  the same entity, and its name gives what was loaded last under the name (`Kept.fetch_again`).  That is
  the same entity unless it has been removed, and then it is one that was added later
  (`Kept.eq_or_gone`).
-/
import QueryCatalog.Proofs.Warmth

namespace QueryCatalog

namespace Cache.Kept

variable {β : Type} [Cached β] {table : Table β} {ttl now : Nat} {loads : List (Load β)}
  {records : TimedMap ByteArray} {owner : Owner} {lookup lookup' : Lookup} {e e' : Entity β}

/-- An entity that answers a lookup is what was loaded last for it, or else it is gone and older. -/
theorem eq_or_gone (h : Kept table ttl now loads records) {load : Load β} (hload : load ∈ loads)
    (hanswers : load.entity.answers owner lookup = true)
    (hlatest : latest? loads owner lookup = some e') :
    e' = load.entity ∨ load.entity ∉ table.rows ∧ load.entity.id < e'.id := by
  have hle := h.newest load hload owner lookup e' hanswers hlatest
  obtain ⟨past, hpast, hloads⟩ := h.known
  obtain ⟨⟨load', hload', rfl⟩, hanswers'⟩ := answers_of_latest? hlatest
  by_cases hid : load'.entity.id = load.entity.id
  · exact .inl (hpast.eq_of_id_eq (hloads load' hload') (hloads load hload) hid)
  · have hlt : load.entity.id < load'.entity.id := UInt64.lt_of_le_of_ne hle (Ne.symm hid)
    refine .inr ⟨fun hrow => ?_, hlt⟩
    -- of all that had the name, a row is the newest
    have hge := hpast.le_of_answers hrow (hloads load' hload') hanswers hanswers'
    exact absurd hlt (UInt64.not_lt.mpr hge)

variable [LawfulCached β] {b : Backing} (hup : b.down = []) {t t' : Traffic}
include hup

/-- What a fetch gives answers the lookup and is entered in the journal behind it.  It was loaded less
    than a life ago, or it has just been read from the table. -/
theorem given (h : Kept table b.ttl b.now loads t.records)
    (hrun : (Cache.fetch b table owner lookup).run t = (.ok e, t')) :
    e.answers owner lookup = true ∧ ∃ load ∈ entered b.now t loads (.ok e, t'), load.entity = e ∧
      (b.now < load.time + b.ttl ∨ e ∈ table.rows ∧ b.now + b.ttl < clockEnd ∧
        entered b.now t loads (.ok e, t') = load :: loads) := by
  have hcases := fetch_cases hup table owner lookup t
  rw [hrun] at hcases
  cases hcases with
  | hit hfound =>
    obtain ⟨hlatest, load, hload, heq, hlive⟩ := h.latest?_of_found hfound
    rw [entered, if_neg (Nat.lt_irrefl _)]
    exact ⟨(answers_of_latest? hlatest).2, load, hload, heq, .inl hlive⟩
  | loaded _ hrow hend _ =>
    obtain ⟨hmem, hanswers⟩ := Table.answers_of_find? hrow
    rw [entered, if_pos (Nat.lt_succ_self _)]
    exact ⟨hanswers, ⟨b.now, e⟩, List.mem_cons_self, rfl, .inr ⟨hmem, hend, rfl⟩⟩

/-- Behind a fetch every lookup that its entity answers gives what was loaded last for it. -/
theorem fetch_again (h : Kept table b.ttl b.now loads t.records)
    (hrun : (Cache.fetch b table owner lookup).run t = (.ok e, t'))
    (hanswers : e.answers owner lookup' = true) :
    ∃ e', ((Cache.fetch b table owner lookup').run t').1 = .ok e' ∧
      latest? (entered b.now t loads (.ok e, t')) owner lookup' = some e' := by
  have hkept := h.fetch hup owner lookup
  rw [hrun] at hkept
  obtain ⟨-, load, hload, rfl, hlive | ⟨hmem, hend, hentered⟩⟩ := h.given hup hrun
  · obtain ⟨e', hlatest, hagain⟩ := hkept.fetch_warm hup hload hlive hanswers
    exact ⟨e', by rw [hagain], hlatest⟩
  · -- the records may be dead at once, if they are given no time at all, but the row is there
    obtain ⟨past, hpast, -⟩ := h.known
    have hfind := hpast.find?_eq_some_iff.mpr ⟨hmem, hanswers⟩
    have hcases := fetch_cases hup table owner lookup' t'
    generalize (Cache.fetch b table owner lookup').run t' = r at hcases
    cases hcases with
    | hit hfound => exact ⟨_, rfl, (hkept.latest?_of_found hfound).1⟩
    | missing _ hrow =>
      rw [hfind] at hrow
      cases hrow
    | overflow _ _ hnoend => exact absurd hend hnoend
    | loaded _ hrow _ _ =>
      rw [hfind, Option.some.injEq] at hrow
      refine ⟨_, rfl, ?_⟩
      rw [hentered, latest?_cons, if_pos hanswers, hrow]

end Cache.Kept

namespace Catalog

/-- What a catalog gives next for an entity that it has given: for its number the same entity, and for
    its name what was loaded last of all that had the name.  That is the same entity too, unless it is no
    row any more and there has been another one since. -/
structure SecondLook {β : Type} [Body β] (fetch : Owner → Lookup → Action (Entity β))
    (rows : List (Entity β)) (loads : List (Cache.Load β)) (c : Catalog) (e : Entity β) : Prop where
  byId : ((fetch (Body.owner e.body) (.id e.id)).run c).1 = .ok e
  byName : ∃ e', ((fetch (Body.owner e.body) (.name (Body.name e.body))).run c).1 = .ok e' ∧
    Cache.latest? loads (Body.owner e.body) (.name (Body.name e.body)) = some e' ∧
    (e' = e ∨ e ∉ rows ∧ e.id < e'.id)

/-- What a fetch gives is in the cache from then on, and what the cache keeps of it decides the second
    look. -/
theorem secondLook_of_kept {β : Type} [Cache.Cached β] [Cache.LawfulCached β]
    {fetch : Owner → Lookup → Action (Entity β)} {table : Store → Table β}
    (hfetch : FetchesFrom fetch table) {c c' : Catalog} (hup : c.down = [])
    {loads : List (Cache.Load β)}
    (h : Cache.Kept (table c.store) c.settings.ttl c.now loads c.traffic.records)
    {owner : Owner} {lookup : Lookup} {e : Entity β} (hgiven : (fetch owner lookup).run c = (.ok e, c')) :
    SecondLook fetch (table c.store).rows
      (Cache.entered c.now c.traffic loads
        ((Cache.fetch c.backing (table c.store) owner lookup).run c.traffic)) c' e := by
  have hup : c.backing.down = [] := hup
  have hkept := h.fetch (b := c.backing) hup owner lookup
  rw [hfetch] at hgiven
  cases hrun : (Cache.fetch c.backing (table c.store) owner lookup).run c.traffic with
  | mk r t =>
    rw [hrun] at hgiven hkept
    cases hgiven
    obtain ⟨hanswers, load, hload, rfl, -⟩ := h.given (b := c.backing) hup hrun
    obtain rfl := Table.owner_of_answers hanswers
    constructor
    · -- no other entity ever had this number
      obtain ⟨e', hagain, hlatest⟩ := h.fetch_again (b := c.backing) hup hrun load.entity.answers_id
      rw [hkept.latest?_id hload hlatest] at hagain
      rw [hfetch]
      exact hagain
    · obtain ⟨e', hagain, hlatest⟩ :=
        h.fetch_again (b := c.backing) hup hrun load.entity.answers_name
      refine ⟨e', ?_, hlatest, hkept.eq_or_gone hload load.entity.answers_name hlatest⟩
      rw [hfetch]
      exact hagain

/-- **Two ways to one entity.**  Whatever happened to a catalog, and also in the middle of a request that
    has made some fetches: if a lookup gives an entity, then right behind it the entity's number gives
    the same one, and its name gives what was loaded last under it, which is the same one unless that
    has been removed and the name was given again. -/
theorem second_look (settings : Settings) (schema : Schema) (events : List Event) (owner : Owner)
    (n : Cache.Noted)
    (hwalk : Cache.NotedWalk (observed settings schema events).catalog.backing owner
      (observed settings schema events).noted n) (lookup : Lookup) :
    (∀ e c, (fetchAlias owner lookup).run
        ((observed settings schema events).paused n) = (.ok e, c) →
      SecondLook fetchAlias
        (observed settings schema events).catalog.store.aliases.rows
        (((Cache.notedLookups (observed settings schema events).catalog.backing
          owner).aliased lookup).run n).2.journal.aliases c e) ∧
    ∀ e c, (fetchQuery owner lookup).run
        ((observed settings schema events).paused n) = (.ok e, c) →
      SecondLook fetchQuery
        (observed settings schema events).catalog.store.queries.rows
        (((Cache.notedLookups (observed settings schema events).catalog.backing
          owner).query lookup).run n).2.journal.queries c e := by
  have hkeeps := (observed_keeps settings schema events).walked hwalk
  generalize observed settings schema events = o at hkeeps ⊢
  simp only [Cache.notedLookups, Cache.noting_run]
  constructor
  · intro e c hgiven
    exact secondLook_of_kept fetchAlias_from (c := o.paused n) hkeeps.up hkeeps.aliases hgiven
  · intro e c hgiven
    exact secondLook_of_kept fetchQuery_from (c := o.paused n) hkeeps.up hkeeps.queries hgiven

/-- Where nothing is cleared away from outside, what is observed is a run of steps. -/
theorem observed_steps (settings : Settings) (schema : Schema) (steps : List Step) :
    (observed settings schema (steps.map .step)).catalog =
      (fresh settings schema .empty).run steps := by
  induction steps using List.reverseRecOn with
  | nil => rfl
  | append_singleton steps step ih =>
    rw [List.map_append, List.map_singleton, observed_concat, run_concat, ← ih]
    cases step <;> rfl

/-- A name is given to one column and then to another, and both aliases are loaded by their numbers. -/
def replacedTotal : List Step :=
  [ .request 1 (.createAlias ⟨"total", .expr (.column "orders" "total")⟩),
    .request 1 (.fetchAlias (.id 1)),
    .request 1 (.deleteAlias 1),
    .request 1 (.createAlias ⟨"total", .expr (.column "orders" "id")⟩),
    .request 1 (.fetchAlias (.id 2)) ]

/-- The catalog behind it. -/
def replaced : Catalog := (fresh .standard Sample.schema .empty).run replacedTotal

/-- The alias that is gone is still warm. -/
theorem replaced_warm :
    Warm fetchAlias replaced [⟨0, newTotal⟩, ⟨0, oldTotal⟩] oldTotal := by
  obtain ⟨hup, haliases, -⟩ := observed_keeps .standard Sample.schema (replacedTotal.map .step)
  have hjournal : (observed .standard Sample.schema (replacedTotal.map .step)).journal.aliases =
      [⟨0, newTotal⟩, ⟨0, oldTotal⟩] := by decide +kernel
  have hload : (⟨0, oldTotal⟩ : Cache.Load AliasBody) ∈
      [(⟨0, newTotal⟩ : Cache.Load AliasBody), ⟨0, oldTotal⟩] :=
    List.mem_cons_of_mem _ List.mem_cons_self
  simp only [Observed.noted] at haliases
  rw [hjournal] at haliases
  rw [observed_steps, ← replaced] at hup haliases
  exact warm_of_kept fetchAlias_from hup haliases hload (by decide +kernel)

/-- The number still leads to the alias that is gone, and the name to the other one. -/
theorem replaced_differs :
    (fetchAlias 1 (.id 1)).run replaced = (.ok oldTotal, replaced) ∧
      (fetchAlias 1 (.name oldTotal.body.name)).run replaced = (.ok newTotal, replaced) ∧
      newTotal ≠ oldTotal := by
  obtain ⟨e, hlatest, hname⟩ := replaced_warm.byName
  cases hlatest
  exact ⟨replaced_warm.byId, hname, by decide⟩

/-- By its number the old alias is given again, and by its name a newer one. -/
theorem second_look_replaced :
    (fetchAlias 1 (.id 1)).run replaced = (.ok oldTotal, replaced) ∧
      oldTotal ∉ replaced.store.aliases.rows ∧
      ∃ e, ((fetchAlias 1 (.name "total")).run replaced).1 = .ok e ∧ oldTotal.id < e.id := by
  have hgiven := replaced_warm.byId
  obtain ⟨haliases, -⟩ :=
    second_look .standard Sample.schema (replacedTotal.map .step) 1 _ .refl (.id 1)
  rw [Observed.paused_noted, observed_steps, ← replaced] at haliases
  obtain ⟨e, hname, -, heq | ⟨hgone, hlt⟩⟩ := (haliases oldTotal replaced hgiven).byName
  · -- the name gives the alias that was loaded last, and that is the other one
    obtain ⟨e', hlatest, hname'⟩ := replaced_warm.byName
    cases hlatest
    rw [hname', Except.ok.injEq, heq] at hname
    exact absurd hname (by decide)
  · exact ⟨hgiven, hgone, e, hname, hlt⟩

end Catalog

end QueryCatalog
