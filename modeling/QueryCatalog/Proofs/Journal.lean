/-
  A journal of what is loaded.

  A fetch asks the store only if the records do not have the entity.  To speak of what was loaded, and of
  what was loaded last, the walk of a request is run once more over lookups that keep a journal
  (`notedLookups`): whenever a fetch gives an entity and has asked the store for it, the entity is
  entered with the time.  The journal is only kept, never read: with its pages torn out a noted walk is
  the walk that the request makes (`walk_noted`, `perform_traffic`).

  `observed` keeps the journal along a history, of which one kind of event more is part than of
  the histories of requests: that expired records are cleared away from outside.
-/
import QueryCatalog.Proofs.History

namespace QueryCatalog

/-! ## Lookups that are noted -/

namespace Cache

/-- An entity that was loaded from the store, and when. -/
structure Load (β : Type) where
  time : Nat
  entity : Entity β
deriving DecidableEq

/-- All that was loaded, the latest first. -/
structure Journal where
  aliases : List (Load AliasBody)
  queries : List (Load QueryBody)
deriving DecidableEq

/-- Nothing was loaded. -/
def Journal.blank : Journal := ⟨[], []⟩

section Latest

variable {β : Type} [Body β]

/-- The entity that was loaded last of those that answer a lookup. -/
def latest? (loads : List (Load β)) (owner : Owner) (lookup : Lookup) : Option (Entity β) :=
  (loads.find? fun load => load.entity.answers owner lookup).map Load.entity

/-- The newest load that answers is the one. -/
theorem latest?_cons (load : Load β) (loads : List (Load β)) (owner : Owner) (lookup : Lookup) :
    latest? (load :: loads) owner lookup =
      if load.entity.answers owner lookup = true then some load.entity
      else latest? loads owner lookup := by
  rw [latest?, List.find?_cons]
  split
  · rename_i hanswers
    rw [if_pos hanswers, Option.map_some]
  · rename_i hanswers
    rw [if_neg (by rw [hanswers]; exact Bool.false_ne_true), latest?]

/-- What was loaded last for a lookup was loaded, and answers it. -/
theorem answers_of_latest? {loads : List (Load β)} {owner : Owner} {lookup : Lookup} {e : Entity β}
    (h : latest? loads owner lookup = some e) :
    (∃ load ∈ loads, load.entity = e) ∧ e.answers owner lookup = true := by
  obtain ⟨load, hfind, rfl⟩ := Option.map_eq_some_iff.mp h
  have hanswers := List.find?_some hfind
  exact ⟨⟨load, List.mem_of_find?_eq_some hfind, rfl⟩, hanswers⟩

end Latest

/-- Traffic with its journal. -/
structure Noted where
  traffic : Traffic
  journal : Journal

/-- A computation that fetches and keeps a journal. -/
abbrev Noting (α : Type) := ExceptT Error (StateM Noted) α

variable {β : Type}

/-- The loads behind a fetch: an entity that is given is entered if the store was asked for it. -/
def entered (now : Nat) (t : Traffic) (loads : List (Load β)) :
    Except Error (Entity β) × Traffic → List (Load β)
  | (.ok e, t') => if t.reads < t'.reads then ⟨now, e⟩ :: loads else loads
  | (.error _, _) => loads

/-- Fetches, and keeps the journal. -/
def noting (fetch : Fetching (Entity β))
    (enter : Noted → Except Error (Entity β) × Traffic → Journal) : Noting (Entity β) := do
  let n ← get
  let fetched := fetch.run n.traffic
  set (⟨fetched.2, enter n fetched⟩ : Noted)
  Resolve.passing fetched.1

/-- Lookups through the cache that keep a journal. -/
def notedLookups (b : Backing) (owner : Owner) : Lookups Noting where
  aliased lookup := noting (fetch b b.store.aliases owner lookup) fun n fetched =>
    { n.journal with aliases := entered b.now n.traffic n.journal.aliases fetched }
  query lookup := noting (fetch b b.store.queries owner lookup) fun n fetched =>
    { n.journal with queries := entered b.now n.traffic n.journal.queries fetched }

/-- A fetch that is noted does what the fetch does. -/
theorem noting_run (fetch : Fetching (Entity β))
    (enter : Noted → Except Error (Entity β) × Traffic → Journal) (n : Noted) :
    (noting fetch enter).run n =
      ((fetch.run n.traffic).1, ⟨(fetch.run n.traffic).2, enter n (fetch.run n.traffic)⟩) := by
  show StateT.run (ExceptT.run (Resolve.passing (fetch.run n.traffic).1 : Noting (Entity β)))
    (⟨(fetch.run n.traffic).2, enter n (fetch.run n.traffic)⟩ : Noted) = _
  cases (fetch.run n.traffic).1 <;> rfl

/-- `n'` is what some fetches by an owner leave of `n`, with all they load noted. -/
inductive NotedWalk (b : Backing) (owner : Owner) (n : Noted) : Noted → Prop
  | refl : NotedWalk b owner n n
  | aliased {n' : Noted} (h : NotedWalk b owner n n') (lookup : Lookup) :
    NotedWalk b owner n (((notedLookups b owner).aliased lookup).run n').2
  | query {n' : Noted} (h : NotedWalk b owner n n') (lookup : Lookup) :
    NotedWalk b owner n (((notedLookups b owner).query lookup).run n').2

/-- A noted walk and a plain one go side by side: the journal is not looked at. -/
theorem lookups_noted (b : Backing) (owner : Owner) (n₀ : Noted) :
    (sameBetween fun (n : Noted) (t : Traffic) => n.traffic = t ∧ NotedWalk b owner n₀ n).Between
      ⟨fun _ => True, fun _ => True⟩ (notedLookups b owner) (lookups b owner) where
  aliased lookup n t := by
    rintro ⟨rfl, hwalk⟩
    have hnext := hwalk.aliased lookup
    simp only [notedLookups, noting_run] at hnext ⊢
    exact ⟨rfl, ⟨rfl, hnext⟩, fun _ _ => trivial⟩
  query lookup n t := by
    rintro ⟨rfl, hwalk⟩
    have hnext := hwalk.query lookup
    simp only [notedLookups, noting_run] at hnext ⊢
    exact ⟨rfl, ⟨rfl, hnext⟩, fun _ _ => trivial⟩

end Cache

/-! ## The walk of a request -/

section Walk

variable {m n : Type → Type} [Monad m] [MonadExceptOf Error m] [Monad n] [MonadExceptOf Error n]

/-- All that a request looks up, over any lookups: what it creates is resolved, if its name can be one,
    and what it fetches is fetched. -/
def Request.walk (access : TableAccess) (owner : Owner) (look : Lookups m) : Request → m Unit
  | .createAlias request =>
    if EntityName.isValid request.name then do
      let _ ← AliasTarget.build access look owner request
      pure ()
    else pure ()
  | .createQuery name input =>
    if EntityName.isValid name then do
      let _ ← Resolve.compile look input
      pure ()
    else pure ()
  | .fetchAlias lookup => do
    let _ ← look.aliased lookup
    pure ()
  | .fetchQuery lookup | .scalarize lookup => do
    let _ ← look.query lookup
    pure ()
  | .compile input => do
    let _ ← Resolve.compile look input
    pure ()
  | .deleteAlias _ | .deleteQuery _ | .listAliases | .listQueries => pure ()

/-- Lookups that agree take a request along the same way. -/
theorem Request.walk_agrees {R : Agreement m n} {k : Known} {look : Lookups m} {look' : Lookups n}
    (hlook : R.Between k look look') (access : TableAccess) (owner : Owner) (r : Request) :
    R.holds (fun _ => True) (r.walk access owner look) (r.walk access owner look') := by
  cases r with
  | createAlias request =>
    simp only [walk]
    split
    · exact R.bind (AliasTarget.build_agrees hlook access owner request) fun _ _ => R.pure trivial
    · exact R.pure trivial
  | createQuery name input =>
    simp only [walk]
    split
    · exact R.bind (Resolve.compile_agrees hlook input) fun _ _ => R.pure trivial
    · exact R.pure trivial
  | fetchAlias lookup => exact R.bind (hlook.aliased lookup) fun _ _ => R.pure trivial
  | fetchQuery lookup => exact R.bind (hlook.query lookup) fun _ _ => R.pure trivial
  | scalarize lookup => exact R.bind (hlook.query lookup) fun _ _ => R.pure trivial
  | compile input => exact R.bind (Resolve.compile_agrees hlook input) fun _ _ => R.pure trivial
  -- what goes straight to the store walks nowhere
  | deleteAlias id | deleteQuery id | listAliases | listQueries => exact R.pure trivial

end Walk

namespace Catalog

/-- What a walk leaves does not depend on what is done with its result. -/
theorem run_ignored {σ α : Type} (x : ExceptT Error (StateM σ) α) (s : σ) :
    ((x >>= fun _ => pure ()).run s).2 = (x.run s).2 := by
  cases hrun : x.run s with
  | mk r s' =>
    cases r with
    | ok a => rw [run_bind_ok hrun]; rfl
    | error e => rw [run_bind_error hrun]

/-- A request leaves the traffic that its walk leaves. -/
theorem perform_traffic {c : Catalog} (hup : c.down = []) (owner : Owner) (r : Request) :
    ((perform owner r).run c).2.traffic =
      ((r.walk c.tableAccess owner (Cache.lookups c.backing owner)).run c.traffic).2 := by
  cases r with
  | createAlias request =>
    rw [perform, run_map, createAlias_run hup, Request.walk]
    by_cases hvalid : EntityName.isValid request.name = true
    · rw [if_pos hvalid, if_pos hvalid, run_ignored]
      split
      · rename_i e t hrun
        rw [hrun]
      · rename_i body t hrun
        rw [hrun]
        -- adding to the store has nothing to do with the cache
        split <;> rfl
    · rw [if_neg hvalid, if_neg hvalid]
      rfl
  | createQuery name input =>
    rw [perform, run_map, createQuery_run hup, Request.walk]
    by_cases hvalid : EntityName.isValid name = true
    · rw [if_pos hvalid, if_pos hvalid, run_ignored]
      split
      · rename_i e t hrun
        rw [hrun]
      · rename_i compiled t hrun
        rw [hrun]
        split <;> rfl
    · rw [if_neg hvalid, if_neg hvalid]
      rfl
  | deleteAlias id =>
    rw [perform, run_map, deleteAlias_run hup]
    rfl
  | deleteQuery id =>
    rw [perform, run_map, deleteQuery_run hup]
    rfl
  | listAliases =>
    rw [perform, run_map, listAliases_run hup]
    rfl
  | listQueries =>
    rw [perform, run_map, listQueries_run hup]
    rfl
  | fetchAlias lookup =>
    rw [perform, run_map, fetchAlias, resolving, fetching_run, Request.walk, run_ignored]
  | fetchQuery lookup =>
    rw [perform, run_map, fetchQuery, resolving, fetching_run, Request.walk, run_ignored]
  | scalarize lookup =>
    rw [perform, run_map, scalarize_run, Request.walk, run_ignored]
    split
    · rename_i e t hrun
      exact (congrArg Prod.snd hrun).symm
    · rename_i query t hrun
      exact (congrArg Prod.snd hrun).symm
  | compile input =>
    rw [perform, run_map, compile, resolving, fetching_run, Request.walk, run_ignored]

end Catalog

/-! ## Histories with a journal -/

/-- What can happen to a catalog and its records: a step, or that the expired records are cleared away. -/
inductive Event where
  | step (step : Step)
  | clearing

/-- A catalog, and the journal of all that was loaded on the way to it. -/
structure Observed where
  catalog : Catalog
  journal : Cache.Journal

namespace Observed

/-- The traffic with its journal. -/
def noted (o : Observed) : Cache.Noted := ⟨o.catalog.traffic, o.journal⟩

/-- The catalog in the middle of a request that has made some fetches. -/
def paused (o : Observed) (n : Cache.Noted) : Catalog := { o.catalog with traffic := n.traffic }

/-- A catalog at rest is one in the middle of a request that has not fetched yet. -/
theorem paused_noted (o : Observed) : o.paused o.noted = o.catalog := rfl

/-- The walk of a request, noted. -/
def walked (o : Observed) (owner : Owner) (r : Request) : Cache.Noted :=
  ((r.walk o.catalog.tableAccess owner (Cache.notedLookups o.catalog.backing owner)).run o.noted).2

/-- What is observed behind an event. -/
def after (o : Observed) : Event → Observed
  | .step (.request owner r) => ⟨o.catalog.after (.request owner r), (o.walked owner r).journal⟩
  | .step (.advance milliseconds) => ⟨o.catalog.after (.advance milliseconds), o.journal⟩
  | .clearing => ⟨o.catalog.clearExpired, o.journal⟩

/-- A noted walk is one, and leaves the traffic that the request leaves. -/
theorem walk_noted {o : Observed} (hup : o.catalog.down = []) (owner : Owner) (r : Request) :
    (o.walked owner r).traffic = (o.catalog.after (.request owner r)).traffic ∧
      Cache.NotedWalk o.catalog.backing owner o.noted (o.walked owner r) := by
  obtain ⟨-, ⟨htraffic, hwalk⟩, -⟩ := Request.walk_agrees
    (Cache.lookups_noted o.catalog.backing owner o.noted) o.catalog.tableAccess owner r o.noted
    o.catalog.traffic ⟨rfl, .refl⟩
  exact ⟨htraffic.trans (Catalog.perform_traffic hup owner r).symm, hwalk⟩

end Observed

/-- What is observed of a new catalog behind some events. -/
def observed (settings : Settings) (schema : Schema) (events : List Event) : Observed :=
  events.foldl Observed.after ⟨.fresh settings schema .empty, .blank⟩

theorem observed_concat (settings : Settings) (schema : Schema) (events : List Event) (event : Event) :
    observed settings schema (events ++ [event]) = (observed settings schema events).after event :=
  List.foldl_concat ..

end QueryCatalog
