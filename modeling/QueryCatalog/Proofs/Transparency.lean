/-
  The cache cannot be seen.

  While nothing is deleted, every live record is a record of an entity in the store, so that a fetch
  gives what the store has (`fetch_eq_get`), be the records warm, cold or expired.  A compilation makes
  many fetches, each of which may write records that the next one reads; the relation `answersAs`
  carries the invariant from one to the next, while the other side of it, reading straight from the
  store, has nothing to carry.

  Records that would outlive the clock cannot be written; with them a fetch fails, so that the one
  condition on the life of records is that it ends before the clock does.
-/
import QueryCatalog.Proofs.History
import QueryCatalog.Resolve.Query
import QueryCatalog.Sample

namespace QueryCatalog

namespace Cache

/-- A computation that fetches and a plain one, where the first has the result of the second on all
    traffic with an invariant, and keeps the invariant. -/
def answersAs (I : Traffic → Prop) : Agreement Fetching (Except Error) where
  holds P x y := ∀ t, I t → (x.run t).1 = y ∧ I (x.run t).2 ∧ ∀ a, y = .ok a → P a
  pure ha t hI := by
    refine ⟨rfl, hI, fun a heq => ?_⟩
    cases heq
    exact ha
  bind {_ _ _ _ x y f g} hx hf t hI := by
    obtain ⟨hresult, hleft, hP⟩ := hx t hI
    cases hrun : x.run t with
    | mk r u =>
      rw [hrun] at hresult hleft
      subst hresult
      cases r with
      | ok a =>
        rw [run_bind_ok hrun]
        exact hf a (hP a rfl) u hleft
      | error e =>
        rw [run_bind_error hrun]
        exact ⟨rfl, hleft, fun b heq => by cases heq⟩
  fail e t hI := ⟨rfl, hI, fun a heq => by cases heq⟩

variable {β : Type} [Cached β] [LawfulCached β] {b : Backing} {table : Table β} {past : List (Entity β)}

/-- Where every live record is of an entity in the table, a fetch gives what the table has. -/
theorem fetch_eq_get {t : Traffic} (hup : b.down = []) (hend : b.now + b.ttl < clockEnd)
    (htable : table.Remembers past) (hbacked : Backed (· ∈ table.rows) b.now t.records)
    (owner : Owner) (lookup : Lookup) :
    ((fetch b table owner lookup).run t).1 = table.get owner lookup := by
  have hcases := fetch_cases hup table owner lookup t
  generalize (fetch b table owner lookup).run t = r at hcases
  rw [Table.get]
  cases hcases with
  | hit hfound =>
    -- what the records have is a row, and the one that the table finds
    obtain ⟨hmem, hanswers, -, -⟩ := hbacked.found hfound
    rw [htable.find?_eq_some_iff.mpr ⟨hmem, hanswers⟩]
  | missing _ hrow => rw [hrow]
  | overflow _ _ hover => exact absurd hend hover
  | loaded _ hrow _ _ => rw [hrow]

end Cache

namespace Catalog

/-- Through the cache, an owner's lookups give what the store has. -/
theorem Coherent.lookups_answer {c : Catalog} (h : c.Coherent c.stored)
    (hend : c.now + c.settings.ttl < clockEnd) (owner : Owner) :
    (Cache.answersAs fun t => c.stored.Backs c.now t.records).Between
      ⟨fun _ => True, fun _ => True⟩ (Cache.lookups c.backing owner) (c.store.lookups owner) where
  aliased lookup _ ht :=
    ⟨Cache.fetch_eq_get (b := c.backing) h.up hend h.aliases ht.aliases owner lookup,
      h.backs_fetchAlias ht owner lookup, fun _ _ => trivial⟩
  query lookup _ ht :=
    ⟨Cache.fetch_eq_get (b := c.backing) h.up hend h.queries ht.queries owner lookup,
      h.backs_fetchQuery ht owner lookup, fun _ _ => trivial⟩

/-- So compiling through the cache gives what compiling straight from the store gives. -/
theorem Coherent.compile_direct {c : Catalog} (h : c.Coherent c.stored)
    (hend : c.now + c.settings.ttl < clockEnd) (owner : Owner) (input : Input.Query) :
    ((compile owner input).run c).1 = Resolve.compile (c.store.lookups owner) input := by
  rw [compile, resolving, fetching_run]
  exact (Resolve.compile_agrees (h.lookups_answer hend owner) input c.traffic h.backs).1

/-- **Cache transparency.**  After any requests of any owners that delete nothing, and with any life of
    records that ends before the clock does, compiling through the cache gives what compiling straight
    from the store gives. -/
theorem compile_transparent (settings : Settings) (schema : Schema) (steps : List Step)
    (hkept : ∀ step ∈ steps, step.deletes = false) (owner : Owner) (input : Input.Query) :
    let c := (fresh settings schema .empty).run steps
    c.now + c.settings.ttl < clockEnd →
      ((compile owner input).run c).1 = Resolve.compile (c.store.lookups owner) input := by
  intro c hend
  -- nothing was deleted, so that the store is the whole past
  have hcoherent : c.Coherent c.stored := run_coherent_stored settings schema hkept
  exact hcoherent.compile_direct hend owner input

/-! ## A cache half warm -/

/-- A table and a column are named and used; their records expire, and only the table is fetched
    again. -/
def halfWarmSteps : List Step :=
  [ .request 1 (.createAlias ⟨"orders", .expr (.table "orders")⟩),
    .request 1 (.createAlias ⟨"total", .expr (.column "orders" "total")⟩),
    .request 1 (.fetchAlias (.name "total")),
    .advance 4000000,
    .request 1 (.fetchAlias (.id 1)) ]

/-- Selects the column under both its references. -/
def totals : Input.Query where
  select := ⟨.list [.aliased (.name "total"), .aliased (.id 2)], .aliased (.name "orders"), none⟩
  filter := none
  groups := none
  having := none
  order := none
  limit := none

/-- With some records expired and others not, the statement is that of the store. -/
theorem compile_transparent_half_warm :
    (∀ step ∈ halfWarmSteps, step.deletes = false) ∧
      ((fresh .standard Sample.schema .empty).run halfWarmSteps).now +
        ((fresh .standard Sample.schema .empty).run halfWarmSteps).settings.ttl < clockEnd ∧
      ((compile 1 totals).run ((fresh .standard Sample.schema .empty).run halfWarmSteps)).1 =
        Resolve.compile
          (((fresh .standard Sample.schema .empty).run halfWarmSteps).store.lookups 1) totals := by
  have hkept : ∀ step ∈ halfWarmSteps, step.deletes = false := by decide
  have hend : ((fresh .standard Sample.schema .empty).run halfWarmSteps).now +
      ((fresh .standard Sample.schema .empty).run halfWarmSteps).settings.ttl < clockEnd := by
    decide +kernel
  exact ⟨hkept, hend, compile_transparent .standard Sample.schema halfWarmSteps hkept 1 totals hend⟩

end Catalog

end QueryCatalog
