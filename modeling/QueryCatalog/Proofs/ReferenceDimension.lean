/-
  By number or by name.

  An entity can be pointed at by its number or by its name, and an input may do either at each of its
  references.  The two go separate ways: they read different pointers, they look different things up
  in the table, and they leave different records behind for the references that follow.  They meet in
  the row.  While nothing is deleted a fetch gives what the table has for the lookup
  (`fetch_eq_get`), and a table has the same for the number of a row and for its name
  (`Remembers.get_eq_of_sameRow`), since no two rows share a number, and no two rows of an owner a name.

  So inputs that differ only in this are compiled alike, and fail alike: an error that names an entity
  names it by what the row says, and only a lookup that finds nothing is itself named.
-/
import QueryCatalog.Proofs.Transparency

namespace QueryCatalog

/-! ## Two lookups of one row -/

section SameRow

variable {β : Type} [Body β]

/-- Two lookups of an owner that are the same, or of which one has the number and the other the name of
    one of the owner's rows. -/
def Table.SameRow (t : Table β) (owner : Owner) (lookup lookup' : Lookup) : Prop :=
  lookup = lookup' ∨ ∃ e ∈ t.rows, Body.owner e.body = owner ∧
    (lookup = .id e.id ∧ lookup' = .name (Body.name e.body) ∨
      lookup = .name (Body.name e.body) ∧ lookup' = .id e.id)

/-- The row that answers is the one that is got. -/
theorem Table.get_of_answers {t : Table β} {past : List (Entity β)} (h : t.Remembers past)
    {owner : Owner} {lookup : Lookup} {e : Entity β} (he : e ∈ t.rows)
    (hanswers : e.answers owner lookup = true) : t.get owner lookup = .ok e := by
  rw [Table.get, h.find?_eq_some_iff.mpr ⟨he, hanswers⟩]

/-- A table has the same for two lookups of one row. -/
theorem Table.Remembers.get_eq_of_sameRow {t : Table β} {past : List (Entity β)}
    (h : t.Remembers past) {owner : Owner} {lookup lookup' : Lookup}
    (hsame : t.SameRow owner lookup lookup') : t.get owner lookup = t.get owner lookup' := by
  rcases hsame with rfl | ⟨e, he, rfl, hlookups⟩
  · rfl
  · have hid := Table.get_of_answers h he e.answers_id
    have hname := Table.get_of_answers h he e.answers_name
    rcases hlookups with ⟨rfl, rfl⟩ | ⟨rfl, rfl⟩
    · rw [hid, hname]
    · rw [hid, hname]

end SameRow

/-- Where nothing but the references differ, and these only in whether an entity that the owner has in the
    store is pointed at by its number or by its name. -/
def Store.redirections (s : Store) (owner : Owner) : Input.Likeness where
  keyword := Eq
  aliased := s.aliases.SameRow owner
  query := s.queries.SameRow owner

namespace Catalog

/-- Through the cache, a lookup gives what the store has for another lookup of the same row. -/
theorem Coherent.lookups_carry {c : Catalog} (h : c.Coherent c.stored)
    (hend : c.now + c.settings.ttl < clockEnd) (owner : Owner) :
    (Cache.answersAs fun t => c.stored.Backs c.now t.records).Carries
      ⟨fun _ => True, fun _ => True⟩ (c.store.redirections owner) (Cache.lookups c.backing owner)
      (c.store.lookups owner) where
  keyword κ _ _ _ heq := heq ▸ Resolve.keyword_agrees _ κ _
  aliased {lookup lookup'} hsame t ht := by
    have hget : c.store.aliases.get owner lookup = c.store.aliases.get owner lookup' :=
      h.aliases.get_eq_of_sameRow hsame
    obtain ⟨hresult, hleft, hknown⟩ := (h.lookups_answer hend owner).aliased lookup t ht
    exact ⟨hresult.trans hget, hleft, fun _ _ => trivial⟩
  query {lookup lookup'} hsame t ht := by
    have hget : c.store.queries.get owner lookup = c.store.queries.get owner lookup' :=
      h.queries.get_eq_of_sameRow hsame
    obtain ⟨hresult, hleft, hknown⟩ := (h.lookups_answer hend owner).query lookup t ht
    exact ⟨hresult.trans hget, hleft, fun _ _ => trivial⟩

/-- **How an entity is pointed at does not matter.**  After any requests of any owners that delete
    nothing, and with any life of records that ends before the clock does, let two inputs differ, at any
    of their references, in whether an entity that the owner has is pointed at by its number or by its
    name.  Then compiling them gives the same: the same statement with the same number of columns, or the
    same error. -/
theorem compile_redirected (settings : Settings) (schema : Schema) (steps : List Step)
    (hkept : ∀ step ∈ steps, step.deletes = false) (owner : Owner) (input input' : Input.Query) :
    let c := (fresh settings schema .empty).run steps
    c.now + c.settings.ttl < clockEnd → input.Like (c.store.redirections owner) input' →
      ((compile owner input).run c).1 = ((compile owner input').run c).1 := by
  intro c hend hlike
  have hcoherent : c.Coherent c.stored := run_coherent_stored settings schema hkept
  -- each is compiled through the cache, and they meet over the store
  calc ((compile owner input).run c).1
      = Resolve.compile (c.store.lookups owner) input' := by
        rw [compile, resolving, fetching_run]
        exact (Resolve.compile_alike (hcoherent.lookups_carry hend owner) hlike c.traffic
          hcoherent.backs).1
    _ = ((compile owner input').run c).1 := (hcoherent.compile_direct hend owner input').symm

/-! ## A query in both ways -/

/-- Names the orders and their totals, and stores a query of them; the records expire, and only the
    orders are fetched again. -/
def storedTotals : List Step :=
  [ .request 1 (.createAlias ⟨"orders", .expr (.table "orders")⟩),
    .request 1 (.createAlias ⟨"total", .expr (.column "orders" "total")⟩),
    .request 1 (.createQuery "totals"
      { select := ⟨.list [.aliased (.name "total")], .aliased (.name "orders"), none⟩
        filter := none
        groups := none
        having := none
        order := none
        limit := none }),
    .advance 4000000,
    .request 1 (.fetchAlias (.id 1)) ]

/-- The totals that are among all totals, with a reference for each place where one can stand. -/
def amongTotals (source item operand among stored : Lookup) : Input.Query where
  select := ⟨.list [.aliased item], .aliased source, none⟩
  filter := some (.connective (.member (.aliased operand) (.query among) false) "and"
    (.existence stored false))
  groups := none
  having := none
  order := none
  limit := none

/-- Over a store with these rows the existence test keeps its reference, the other four change theirs. -/
theorem amongTotals_like {s : Store}
    (horders : (⟨1, ⟨1, "orders", "`orders`", true, false⟩⟩ : Alias) ∈ s.aliases.rows)
    (htotal : (⟨2, ⟨1, "total", "`orders`.`total`", false, false⟩⟩ : Alias) ∈ s.aliases.rows)
    (htotals : (⟨1, ⟨1, "totals", "SELECT `orders`.`total` AS `total` FROM `orders`;", 1⟩⟩ :
      StoredQuery) ∈ s.queries.rows) :
    (amongTotals (.name "orders") (.name "total") (.id 2) (.name "totals") (.id 1)).Like
      (s.redirections 1) (amongTotals (.id 1) (.id 2) (.name "total") (.id 1) (.id 1)) := by
  refine ⟨⟨?_, ?_, .none⟩, .some ?_, .none, .none, .none, rfl⟩
  · exact ⟨_, rfl, .cons ⟨_, rfl, .inr ⟨_, htotal, rfl, .inr ⟨rfl, rfl⟩⟩⟩ .nil⟩
  · exact ⟨_, rfl, .inr ⟨_, horders, rfl, .inr ⟨rfl, rfl⟩⟩⟩
  · refine ⟨_, _, _, rfl, rfl, ⟨_, _, rfl, ?_, ?_⟩, ⟨_, rfl, .inl rfl⟩⟩
    · exact ⟨_, rfl, .inr ⟨_, htotal, rfl, .inl ⟨rfl, rfl⟩⟩⟩
    · exact ⟨_, rfl, .inr ⟨_, htotals, rfl, .inr ⟨rfl, rfl⟩⟩⟩

/-- Numbers or names, with the cache half warm: the statement is the same. -/
theorem compile_redirected_among_totals :
    let c := (fresh .standard Sample.schema .empty).run storedTotals
    let byName := amongTotals (.name "orders") (.name "total") (.id 2) (.name "totals") (.id 1)
    let byNumber := amongTotals (.id 1) (.id 2) (.name "total") (.id 1) (.id 1)
    (∀ step ∈ storedTotals, step.deletes = false) ∧ c.now + c.settings.ttl < clockEnd ∧
      byName.Like (c.store.redirections 1) byNumber ∧
      ((compile 1 byName).run c).1.toOption.isSome = true ∧
      ((compile 1 byName).run c).1 = ((compile 1 byNumber).run c).1 := by
  intro c byName byNumber
  have hkept : ∀ step ∈ storedTotals, step.deletes = false := by decide
  have hend : c.now + c.settings.ttl < clockEnd := by decide +kernel
  have hlike : byName.Like (c.store.redirections 1) byNumber :=
    amongTotals_like (by decide +kernel) (by decide +kernel) (by decide +kernel)
  have hcompiled : ((compile 1 byName).run c).1.toOption.isSome = true := by
    rw [(run_coherent_stored .standard Sample.schema hkept).compile_direct hend 1 byName]
    decide +kernel
  exact ⟨hkept, hend, hlike, hcompiled,
    compile_redirected .standard Sample.schema storedTotals hkept 1 byName byNumber hend hlike⟩

end Catalog

end QueryCatalog
