/-
  What a fetch checks.

  The records of the cache may be anybody's, and what they lead to is checked before it is given: it has
  to be an entity, of the owner who asks, and with the name that was asked for.  A number that was asked
  for is not compared.  The pointer under it is trusted to lead to the entity that has it, so that
  whichever entity of the owner it leads to is given.

  Nothing is assumed here about the store, the records or the services.
-/
import QueryCatalog.Proofs.OwnerIsolation
import QueryCatalog.Proofs.Warmth

namespace QueryCatalog

namespace Cache

variable {β : Type} [Cached β] {records : TimedMap ByteArray} {now : Nat} {owner : Owner}
  {lookup : Lookup} {e : Entity β}

/-- The entity that the records lead to from the pointer of a lookup, whatever entity that is. -/
def pointed? (records : TimedMap ByteArray) (now : Nat) (owner : Owner) (lookup : Lookup) :
    Option (Entity β) := do
  let pointer ← records.get? now (pointerKey (Body.kind β) owner lookup)
  let key ← textOf? pointer
  let bytes ← records.get? now key
  entity? bytes

/-- What the records have for a lookup is what they lead to, if it passes the check. -/
theorem found?_eq_some_iff :
    found? records now owner lookup = some e ↔
      pointed? records now owner lookup = some e ∧ accepts owner lookup e = true := by
  simp only [found?, pointed?, Option.bind_eq_bind, Option.bind_eq_some_iff,
    Option.filter_eq_some_iff]
  constructor
  · rintro ⟨pointer, hpointer, key, hkey, bytes, hbytes, hentity, haccepts⟩
    exact ⟨⟨pointer, hpointer, key, hkey, bytes, hbytes, hentity⟩, haccepts⟩
  · rintro ⟨⟨pointer, hpointer, key, hkey, bytes, hbytes, hentity⟩, haccepts⟩
    exact ⟨pointer, hpointer, key, hkey, bytes, hbytes, hentity, haccepts⟩

/-- A pointer to the object of an entity leads to the entity. -/
theorem pointed?_of_live [LawfulCached β]
    (hpointer : records.get? now (pointerKey (Body.kind β) owner lookup) =
      some (bytesOf (objectKeyOf e)))
    (hobject : records.get? now (objectKeyOf e) = some (written e)) :
    pointed? records now owner lookup = some e := by
  simp only [pointed?, hpointer, Option.bind_eq_bind, Option.bind_some, textOf?_bytesOf, hobject,
    LawfulCached.entity?_written]

end Cache

namespace Catalog

/-- What a way to fetch checks of what it gives to an owner.  That is all: the last field says that the
    number is not checked. -/
structure Checks {β : Type} [Cache.Cached β] (fetch : Owner → Lookup → Action (Entity β))
    (c : Catalog) (owner : Owner) : Prop where
  own : ∀ lookup e, ((fetch owner lookup).run c).1 = .ok e → Body.owner e.body = owner
  named : ∀ s e, ((fetch owner (.name s)).run c).1 = .ok e → Body.name e.body = s
  /-- Another number than the one that was asked for comes from the pointer under that one. -/
  numbered : ∀ n e, ((fetch owner (.id n)).run c).1 = .ok e →
    e.id = n ∨ Cache.pointed? c.traffic.records c.now owner (.id n) = some e
  /-- Whatever the pointer under a number leads to is given, if it is the owner's. -/
  unnumbered : c.down = [] → ∀ n e, Cache.pointed? c.traffic.records c.now owner (.id n) = some e →
    Body.owner e.body = owner → (fetch owner (.id n)).run c = (.ok e, c)

/-- Whatever the records hold, a fetch checks the entity that they lead to before it is given. -/
theorem checks_of_fetchesFrom {β : Type} [Cache.Cached β]
    {fetch : Owner → Lookup → Action (Entity β)} {table : Store → Table β}
    (hfetch : FetchesFrom fetch table) (c : Catalog) (owner : Owner) : Checks fetch c owner where
  own := by
    intro lookup e he
    rw [hfetch] at he
    exact Cache.fetch_owner he
  named := by
    intro s e he
    rw [hfetch] at he
    have haccepts := Cache.fetch_accepts he
    simp only [Cache.accepts, Bool.and_eq_true, beq_iff_eq] at haccepts
    exact haccepts.2
  numbered := by
    intro n e he
    rw [hfetch] at he
    -- a row has its number checked, a record only the owner
    rcases Cache.fetch_source he with hfound | hanswers
    · exact .inr (Cache.found?_eq_some_iff.mp hfound).1
    · simp only [Entity.answers, Bool.and_eq_true, beq_iff_eq] at hanswers
      exact .inl hanswers.1
  unnumbered := by
    intro hup n e hpointed howner
    have haccepts : Cache.accepts owner (.id n) e = true := by simp [Cache.accepts, howner]
    have hfound := Cache.found?_eq_some_iff.mpr ⟨hpointed, haccepts⟩
    rw [hfetch, Cache.fetch_of_found? (b := c.backing) hup hfound]

/-- **What a fetch checks.**  Whatever the store and the cache hold, and whichever services are in
    reach: what a fetch gives belongs to the owner and has the name that was asked for; it has the
    number that was asked for, too, or else the pointer under that number leads to it. -/
theorem fetch_checks (c : Catalog) (owner : Owner) :
    Checks fetchAlias c owner ∧ Checks fetchQuery c owner :=
  ⟨checks_of_fetchesFrom fetchAlias_from c owner, checks_of_fetchesFrom fetchQuery_from c owner⟩

/-! ## A pointer that leads elsewhere -/

/-- Names two columns. -/
def twoColumns : List Step :=
  [ .request 1 (.createAlias ⟨"total", .expr (.column "orders" "total")⟩),
    .request 1 (.createAlias ⟨"buyer", .expr (.column "orders" "customer_id")⟩) ]

/-- The second alias. -/
def buyer : Alias := ⟨2, ⟨1, "buyer", "\x60orders\x60.\x60customer_id\x60", false, false⟩⟩

/-- The object of the second alias, and under the first number a pointer to it. -/
def crossedRecords : TimedMap ByteArray where
  records :=
    [ ("alias:id:1", ⟨Cache.bytesOf "alias:obj:2:1:buyer", 1000⟩),
      ("alias:obj:2:1:buyer", ⟨Cache.written buyer, 1000⟩) ]
  distinct := by decide

/-- A catalog with both aliases behind these records. -/
def crossed : Catalog :=
  ((fresh .standard Sample.schema .empty).run twoColumns).withRecords crossedRecords

/-- The pointer of the number leads to the buyer. -/
theorem crossed_pointed : Cache.pointed? crossed.traffic.records crossed.now 1 (.id 1) = some buyer := by
  have hnow : crossed.now = 0 := by decide +kernel
  have hpointer : Cache.pointerKey (Body.kind AliasBody) 1 (.id 1) = "alias:id:1" := by decide +kernel
  have hobject : Cache.objectKeyOf buyer = "alias:obj:2:1:buyer" := by decide +kernel
  rw [hnow]
  refine Cache.pointed?_of_live ?_ ?_
  · rw [hpointer, hobject]
    simp [crossed, withRecords, crossedRecords, TimedMap.get?, TimedMap.find?, Timed.isExpired]
  · rw [hobject]
    simp [crossed, withRecords, crossedRecords, TimedMap.get?, TimedMap.find?, Timed.isExpired]

/-- The first number gives the second alias, though the first alias is stored. -/
theorem crossed_misnumbered :
    crossed.store.aliases.rows.map Entity.id = [1, 2] ∧
      (fetchAlias 1 (.id 1)).run crossed = (.ok buyer, crossed) ∧ buyer.id ≠ 1 := by
  have hrows : crossed.store.aliases.rows.map Entity.id = [1, 2] := by decide +kernel
  have hup : crossed.down = [] := by decide +kernel
  have hchecks := checks_of_fetchesFrom fetchAlias_from crossed 1
  exact ⟨hrows, hchecks.unnumbered hup 1 buyer crossed_pointed rfl, by decide⟩

end Catalog

end QueryCatalog
