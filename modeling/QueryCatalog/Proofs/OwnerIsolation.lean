/-
  Owners are kept apart whatever the cache holds.

  Here nothing is assumed about the records: they may be stale, corrupted, or put there by somebody
  else, under any keys.  What a fetch takes from them it checks, and what it takes from the store is
  looked up for the owner, so that whatever it gives belongs to the owner who asks (`fetch_owner`).
  That is enough to know all entities of a resolved query, since a walk does nothing but fetch and then
  checks the place where an entity is to stand.
-/
import QueryCatalog.Proofs.History
import QueryCatalog.Proofs.TreeNodes
import QueryCatalog.Sample

namespace QueryCatalog

/-! ## One fetch -/

namespace Cache

variable {β : Type} [Cached β] {b : Backing} {owner : Owner} {lookup : Lookup} {t : Traffic}
  {e : Entity β}

/-- A read that succeeds gives what the records have. -/
theorem read?_eq_ok {key : String} {value : Option ByteArray} {t' : Traffic}
    (h : (read? b key).run t = (.ok value, t')) : value = t.records.get? b.now key ∧ t' = t := by
  cases hreach : b.reach .cacheReads with
  | error e =>
    simp only [read?, hreach] at h
    cases h
  | ok u =>
    simp only [read?, hreach] at h
    cases h
    exact ⟨rfl, rfl⟩

/-- What is taken from the records is what they have for the lookup, whatever they are. -/
theorem found?_of_cached?
    (h : ((cached? b owner lookup : Fetching (Option (Entity β))).run t).1 = .ok (some e)) :
    found? t.records b.now owner lookup = some e := by
  rw [cached?] at h
  obtain ⟨pointer, t₁, hread, h⟩ := run_bind_eq_ok_iff.mp h
  obtain ⟨hpointer, rfl⟩ := read?_eq_ok hread
  rw [found?, ← hpointer]
  cases pointer with
  | none => cases h
  | some pointer =>
    simp only [Option.bind_eq_bind, Option.bind_some]
    cases htext : textOf? pointer with
    | none =>
      simp only [htext] at h
      cases h
    | some key =>
      simp only [htext] at h
      obtain ⟨bytes, t₂, hread, h⟩ := run_bind_eq_ok_iff.mp h
      obtain ⟨hbytes, rfl⟩ := read?_eq_ok hread
      rw [Option.bind_some, ← hbytes]
      cases bytes with
      | none => cases h
      | some bytes => exact Except.ok.inj h

/-- What the records have for a lookup has passed the check. -/
theorem accepts_of_found? {records : TimedMap ByteArray} {now : Nat}
    (h : found? records now owner lookup = some e) : accepts owner lookup e = true := by
  simp only [found?, Option.bind_eq_bind, Option.bind_eq_some_iff, Option.filter_eq_some_iff] at h
  obtain ⟨pointer, -, key, -, bytes, -, -, haccepts⟩ := h
  exact haccepts

/-- What is loaded answers the lookup. -/
theorem load_answers {table : Table β}
    (h : ((load b table owner lookup).run t).1 = .ok (some e)) : e.answers owner lookup = true := by
  rw [load] at h
  obtain ⟨-, t₁, -, h⟩ := run_bind_eq_ok_iff.mp h
  obtain ⟨-, t₂, -, h⟩ := run_bind_eq_ok_iff.mp h
  have hfind : table.find? owner lookup = some e := Except.ok.inj h
  exact (Table.answers_of_find? hfind).2

/-- Whatever the records hold and whichever services are in reach, what is fetched comes from the records
    or answers the lookup. -/
theorem fetch_source {table : Table β} (h : ((fetch b table owner lookup).run t).1 = .ok e) :
    found? t.records b.now owner lookup = some e ∨ e.answers owner lookup = true := by
  rw [fetch] at h
  obtain ⟨hit, t₁, hcached, h⟩ := run_bind_eq_ok_iff.mp h
  cases hit with
  | some e' =>
    have heq : e' = e := Except.ok.inj h
    subst heq
    exact .inl (found?_of_cached? (congrArg Prod.fst hcached))
  | none =>
    obtain ⟨row, t₂, hload, h⟩ := run_bind_eq_ok_iff.mp h
    cases row with
    | none => cases h
    | some e' =>
      obtain ⟨-, t₃, -, h⟩ := run_bind_eq_ok_iff.mp h
      have heq : e' = e := Except.ok.inj h
      subst heq
      -- what is written to the cache is not read back
      exact .inr (load_answers (congrArg Prod.fst hload))

/-- What is fetched has passed the check. -/
theorem fetch_accepts {table : Table β} (h : ((fetch b table owner lookup).run t).1 = .ok e) :
    accepts owner lookup e = true := by
  rcases fetch_source h with hfound | hanswers
  · exact accepts_of_found? hfound
  · exact accepts_of_answers hanswers

/-- What is fetched belongs to the owner who asks. -/
theorem fetch_owner {table : Table β} (h : ((fetch b table owner lookup).run t).1 = .ok e) :
    Body.owner e.body = owner := by
  have haccepts := fetch_accepts h
  simp only [accepts, Bool.and_eq_true, beq_iff_eq] at haccepts
  exact haccepts.1

/-- The entities of one owner. -/
def ownedBy (owner : Owner) : Known where
  aliased target := target.body.owner = owner
  query query := query.body.owner = owner

/-- An owner can fetch what belongs to them and nothing else. -/
theorem fetchable_own (b : Backing) (owner : Owner) (t : Traffic) :
    Fetchable b owner t (ownedBy owner) where
  aliased _ _ _ he := fetch_owner he
  query _ _ _ he := fetch_owner he

end Cache

/-! ## Resolved queries -/

/-- What the entity at a node has to be, for the owner who resolves and for the place where it stands. -/
def Sql.Node.Proper (owner : Owner) : Sql.Node → Prop
  | .call _ => True
  | .operand target => target.body.owner = owner ∧ target.body.isTable = false
  | .table target => target.body.owner = owner ∧ target.body.isTable = true
  | .scalar subquery =>
    subquery.query.body.owner = owner ∧ subquery.query.body.columnCount = 1 ∧
      subquery.query.body.scalar = .ok subquery.sql
  | .member query => query.body.owner = owner ∧ query.body.columnCount = 1
  | .existence query => query.body.owner = owner
  | .source query => query.body.owner = owner

/-- Over the entities of an owner, what stands at a node is proper for its place. -/
theorem Sql.Node.Uses.proper {owner : Owner} {node : Sql.Node} (h : node.Uses (Cache.ownedBy owner)) :
    node.Proper owner := by
  cases node with
  | call function => trivial
  | operand target => exact h
  | table target => exact h
  | scalar subquery =>
    obtain ⟨howner, hsql⟩ := h
    exact ⟨howner, QueryBody.columnCount_of_scalar hsql, hsql⟩
  | member query => exact h
  | existence query => exact h
  | source query => exact h

namespace Catalog

/-- **Owner isolation.**  Whatever the store and the cache hold, all entities in a resolved query
    belong to the owner who resolves it, and each may stand where it stands. -/
theorem resolve_isolated (c : Catalog) (owner : Owner) (input : Input.Query) (q : Sql.Query)
    (hresolve : ((resolving owner fun look => Resolve.query look input).run c).1 = .ok q) :
    ∀ clause, ∀ node ∈ q.nodes clause, node.Proper owner := by
  intro clause node hnode
  rw [resolving, fetching_run] at hresolve
  have hfetchable := Cache.fetchable_own c.backing owner c.traffic
  -- seen from the traffic at the start, the walk only fetches, and fetches only the owner's own
  obtain ⟨-, -, hwalk⟩ := Resolve.query_agrees (Cache.lookups_between hfetchable) input c.traffic
    c.traffic ⟨rfl, .refl⟩
  obtain ⟨huses, -⟩ := hwalk q hresolve
  exact (Sql.Query.node_uses huses clause node hnode).proper

/-! ## A poisoned cache -/

/-- Under the keys of owner 1 stand an alias of somebody else, and a number that leads to bytes that
    are no text. -/
def poisonedRecords : TimedMap ByteArray where
  records :=
    [ ("alias:name:1:orders", ⟨Cache.bytesOf "planted", 1000⟩),
      ("planted", ⟨Cache.written (⟨1, ⟨2, "orders", "`pins`", true, false⟩⟩ : Alias), 1000⟩),
      ("alias:id:6", ⟨⟨#[0xFF, 0xFE]⟩, 1000⟩) ]
  distinct := by decide

/-- The sample catalog behind the poisoned cache. -/
def poisoned : Catalog := Sample.catalog.withRecords poisonedRecords

/-- Uses both poisoned keys. -/
def poisonedQuery : Input.Query where
  select := ⟨.all, .aliased (.name "orders"), none⟩
  filter := some (.aliased (.id 6))
  groups := none
  having := none
  order := none
  limit := none

/-- What the store has, and nothing of what was planted. -/
def unpoisonedStatement : String := "SELECT * FROM `orders` WHERE (`orders`.`total` > 100);"

/-- What was planted is passed over, and the statement is that of the store. -/
theorem resolve_isolated_poisoned :
    ∃ q, ((resolving 1 fun look => Resolve.query look poisonedQuery).run poisoned).1 = .ok q ∧
      q.render = unpoisonedStatement ∧ ∀ clause, ∀ node ∈ q.nodes clause, node.Proper 1 := by
  have hrender :
      (((resolving 1 fun look => Resolve.query look poisonedQuery).run poisoned).1.toOption.map
        Sql.Query.render) = some unpoisonedStatement := by
    decide +kernel
  obtain ⟨q, hq, htext⟩ := Option.map_eq_some_iff.mp hrender
  have hresolve := eq_ok_of_toOption hq
  exact ⟨q, hresolve, htext, resolve_isolated poisoned 1 poisonedQuery q hresolve⟩

end Catalog

end QueryCatalog
