/-
  Walks over the cache.

  Every lookup of a walk may write into the cache that the next one reads.  All that a walk does to the
  cache is a run of fetches by its owner (`Walked`), so that whatever a single fetch keeps, a walk
  keeps: `compile_walk` and `build_walk` say this of the two walks that requests make, together with
  what their results are built over.

  Both are instances of one relation, `sameBetween`: two computations that, begun on related states,
  end in the same way and leave related states.
-/
import QueryCatalog.Proofs.CacheFetch
import QueryCatalog.Proofs.ResolveWalk

namespace QueryCatalog.Cache

/-- Two computations that end in the same way when begun on related states, and leave related
    states. -/
def sameBetween {σ τ : Type} (S : σ → τ → Prop) :
    Agreement (ExceptT Error (StateM σ)) (ExceptT Error (StateM τ)) where
  holds P x y := ∀ t t', S t t' →
    (x.run t).1 = (y.run t').1 ∧ S (x.run t).2 (y.run t').2 ∧ ∀ a, (x.run t).1 = .ok a → P a
  pure ha t t' hS := by
    refine ⟨rfl, hS, fun a heq => ?_⟩
    cases heq
    exact ha
  bind {_ _ _ _ x y f g} hx hf t t' hS := by
    obtain ⟨hresult, hleft, hP⟩ := hx t t' hS
    cases hrun : x.run t with
    | mk r u =>
      cases hrun' : y.run t' with
      | mk r' u' =>
        rw [hrun, hrun'] at hresult hleft
        rw [hrun] at hP
        subst hresult
        cases r with
        | ok a =>
          rw [run_bind_ok hrun, run_bind_ok hrun']
          exact hf a (hP a rfl) u u' hleft
        | error e =>
          rw [run_bind_error hrun, run_bind_error hrun']
          exact ⟨rfl, hleft, fun b heq => by cases heq⟩
  fail e t t' hS := ⟨rfl, hS, fun a heq => by cases heq⟩

/-- Two computations that fetch, between states of the cache. -/
def sameUnder (S : Traffic → Traffic → Prop) : Agreement Fetching Fetching := sameBetween S

/-! ## Runs of fetches -/

/-- `t'` is what some fetches by an owner leave of `t`. -/
inductive Walked (b : Backing) (owner : Owner) (t : Traffic) : Traffic → Prop
  | refl : Walked b owner t t
  | aliased {t' : Traffic} (h : Walked b owner t t') (lookup : Lookup) :
    Walked b owner t ((fetch b b.store.aliases owner lookup).run t').2
  | query {t' : Traffic} (h : Walked b owner t t') (lookup : Lookup) :
    Walked b owner t ((fetch b b.store.queries owner lookup).run t').2

/-- Everything that an owner can fetch from `t` on is known. -/
structure Fetchable (b : Backing) (owner : Owner) (t : Traffic) (k : Known) : Prop where
  aliased : ∀ {t' : Traffic}, Walked b owner t t' → ∀ {lookup : Lookup} {e : Alias},
    ((fetch b b.store.aliases owner lookup).run t').1 = .ok e → k.aliased e
  query : ∀ {t' : Traffic}, Walked b owner t t' → ∀ {lookup : Lookup} {e : StoredQuery},
    ((fetch b b.store.queries owner lookup).run t').1 = .ok e → k.query e

variable {b : Backing} {owner : Owner} {t : Traffic}

/-- Seen from `t`, a walk does nothing but fetch. -/
theorem lookups_between {k : Known} (h : Fetchable b owner t k) :
    (sameUnder fun u u' => u = u' ∧ Walked b owner t u).Between k (lookups b owner)
      (lookups b owner) where
  aliased lookup := by
    rintro u _ ⟨rfl, hwalked⟩
    exact ⟨rfl, ⟨rfl, hwalked.aliased lookup⟩, fun e he => h.aliased hwalked he⟩
  query lookup := by
    rintro u _ ⟨rfl, hwalked⟩
    exact ⟨rfl, ⟨rfl, hwalked.query lookup⟩, fun e he => h.query hwalked he⟩

theorem fetchable_true (b : Backing) (owner : Owner) (t : Traffic) :
    Fetchable b owner t ⟨fun _ => True, fun _ => True⟩ :=
  ⟨fun _ _ _ _ => trivial, fun _ _ _ _ => trivial⟩

/-- Compiling is a run of fetches, and compiles a query over what was fetched. -/
theorem compile_walk (b : Backing) (owner : Owner) (t : Traffic) (input : Input.Query) :
    Walked b owner t ((Resolve.compile (lookups b owner) input).run t).2 ∧
      ∀ k, Fetchable b owner t k → ∀ compiled,
        ((Resolve.compile (lookups b owner) input).run t).1 = .ok compiled →
          ∃ q : Sql.Query, q.Uses k ∧ q.limit = input.limit ∧ compiled = q.compiled := by
  have hwalk := fun k (hk : Fetchable b owner t k) =>
    Resolve.compile_agrees (lookups_between hk) input t t ⟨rfl, .refl⟩
  exact ⟨(hwalk _ (fetchable_true b owner t)).2.1.2, fun k hk => (hwalk k hk).2.2⟩

/-- Building an alias is a run of fetches, and builds it over what was fetched. -/
theorem build_walk (access : TableAccess) (b : Backing) (owner : Owner) (t : Traffic)
    (request : Input.AliasRequest) :
    Walked b owner t ((AliasTarget.build access (lookups b owner) owner request).run t).2 ∧
      ∀ k, Fetchable b owner t k → ∀ body,
        ((AliasTarget.build access (lookups b owner) owner request).run t).1 = .ok body →
          AliasTarget.Built access k owner request.name body := by
  have hwalk := fun k (hk : Fetchable b owner t k) =>
    AliasTarget.build_agrees (lookups_between hk) access owner request t t ⟨rfl, .refl⟩
  exact ⟨(hwalk _ (fetchable_true b owner t)).2.1.2, fun k hk => (hwalk k hk).2.2⟩

end QueryCatalog.Cache
