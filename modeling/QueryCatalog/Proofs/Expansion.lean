/-
  Where aliases come from, and what they expand to.

  An alias keeps the text of what it stands for and two flags; the tree that it was made from is gone.
  The history still has it: an alias is `BuiltFrom` a tree if some step of the history created it, and
  its target had been resolved to that tree.

  Put for every alias in a tree the tree that it was built from, and go on inside: that is the
  expansion of the tree.  `Expands` lists the functions that are called in it.  Stored queries are not
  entered.

  1. **Expansions exist** (`run_expanded`), for every alias that was ever stored and is not of a table:
     by induction on the history, since a tree has only older aliases in it.
  2. **Flags are truthful** (`run_truthful`, `Expands.any_eq`): a flag says what was seen in the tree, where
     the aliases are seen by their flags; so the flags tell of the whole expansion.
-/
import Mathlib.Data.List.Induction
import QueryCatalog.Proofs.History
import QueryCatalog.Proofs.TreeNodes

namespace QueryCatalog

/-! ## Trees of targets -/

namespace Resolve

variable {m n : Type → Type} [Monad m] [MonadExceptOf Error m] [Monad n] [MonadExceptOf Error n]

/-- Resolves the target of an alias.  A table is no tree. -/
def phrase (look : Lookups m) : Input.Target → m Sql.Phrase
  | .expr value => do
    let resolved ← expr look value
    pure (.expr resolved)
  | .cond condition => do
    let resolved ← cond look condition
    pure (.cond resolved)

/-- Lookups that agree resolve a target to the same tree. -/
theorem phrase_agrees {R : Agreement m n} {look : Lookups m} {look' : Lookups n} {k : Known}
    (hlook : R.Between k look look') (target : Input.Target) :
    R.holds (Sql.Phrase.Uses k) (phrase look target) (phrase look' target) := by
  cases target with
  | expr value => exact R.bind (expr_agrees hlook value) fun _ huses => R.pure huses
  | cond condition => exact R.bind (cond_agrees hlook condition) fun _ huses => R.pure huses

end Resolve

/-- The body of an alias is that of a table, whose name is no tree, or it says what the tree is. -/
theorem AliasTarget.build_tree {access : TableAccess} {look : Lookups Cache.Fetching} {owner : Owner}
    {request : Input.AliasRequest} {body : AliasBody} {t : Cache.Traffic}
    (h : ((build access look owner request).run t).1 = .ok body) :
    (body.isTable = true ∧ ∀ p, ((Resolve.phrase look request.target).run t).1 ≠ .ok p) ∨
      ∃ p, ((Resolve.phrase look request.target).run t).1 = .ok p ∧
        body = ⟨owner, request.name, p.render, false, p.isAggregate⟩ := by
  rw [build] at h
  split at h
  · rename_i table htarget
    obtain ⟨-, t₁, -, h⟩ := run_bind_eq_ok_iff.mp h
    have hbody := Except.ok.inj h
    subst hbody
    -- a bare table is not resolved as a tree
    refine .inl ⟨rfl, fun p hp => ?_⟩
    rw [htarget, Resolve.phrase, Resolve.expr] at hp
    cases hp
  · rename_i value _ htarget
    obtain ⟨resolved, t₁, hresolved, h⟩ := run_bind_eq_ok_iff.mp h
    obtain ⟨-, t₂, -, h⟩ := run_bind_eq_ok_iff.mp h
    have hbody := Except.ok.inj h
    refine .inr ⟨.expr resolved, ?_, hbody.symm⟩
    rw [htarget, Resolve.phrase, run_bind_ok hresolved]
    rfl
  · rename_i condition htarget
    obtain ⟨resolved, t₁, hresolved, h⟩ := run_bind_eq_ok_iff.mp h
    obtain ⟨-, t₂, -, h⟩ := run_bind_eq_ok_iff.mp h
    have hbody := Except.ok.inj h
    refine .inr ⟨.cond resolved, ?_, hbody.symm⟩
    rw [htarget, Resolve.phrase, run_bind_ok hresolved]
    rfl

/-! ## Creations -/

/-- An alias or a stored query. -/
inductive Item where
  | aliased (entity : Alias)
  | query (entity : StoredQuery)
deriving DecidableEq

/-- The past with what was created last, if anything was. -/
def Past.grown (past : Past) : Option Item → Past
  | none => past
  | some (.aliased e) => ⟨past.aliases ++ [e], past.queries⟩
  | some (.query q) => ⟨past.aliases, past.queries ++ [q]⟩

namespace Catalog

variable {c c₀ : Catalog} {past : Past}

/-- What the step creates, if it creates something. -/
def created? (c : Catalog) : Step → Option Item
  | .request owner (.createAlias request) =>
    ((createAlias owner request).run c).1.toOption.map .aliased
  | .request owner (.createQuery name input) =>
    ((createQuery owner name input).run c).1.toOption.map .query
  | _ => none

/-- The step creates an alias whose target is resolved to a tree. -/
inductive Creates (c : Catalog) : Step → Alias → Sql.Phrase → Prop
  | intro {owner : Owner} {request : Input.AliasRequest} {e : Alias} {p : Sql.Phrase}
    (hcreated : ((createAlias owner request).run c).1 = .ok e)
    (htree : ((Resolve.phrase (Cache.lookups c.backing owner) request.target).run c.traffic).1 =
      .ok p) :
    Creates c (.request owner (.createAlias request)) e p

/-- Some step of the history that begins at `c₀` created the alias from the tree. -/
def BuiltFrom (c₀ : Catalog) (steps : List Step) (e : Alias) (p : Sql.Phrase) : Prop :=
  ∃ before step after, steps = before ++ step :: after ∧ (c₀.run before).Creates step e p

theorem run_concat (c : Catalog) (steps : List Step) (step : Step) :
    c.run (steps ++ [step]) = (c.run steps).after step := by
  rw [run, List.foldl_append]
  rfl

/-- What an alias was built from does not change any more. -/
theorem BuiltFrom.later {steps : List Step} {e : Alias} {p : Sql.Phrase}
    (h : c₀.BuiltFrom steps e p) (more : List Step) : c₀.BuiltFrom (steps ++ more) e p := by
  obtain ⟨before, step, after, rfl, hcreates⟩ := h
  refine ⟨before, step, after ++ more, ?_, hcreates⟩
  rw [List.append_assoc, List.cons_append]

theorem Creates.builtFrom {steps : List Step} {step : Step} {e : Alias} {p : Sql.Phrase}
    (h : (c₀.run steps).Creates step e p) : c₀.BuiltFrom (steps ++ [step]) e p :=
  ⟨steps, step, [], rfl, h⟩

/-- All that stands in the tree was fetched, and so belongs to the past. -/
theorem Creates.uses {step : Step} {e : Alias} {p : Sql.Phrase} (h : c.Coherent past)
    (hcreates : c.Creates step e p) :
    p.Uses ⟨fun e => e ∈ past.aliases, fun q => q ∈ past.queries⟩ := by
  cases hcreates with
  | @intro owner request _ _ _ htree =>
    have hlook := Cache.lookups_between (h.fetchable owner)
    obtain ⟨-, -, huses⟩ := Resolve.phrase_agrees hlook request.target c.traffic c.traffic
      ⟨rfl, .refl⟩
    exact huses p htree

/-- What creating an alias that is created does. -/
theorem createAlias_ok (hup : c.down = []) {owner : Owner} {request : Input.AliasRequest} {e : Alias}
    (h : ((createAlias owner request).run c).1 = .ok e) :
    ∃ body t table,
      (AliasTarget.build c.tableAccess (Cache.lookups c.backing owner) owner request).run c.traffic =
        (.ok body, t) ∧
      c.store.aliases.add body = .ok (e, table) ∧
      ((createAlias owner request).run c).2 =
        { c with store := { c.store with aliases := table }, traffic := t } := by
  rw [createAlias_run hup] at h ⊢
  split at h
  · rename_i hvalid
    rw [if_pos hvalid]
    split at h
    · cases h
    · rename_i body t hbuild
      split at h
      · cases h
      · rename_i e' table hadd
        have heq : e' = e := Except.ok.inj h
        subst heq
        exact ⟨body, t, table, hbuild, hadd, rfl⟩
  · cases h

/-- An alias that is not created leaves nothing but records in the cache. -/
theorem createAlias_error (hup : c.down = []) {owner : Owner} {request : Input.AliasRequest}
    {e : Error} (h : ((createAlias owner request).run c).1 = .error e) :
    ∃ t, Cache.Walked c.backing owner c.traffic t ∧
      ((createAlias owner request).run c).2 = { c with traffic := t } := by
  rw [createAlias_run hup] at h ⊢
  obtain ⟨hwalked, -⟩ := Cache.build_walk c.tableAccess c.backing owner c.traffic request
  split at h
  · rename_i hvalid
    rw [if_pos hvalid]
    split at h
    · rename_i e' t hbuild
      rw [hbuild] at hwalked
      exact ⟨t, hwalked, rfl⟩
    · rename_i body t hbuild
      rw [hbuild] at hwalked
      split at h
      · exact ⟨t, hwalked, rfl⟩
      · cases h
  · rename_i hvalid
    rw [if_neg hvalid]
    exact ⟨c.traffic, .refl, rfl⟩

/-- An alias that is created is that of a table, or it is created from a tree and flagged as that is. -/
theorem created_tree (hup : c.down = []) {owner : Owner} {request : Input.AliasRequest} {e : Alias}
    (h : ((createAlias owner request).run c).1 = .ok e) :
    (e.body.isTable = true ∧
        ∀ p, ¬ c.Creates (.request owner (.createAlias request)) e p) ∨
      ∃ p, c.Creates (.request owner (.createAlias request)) e p ∧ e.body.isTable = false ∧
        e.body.isAggregate = p.isAggregate := by
  obtain ⟨body, t, table, hbuild, hadd, -⟩ := createAlias_ok hup h
  obtain ⟨-, hbody, -⟩ := Table.add_ok hadd
  rcases AliasTarget.build_tree (congrArg Prod.fst hbuild) with ⟨htable, hnone⟩ | ⟨p, htree, heq⟩
  · refine .inl ⟨hbody ▸ htable, fun p hp => ?_⟩
    cases hp with
    | intro _ htree => exact hnone p htree
  · rw [← hbody] at heq
    refine .inr ⟨p, .intro h htree, ?_, ?_⟩
    · rw [heq]
    · rw [heq]

/-- What creating a query that is created does. -/
theorem createQuery_ok (hup : c.down = []) {owner : Owner} {name : String} {input : Input.Query}
    {q : StoredQuery} (h : ((createQuery owner name input).run c).1 = .ok q) :
    ∃ tree t table,
      (Resolve.query (Cache.lookups c.backing owner) input).run c.traffic = (.ok tree, t) ∧
      c.store.queries.add ⟨owner, name, tree.compiled.sql, tree.compiled.columnCount⟩ =
        .ok (q, table) ∧
      ((createQuery owner name input).run c).2 =
        { c with store := { c.store with queries := table }, traffic := t } := by
  cases hrun : (Resolve.query (Cache.lookups c.backing owner) input).run c.traffic with
  | mk r t =>
    rw [createQuery_run hup] at h ⊢
    split at h
    · rename_i hvalid
      rw [if_pos hvalid]
      cases r with
      | error e =>
        rw [Resolve.compile, run_bind_error hrun] at h
        cases h
      | ok tree =>
        -- compiling is resolving, with a text made of the tree
        have hcompile : (Resolve.compile (Cache.lookups c.backing owner) input).run c.traffic =
            (.ok tree.compiled, t) := by
          rw [Resolve.compile, run_bind_ok hrun]
          rfl
        rw [hcompile] at h ⊢
        dsimp only at h ⊢
        cases hadd : c.store.queries.add
            ⟨owner, name, tree.compiled.sql, tree.compiled.columnCount⟩ with
        | error e =>
          rw [hadd] at h
          cases h
        | ok added =>
          rw [hadd] at h
          have heq : added.1 = q := Except.ok.inj h
          subst heq
          exact ⟨tree, t, added.2, rfl, hadd, rfl⟩
    · cases h

theorem createQuery_error (hup : c.down = []) {owner : Owner} {name : String} {input : Input.Query}
    {e : Error} (h : ((createQuery owner name input).run c).1 = .error e) :
    ∃ t, Cache.Walked c.backing owner c.traffic t ∧
      ((createQuery owner name input).run c).2 = { c with traffic := t } := by
  rw [createQuery_run hup] at h ⊢
  obtain ⟨hwalked, -⟩ := Cache.compile_walk c.backing owner c.traffic input
  split at h
  · rename_i hvalid
    rw [if_pos hvalid]
    split at h
    · rename_i e' t hcompile
      rw [hcompile] at hwalked
      exact ⟨t, hwalked, rfl⟩
    · rename_i compiled t hcompile
      rw [hcompile] at hwalked
      split at h
      · exact ⟨t, hwalked, rfl⟩
      · cases h
  · rename_i hvalid
    rw [if_neg hvalid]
    exact ⟨c.traffic, .refl, rfl⟩

/-- Requests that create nothing take no number. -/
theorem ids_perform (hup : c.down = []) (owner : Owner) {r : Request}
    (haliased : ∀ request, r ≠ .createAlias request)
    (hquery : ∀ name input, r ≠ .createQuery name input) (kind : EntityKind) :
    ((perform owner r).run c).2.store.ids kind = c.store.ids kind := by
  cases r with
  | createAlias request => exact absurd rfl (haliased request)
  | createQuery name input => exact absurd rfl (hquery name input)
  | deleteAlias id =>
    rw [perform, run_map, deleteAlias_run hup]
    cases kind with
    | aliased => exact Table.ids_remove ..
    | query => rfl
  | deleteQuery id =>
    rw [perform, run_map, deleteQuery_run hup]
    cases kind with
    | aliased => rfl
    | query => exact Table.ids_remove ..
  | listAliases => rw [perform, run_map, listAliases_run hup]
  | listQueries => rw [perform, run_map, listQueries_run hup]
  | fetchAlias lookup => rw [perform, run_map, fetchAlias, resolving, fetching_run]
  | fetchQuery lookup => rw [perform, run_map, fetchQuery, resolving, fetching_run]
  | scalarize lookup =>
    rw [perform, run_map, scalarize_run]
    split <;> rfl
  | compile input => rw [perform, run_map, compile, resolving, fetching_run]

/-- A table that has added an entity has taken a number for it. -/
theorem add_ids_ne {β : Type} [Body β] {table table' : Table β} {body : β} {e : Entity β}
    (hadd : table.add body = .ok (e, table')) : table'.ids ≠ table.ids := by
  intro hids
  obtain ⟨-, -, -, hcurrent, hlt⟩ := Table.add_ok hadd
  have hsame : table.ids.current = some _ := (congrArg IdSequence.current hids).symm.trans hcurrent
  exact absurd (hlt _ hsame) (UInt64.lt_irrefl _)

/-- Aliases are created by requests for them alone. -/
theorem created?_aliased {step : Step} {e : Alias} (h : c.created? step = some (.aliased e)) :
    ∃ owner request, step = .request owner (.createAlias request) ∧
      ((createAlias owner request).run c).1 = .ok e := by
  unfold created? at h
  split at h
  · rename_i owner request
    obtain ⟨e', hcreated, heq⟩ := Option.map_eq_some_iff.mp h
    cases heq
    exact ⟨owner, request, rfl, eq_ok_of_toOption hcreated⟩
  · obtain ⟨q, -, heq⟩ := Option.map_eq_some_iff.mp h
    cases heq
  · cases h

theorem created?_query {step : Step} {q : StoredQuery} (h : c.created? step = some (.query q)) :
    ∃ owner name input, step = .request owner (.createQuery name input) ∧
      ((createQuery owner name input).run c).1 = .ok q := by
  unfold created? at h
  split at h
  · obtain ⟨e, -, heq⟩ := Option.map_eq_some_iff.mp h
    cases heq
  · rename_i owner name input
    obtain ⟨q', hcreated, heq⟩ := Option.map_eq_some_iff.mp h
    cases heq
    exact ⟨owner, name, input, rfl, eq_ok_of_toOption hcreated⟩
  · cases h

namespace Coherent

/-- The past grows with an alias that is created, and not if none is. -/
theorem after_createAlias (h : c.Coherent past) (owner : Owner) (request : Input.AliasRequest) :
    (c.after (.request owner (.createAlias request))).Coherent
      (past.grown (c.created? (.request owner (.createAlias request)))) := by
  rw [Catalog.after, perform, run_map, created?]
  cases hresult : ((createAlias owner request).run c).1 with
  | error e =>
    obtain ⟨t, hwalked, heq⟩ := createAlias_error h.up hresult
    exact heq ▸ h.fetched hwalked
  | ok e =>
    obtain ⟨body, t, table, hbuild, hadd, heq⟩ := createAlias_ok h.up hresult
    obtain ⟨hwalked, hbuilt⟩ := Cache.build_walk c.tableAccess c.backing owner c.traffic request
    rw [hbuild] at hwalked hbuilt
    exact heq ▸ h.aliasAdded hwalked (fun k hk => hbuilt k hk body rfl) hadd

/-- The past grows with a query that is created, and not if none is. -/
theorem after_createQuery (h : c.Coherent past) (owner : Owner) (name : String)
    (input : Input.Query) :
    (c.after (.request owner (.createQuery name input))).Coherent
      (past.grown (c.created? (.request owner (.createQuery name input)))) := by
  rw [Catalog.after, perform, run_map, created?]
  cases hresult : ((createQuery owner name input).run c).1 with
  | error e =>
    obtain ⟨t, hwalked, heq⟩ := createQuery_error h.up hresult
    exact heq ▸ h.fetched hwalked
  | ok q =>
    obtain ⟨tree, t, table, hrun, hadd, heq⟩ := createQuery_ok h.up hresult
    have hwalk := fun k (hk : Cache.Fetchable c.backing owner c.traffic k) =>
      Resolve.query_agrees (Cache.lookups_between hk) input c.traffic c.traffic ⟨rfl, .refl⟩
    have hwalked := (hwalk _ (Cache.fetchable_true ..)).2.1.2
    rw [hrun] at hwalked
    refine heq ▸ h.queryAdded hwalked (fun k hk => ⟨tree, ?_, rfl⟩) hadd
    exact ((hwalk k hk).2.2 tree (congrArg Prod.fst hrun)).1

/-- Other requests leave the past as it is. -/
theorem after_other (h : c.Coherent past) (owner : Owner) {r : Request}
    (haliased : ∀ request, r ≠ .createAlias request)
    (hquery : ∀ name input, r ≠ .createQuery name input) :
    (c.after (.request owner r)).Coherent past := by
  have hids := ids_perform h.up owner haliased hquery
  have heffect := perform_effect h.up owner r
  rw [Catalog.after]
  generalize ((perform owner r).run c).2 = c' at hids heffect ⊢
  cases heffect with
  | fetched hwalked => exact h.fetched hwalked
  | aliasAdded _ _ hadd => exact absurd (hids .aliased) (add_ids_ne hadd)
  | queryAdded _ _ hadd => exact absurd (hids .query) (add_ids_ne hadd)
  | aliasRemoved _ id => exact h.aliasRemoved owner id
  | queryRemoved _ id => exact h.queryRemoved owner id

/-- The past grows with what is created, and with nothing else. -/
theorem after_created (h : c.Coherent past) (step : Step) :
    (c.after step).Coherent (past.grown (c.created? step)) := by
  cases step with
  | advance milliseconds => exact h.advance milliseconds
  | request owner r =>
    have hother := h.after_other owner (r := r)
    cases r with
    | createAlias request => exact h.after_createAlias owner request
    | createQuery name input => exact h.after_createQuery owner name input
    | _ => exact hother (fun _ heq => by cases heq) fun _ _ heq => by cases heq

end Coherent

end Catalog

/-! ## Expansions -/

namespace Sql

/-- Whether there is nothing to see inside the node: it calls no function, and is no operand that could
    be expanded. -/
def Node.isClosed : Node → Bool
  | .call _ | .operand _ => false
  | _ => true

/-- `Expands built nodes functions`: these functions are called, from left to right, in the expansion of
    a tree that has these nodes, where `built` says what aliases are built from. -/
inductive Expands (built : Alias → Phrase → Prop) : List Node → List SqlFunction → Prop
  | nil : Expands built [] []
  | call {f : SqlFunction} {nodes : List Node} {functions : List SqlFunction}
    (hnodes : Expands built nodes functions) : Expands built (.call f :: nodes) (f :: functions)
  | operand {e : Alias} {p : Phrase} {nodes : List Node} {inner functions : List SqlFunction}
    (hbuilt : built e p) (hinner : Expands built p.nodes inner)
    (hnodes : Expands built nodes functions) :
    Expands built (.operand e :: nodes) (inner ++ functions)
  | closed {node : Node} {nodes : List Node} {functions : List SqlFunction}
    (hnode : node.isClosed = true) (hnodes : Expands built nodes functions) :
    Expands built (node :: nodes) functions

namespace Expands

variable {built built' : Alias → Phrase → Prop} {nodes : List Node} {functions : List SqlFunction}

/-- The more is known of what aliases are built from, the more can be expanded. -/
theorem mono (hbuilt : ∀ e p, built e p → built' e p) (h : Expands built nodes functions) :
    Expands built' nodes functions := by
  induction h with
  | nil => exact .nil
  | call _ ih => exact .call ih
  | operand he _ _ ihinner ihnodes => exact .operand (hbuilt _ _ he) ihinner ihnodes
  | closed hnode _ ih => exact .closed hnode ih

/-- A tree can be expanded if each alias in it can. -/
theorem exists_of_operands
    (h : ∀ e, .operand e ∈ nodes → ∃ p inner, built e p ∧ Expands built p.nodes inner) :
    ∃ functions, Expands built nodes functions := by
  induction nodes with
  | nil => exact ⟨[], .nil⟩
  | cons node nodes ih =>
    obtain ⟨functions, hnodes⟩ := ih fun e he => h e (List.mem_cons_of_mem _ he)
    cases node with
    | call f => exact ⟨f :: functions, .call hnodes⟩
    | operand e =>
      obtain ⟨p, inner, hbuilt, hinner⟩ := h e List.mem_cons_self
      exact ⟨inner ++ functions, .operand hbuilt hinner hnodes⟩
    | table e => exact ⟨functions, .closed rfl hnodes⟩
    | scalar s => exact ⟨functions, .closed rfl hnodes⟩
    | member q => exact ⟨functions, .closed rfl hnodes⟩
    | existence q => exact ⟨functions, .closed rfl hnodes⟩
    | source q => exact ⟨functions, .closed rfl hnodes⟩

/-- Where every flag says what its tree is, what is seen at the nodes of a tree tells whether there is an
    aggregate in its expansion. -/
theorem any_eq (hflags : ∀ e p, built e p → e.body.isAggregate = p.isAggregate)
    (h : Expands built nodes functions) :
    nodes.any Node.isAggregate = functions.any SqlFunction.isAggregate := by
  induction h with
  | nil => rfl
  | call _ ih => rw [List.any_cons, List.any_cons, ih, Node.isAggregate]
  | operand hbuilt _ _ ihinner ihnodes =>
    -- an operand is seen by its flag, which tells of the tree it was built from
    have hflag := hflags _ _ hbuilt
    rw [Phrase.isAggregate_eq, ihinner] at hflag
    rw [List.any_cons, List.any_append, ihnodes, Node.isAggregate, hflag]
  | @closed node nodes functions hnode _ ih =>
    have hno : node.isAggregate = false := by
      cases node with
      | call f => cases hnode
      | operand e => cases hnode
      | table e => rfl
      | scalar s => rfl
      | member q => rfl
      | existence q => rfl
      | source q => rfl
    rw [List.any_cons, hno, Bool.false_or, ih]

end Expands

end Sql

/-! ## Histories -/

namespace Catalog

/-- A history that begins at `c₀`, with its past: every alias of the past that is not of a table has an
    expansion. -/
structure Expanded (c₀ : Catalog) (steps : List Step) (past : Past) : Prop where
  coherent : (c₀.run steps).Coherent past
  expansion : ∀ e ∈ past.aliases, e.body.isTable = false →
    ∃ p functions, c₀.BuiltFrom steps e p ∧ Sql.Expands (c₀.BuiltFrom steps) p.nodes functions

namespace Expanded

variable {c₀ : Catalog} {steps : List Step} {past : Past}

/-- A tree over the past has an expansion. -/
theorem exists_expands (h : c₀.Expanded steps past) {nodes : List Sql.Node} {query : StoredQuery → Prop}
    (hnodes : ∀ node ∈ nodes, node.Uses ⟨fun e => e ∈ past.aliases, query⟩) :
    ∃ functions, Sql.Expands (c₀.BuiltFrom steps) nodes functions := by
  refine Sql.Expands.exists_of_operands fun e he => ?_
  obtain ⟨hmem, hplain⟩ := hnodes _ he
  exact h.expansion e hmem hplain

/-- An alias that has an expansion keeps it. -/
theorem expansion_later (h : c₀.Expanded steps past) (step : Step) {e : Alias}
    (he : e ∈ past.aliases) (hplain : e.body.isTable = false) :
    ∃ p functions, c₀.BuiltFrom (steps ++ [step]) e p ∧
      Sql.Expands (c₀.BuiltFrom (steps ++ [step])) p.nodes functions := by
  obtain ⟨p, functions, hbuilt, hexpands⟩ := h.expansion e he hplain
  exact ⟨p, functions, hbuilt.later [step], hexpands.mono fun _ _ hb => hb.later [step]⟩

/-- The induction step: an alias that is created is built from a tree in which all aliases are of the
    past, and these have expansions. -/
theorem step (h : c₀.Expanded steps past) (step : Step) :
    ∃ past', c₀.Expanded (steps ++ [step]) past' := by
  refine ⟨_, run_concat c₀ steps step ▸ h.coherent.after_created step, fun a ha hplain => ?_⟩
  cases hcreated : (c₀.run steps).created? step with
  | none =>
    rw [hcreated] at ha
    exact h.expansion_later step ha hplain
  | some x =>
    rw [hcreated] at ha
    cases x with
    | query q => exact h.expansion_later step ha hplain
    | aliased e =>
      rcases List.mem_append.mp ha with ha | ha
      · exact h.expansion_later _ ha hplain
      · have heq : a = e := List.mem_singleton.mp ha
        subst heq
        obtain ⟨owner, request, rfl, hresult⟩ := created?_aliased hcreated
        rcases created_tree h.coherent.up hresult with ⟨htable, -⟩ | ⟨p, hcreates, -, -⟩
        · rw [hplain] at htable
          cases htable
        · -- all that the tree uses is of the past, where expansions are known
          have huses := hcreates.uses h.coherent
          obtain ⟨functions, hexpands⟩ := h.exists_expands (Sql.Phrase.node_uses huses)
          exact ⟨p, functions, hcreates.builtFrom, hexpands.mono fun _ _ hb => hb.later _⟩

end Expanded

/-- After any history, what is not of a table has an expansion. -/
theorem run_expanded (settings : Settings) (schema : Schema) (steps : List Step) :
    ∃ past, (fresh settings schema .empty).Expanded steps past := by
  induction steps using List.reverseRecOn with
  | nil =>
    refine ⟨⟨[], []⟩, .fresh settings schema, fun e he => ?_⟩
    exact absurd he List.not_mem_nil
  | append_singleton steps step ih =>
    obtain ⟨past, h⟩ := ih
    exact h.step step

/-- In any history, a tree that an alias is built from has an expansion: one among the aliases that were
    there when it was resolved. -/
theorem BuiltFrom.exists_expands {settings : Settings} {schema : Schema} {steps : List Step}
    {e : Alias} {p : Sql.Phrase} (h : (fresh settings schema .empty).BuiltFrom steps e p) :
    ∃ functions, Sql.Expands ((fresh settings schema .empty).BuiltFrom steps) p.nodes functions := by
  obtain ⟨before, step, after, rfl, hcreates⟩ := h
  obtain ⟨past, hexpanded⟩ := run_expanded settings schema before
  have huses := hcreates.uses hexpanded.coherent
  obtain ⟨functions, hexpands⟩ := hexpanded.exists_expands (Sql.Phrase.node_uses huses)
  exact ⟨functions, hexpands.mono fun _ _ hb => hb.later _⟩

/-- In any history, an alias is flagged as the tree that it is built from. -/
theorem run_truthful (settings : Settings) (schema : Schema) (steps : List Step) {e : Alias}
    {p : Sql.Phrase} (h : (fresh settings schema .empty).BuiltFrom steps e p) :
    e.body.isAggregate = p.isAggregate := by
  obtain ⟨before, step, after, -, hcreates⟩ := h
  obtain ⟨past, hcoherent⟩ := run_coherent settings schema before
  cases hcreates with
  | intro hcreated htree =>
    rcases created_tree hcoherent.up hcreated with ⟨-, hnone⟩ | ⟨p', hcreates', -, hflag⟩
    · exact absurd (.intro hcreated htree) (hnone p)
    · cases hcreates' with
      | intro _ htree' =>
        have heq : p = p' := Except.ok.inj (htree.symm.trans htree')
        rw [heq, hflag]

end Catalog

end QueryCatalog
