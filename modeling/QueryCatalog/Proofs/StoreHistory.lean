/-
  The store is what its calls have made of it.

  A log holds the calls of a table, each with its reply.  Two lists are read off the replies alone,
  without a look at any table: the entities that were ever added (`everAdded`), and those that are left
  of them (`remaining`).

  1. **The rows are what is left** (`Logged.rows_eq`), in order; and what was ever added has increasing
     numbers, so that no number comes back, not even that of a removed entity (`Logged.remembers`).
  2. **Replies follow from what is left** (`Logged.answered_add`, `Remembers.remove_found_iff`): a name is
     refused exactly if its owner has it, and a removal succeeds exactly if the owner has the number.

  Both are about one table.  That the store keeps its two tables apart is seen where the calls are made,
  on a catalog: each call extends the log of its own table and leaves the other table as it is.
-/
import Mathlib.Data.List.Induction
import QueryCatalog.Proofs.History

namespace QueryCatalog

/-! ## Calls and replies -/

/-- A call that changes a table. -/
inductive TableCall (β : Type) where
  | add (body : β)
  | remove (owner : Owner) (id : EntityId)
deriving DecidableEq, Repr

/-- What a call that succeeds gives. -/
inductive TableReply (β : Type) where
  | added (entity : Entity β)
  | removed (found : Bool)
deriving DecidableEq, Repr

/-- A call with its reply. -/
structure TableEvent (β : Type) where
  call : TableCall β
  reply : Except Error (TableReply β)

/-- Whether the call adds. -/
def TableCall.isAdd {β : Type} : TableCall β → Bool
  | .add _ => true
  | .remove _ _ => false

/-- A call of one of the two tables of the store. -/
inductive StoreCall where
  | aliases (call : TableCall AliasBody)
  | queries (call : TableCall QueryBody)
deriving DecidableEq, Repr

/-- Whether the call adds to either table. -/
def StoreCall.isAdd : StoreCall → Bool
  | .aliases call => call.isAdd
  | .queries call => call.isAdd

section Log

variable {β : Type}

/-- The entity that an event added. -/
def TableEvent.added? (event : TableEvent β) : Option (Entity β) :=
  match event.reply with
  | .ok (.added e) => some e
  | _ => none

/-- All entities that were ever added, oldest first. -/
def everAdded (events : List (TableEvent β)) : List (Entity β) := events.filterMap TableEvent.added?

variable [Body β]

/-- What an event makes of the entities that there were. -/
def TableEvent.applied (kept : List (Entity β)) (event : TableEvent β) : List (Entity β) :=
  match event.call, event.reply with
  | .add _, .ok (.added e) => kept ++ [e]
  | .remove owner id, .ok (.removed true) => kept.filter fun e => !e.answers owner (.id id)
  | _, _ => kept

/-- The entities that were added and not removed again, oldest first. -/
def remaining (events : List (TableEvent β)) : List (Entity β) := events.foldl TableEvent.applied []

/-- Whether the owner of a body has an entity of its name already. -/
def IsTaken (kept : List (Entity β)) (body : β) : Prop :=
  ∃ e ∈ kept, Body.owner e.body = Body.owner body ∧ Body.name e.body = Body.name body

/-- Whether an owner has an entity of that number. -/
def IsOwned (kept : List (Entity β)) (owner : Owner) (id : EntityId) : Prop :=
  ∃ e ∈ kept, e.id = id ∧ Body.owner e.body = owner

/-- The reply is the one that the entities that there are give to the call. -/
def TableCall.Answered (kept : List (Entity β)) (reply : Except Error (TableReply β)) :
    TableCall β → Prop
  | .add body =>
    (reply = .error (.store (.alreadyExists (Body.kind β) (Body.name body))) ↔ IsTaken kept body) ∧
      ((∃ e, reply = .ok (.added e) ∧ e.body = body) ↔ ¬ IsTaken kept body)
  | .remove owner id =>
    (reply = .ok (.removed true) ↔ IsOwned kept owner id) ∧
      (reply = .ok (.removed false) ↔ ¬ IsOwned kept owner id)

/-- The table is what a log says, whichever way it is looked at. -/
structure Table.Follows (t : Table β) (events : List (TableEvent β)) : Prop where
  rows : t.rows = remaining events
  /-- What is left was added, … -/
  kept : (remaining events).Sublist (everAdded events)
  /-- … under numbers that increase and are not used again. -/
  increasing : (everAdded events).Pairwise fun e e' => e.id < e'.id
  named : (remaining events).Pairwise fun e e' =>
    ¬ (Body.owner e.body = Body.owner e'.body ∧ Body.name e.body = Body.name e'.body)
  list : ∀ owner, t.list owner = (remaining events).filter fun e => Body.owner e.body == owner
  found : ∀ owner lookup e, t.find? owner lookup = some e ↔
    e ∈ remaining events ∧ e.answers owner lookup = true
  unique : ∀ owner lookup, ∀ e ∈ remaining events, ∀ e' ∈ remaining events,
    e.answers owner lookup = true → e'.answers owner lookup = true → e = e'

/-! ## One table -/

/-- A table with the log of its calls. -/
inductive Table.Logged : Table β → List (TableEvent β) → Prop
  | empty : Logged .empty []
  | added {t t' : Table β} {events : List (TableEvent β)} {body : β} {e : Entity β}
    (h : Logged t events) (hadd : t.add body = .ok (e, t')) :
    Logged t' (events ++ [⟨.add body, .ok (.added e)⟩])
  | refused {t : Table β} {events : List (TableEvent β)} {body : β} {cause : StoreError}
    (h : Logged t events) (hadd : t.add body = .error cause) :
    Logged t (events ++ [⟨.add body, .error (.store cause)⟩])
  | removed {t : Table β} {events : List (TableEvent β)} (h : Logged t events) (owner : Owner)
    (id : EntityId) :
    Logged (t.remove owner id).2
      (events ++ [⟨.remove owner id, .ok (.removed (t.remove owner id).1)⟩])

theorem remaining_concat (events : List (TableEvent β)) (event : TableEvent β) :
    remaining (events ++ [event]) = event.applied (remaining events) := by
  rw [remaining, List.foldl_append]
  rfl

omit [Body β] in
theorem everAdded_concat (events : List (TableEvent β)) (event : TableEvent β) :
    everAdded (events ++ [event]) = everAdded events ++ event.added?.toList := by
  rw [everAdded, List.filterMap_append]
  cases hadded : event.added? with
  | none => simp [everAdded, hadded]
  | some e => simp [everAdded, hadded]

namespace Table

variable {t : Table β} {past : List (Entity β)} {events : List (TableEvent β)}

/-- A lookup finds something exactly if a row answers it. -/
theorem Remembers.find?_isSome_iff (h : t.Remembers past) (owner : Owner) (lookup : Lookup) :
    (t.find? owner lookup).isSome = true ↔ ∃ e ∈ t.rows, e.answers owner lookup = true := by
  rw [Option.isSome_iff_exists]
  constructor
  · rintro ⟨e, he⟩
    exact ⟨e, answers_of_find? he⟩
  · rintro ⟨e, hmem, hanswers⟩
    exact ⟨e, h.find?_eq_some_iff.mpr ⟨hmem, hanswers⟩⟩

/-- A removal leaves the rows that do not answer to the owner and the number. -/
theorem Remembers.rows_remove (h : t.Remembers past) (owner : Owner) (id : EntityId) :
    (t.remove owner id).2.rows = t.rows.filter fun e => !e.answers owner (.id id) := by
  have hfound := h.find?_isSome_iff owner (.id id)
  rw [Table.remove]
  split
  · rename_i hsome
    obtain ⟨e, hmem, hanswers⟩ := hfound.mp hsome
    have hid : e.id = id := by
      simp only [Entity.answers, Bool.and_eq_true, beq_iff_eq] at hanswers
      exact hanswers.1
    obtain ⟨row, front, back, hfront, hrow, hrows, herase⟩ :=
      List.exists_of_eraseP (p := fun e => e.id == id) hmem (beq_iff_eq.mpr hid)
    have hincreasing := h.increasing.sublist h.kept
    rw [hrows, List.pairwise_append, List.pairwise_cons] at hincreasing
    -- the row that is erased is the one that answers, and no other has its number
    have heq : row = e := by
      refine h.eq_of_id_eq (h.kept.subset ?_) (h.kept.subset hmem) ?_
      · rw [hrows]
        exact List.mem_append_right front List.mem_cons_self
      · exact (beq_iff_eq.mp hrow).trans hid.symm
    subst heq
    have hkept : ∀ e' : Entity β, e'.id ≠ id → (!e'.answers owner (.id id)) = true := by
      intro e' hne
      simp [Entity.answers, hne]
    have hbefore : front.filter (fun e => !e.answers owner (.id id)) = front :=
      List.filter_eq_self.mpr fun e' he' => hkept e' fun heq => hfront e' he' (beq_iff_eq.mpr heq)
    have hbehind : back.filter (fun e => !e.answers owner (.id id)) = back := by
      refine List.filter_eq_self.mpr fun e' he' => hkept e' fun heq => ?_
      have hlt := hincreasing.2.1.1 e' he'
      rw [heq, hid] at hlt
      exact UInt64.lt_irrefl _ hlt
    simp only [herase]
    rw [hrows, List.filter_append, List.filter_cons_of_neg (by simp [hanswers]), hbefore, hbehind]
  · rename_i hnone
    refine (List.filter_eq_self.mpr fun e' he' => ?_).symm
    rw [Bool.not_eq_true']
    exact Bool.eq_false_iff.mpr fun hanswers => hnone (hfound.mpr ⟨e', he', hanswers⟩)

/-- A removal succeeds exactly if there is a row that answers. -/
theorem Remembers.remove_found_iff (h : t.Remembers past) (owner : Owner) (id : EntityId) :
    (t.remove owner id).1 = true ↔ IsOwned t.rows owner id := by
  have hiff := h.find?_isSome_iff owner (.id id)
  simp only [Entity.answers, Bool.and_eq_true, beq_iff_eq] at hiff
  rw [IsOwned, ← hiff, Table.remove]
  split
  · rename_i hsome
    exact iff_of_true rfl hsome
  · rename_i hnone
    exact iff_of_false Bool.false_ne_true hnone

namespace Logged

/-- Numbers increase along all that was ever added, and the rows are some of it. -/
theorem remembers (h : t.Logged events) : t.Remembers (everAdded events) := by
  induction h with
  | empty => exact .empty
  | added _ hadd ih =>
    rw [everAdded_concat]
    exact ih.add hadd
  | refused _ _ ih =>
    rw [everAdded_concat]
    exact (List.append_nil _).symm ▸ ih
  | removed _ owner id ih =>
    rw [everAdded_concat]
    exact (List.append_nil _).symm ▸ ih.remove owner id

/-- The rows are what is left. -/
theorem rows_eq (h : t.Logged events) : t.rows = remaining events := by
  induction h with
  | empty => rfl
  | added _ hadd ih =>
    obtain ⟨-, -, hrows, -⟩ := add_ok hadd
    rw [remaining_concat, hrows, ih]
    rfl
  | refused _ _ ih =>
    rw [remaining_concat]
    exact ih
  | @removed t events h owner id ih =>
    rw [remaining_concat, h.remembers.rows_remove, ih]
    cases hfound : (t.remove owner id).1 with
    | true => rfl
    | false =>
      -- nothing answers, so that nothing is left out
      refine List.filter_eq_self.mpr fun e he => ?_
      rw [Bool.not_eq_true']
      refine Bool.eq_false_iff.mpr fun hanswers => ?_
      simp only [Entity.answers, Bool.and_eq_true, beq_iff_eq] at hanswers
      have htrue := (h.remembers.remove_found_iff owner id).mpr ⟨e, ih ▸ he, hanswers⟩
      rw [hfound] at htrue
      cases htrue

/-- As many numbers are taken as there were calls to add, at most. -/
theorem taken_le (h : t.Logged events) :
    t.ids.taken ≤ events.countP fun event => event.call.isAdd := by
  induction h with
  | empty => exact Nat.le_refl 0
  | added _ hadd ih =>
    have htaken := taken_add hadd
    rw [List.countP_append, List.countP_singleton, if_pos (by rfl)]
    omega
  | refused _ _ ih =>
    rw [List.countP_append]
    omega
  | removed _ owner id ih =>
    rw [List.countP_append, ids_remove]
    omega

/-- A table that was logged is told by its log. -/
theorem follows (h : t.Logged events) : t.Follows events := by
  have hremembers := h.remembers
  have hrows := h.rows_eq
  refine ⟨hrows, hrows ▸ hremembers.kept, hremembers.increasing, ?_, fun owner => ?_, ?_, ?_⟩
  · rw [← hrows]
    exact hremembers.named.imp fun hne hsame => hne hsame.1 hsame.2
  · rw [← hrows]
    rfl
  · intro owner lookup e
    rw [← hrows]
    exact hremembers.find?_eq_some_iff
  · intro owner lookup e he e' he'
    rw [← hrows] at he he'
    exact hremembers.eq_of_answers he he'

/-! ## Replies -/

/-- A name is taken if it is found. -/
theorem isSome_name_iff (h : t.Logged events) (body : β) :
    (t.find? (Body.owner body) (.name (Body.name body))).isSome = true ↔
      IsTaken (remaining events) body := by
  rw [h.remembers.find?_isSome_iff, h.rows_eq, IsTaken]
  simp only [Entity.answers, Bool.and_eq_true, beq_iff_eq, and_comm]

/-- A body is refused because its name is taken, and for no other reason while there are numbers. -/
theorem answered_add (h : t.Logged events)
    (hfew : (events.countP fun event => event.call.isAdd) + 1 < UInt64.size) (body : β) :
    (t.add body = .error (.alreadyExists (Body.kind β) (Body.name body)) ↔
        IsTaken (remaining events) body) ∧
      ((∃ e t', t.add body = .ok (e, t')) ↔ ¬ IsTaken (remaining events) body) := by
  rw [← h.isSome_name_iff]
  cases hfind : t.find? (Body.owner body) (.name (Body.name body)) with
  | some e => simp [add, hfind]
  | none =>
    rcases add_unused body hfind with ⟨-, hend⟩ | ⟨e, t', hadd⟩
    · -- the last number has been given, so that there were too many calls
      have hlast : t.ids.taken = UInt64.size - 1 := by
        rw [IdSequence.taken, hend]
        rfl
      have htaken := h.taken_le
      omega
    · simp [hadd]

end Logged

end Table

end Log

/-! ## Two tables -/

/-- One of the tables of a store, with the actions that change it and what these do. -/
structure Shelf (β : Type) [Body β] where
  table : Store → Table β
  withTable : Store → Table β → Store
  insert : β → Action (Entity β)
  delete : Owner → EntityId → Action Bool
  withTable_self : ∀ s, withTable s (table s) = s
  insert_run : ∀ {c : Catalog}, c.down = [] → ∀ body, (insert body).run c =
    match (table c.store).add body with
    | .error e => (.error (.store e), c)
    | .ok (e, t) => (.ok e, { c with store := withTable c.store t })
  delete_run : ∀ {c : Catalog}, c.down = [] → ∀ owner id, (delete owner id).run c =
    (.ok ((table c.store).remove owner id).1,
      { c with store := withTable c.store ((table c.store).remove owner id).2 })

/-- The table of aliases. -/
def aliasShelf : Shelf AliasBody where
  table s := s.aliases
  withTable s t := { s with aliases := t }
  insert := Catalog.insertAlias
  delete := Catalog.deleteAlias
  withTable_self _ := rfl
  insert_run {c} hup body := by
    rw [Catalog.insertAlias_run hup]
    cases c.store.aliases.add body <;> rfl
  delete_run := Catalog.deleteAlias_run

/-- The table of stored queries. -/
def queryShelf : Shelf QueryBody where
  table s := s.queries
  withTable s t := { s with queries := t }
  insert := Catalog.insertQuery
  delete := Catalog.deleteQuery
  withTable_self _ := rfl
  insert_run {c} hup body := by
    rw [Catalog.insertQuery_run hup]
    cases c.store.queries.add body <;> rfl
  delete_run := Catalog.deleteQuery_run

namespace Shelf

variable {β : Type} [Body β] (shelf : Shelf β)

/-- Makes a call. -/
def call : TableCall β → Action (TableReply β)
  | .add body => .added <$> shelf.insert body
  | .remove owner id => .removed <$> shelf.delete owner id

variable {c : Catalog} (hup : c.down = []) {events : List (TableEvent β)}
include hup

/-- A call changes its own table, in the way that is logged, and nothing else. -/
theorem call_logged (h : (shelf.table c.store).Logged events) (call : TableCall β) :
    ∃ t : Table β, ((shelf.call call).run c).2 = { c with store := shelf.withTable c.store t } ∧
      t.Logged (events ++ [⟨call, ((shelf.call call).run c).1⟩]) := by
  cases call with
  | add body =>
    rw [Shelf.call, run_map, shelf.insert_run hup]
    cases hadd : (shelf.table c.store).add body with
    | error cause => exact ⟨shelf.table c.store, by rw [shelf.withTable_self], h.refused hadd⟩
    | ok r => exact ⟨r.2, rfl, h.added hadd⟩
  | remove owner id =>
    rw [Shelf.call, run_map, shelf.delete_run hup]
    exact ⟨_, rfl, h.removed owner id⟩

/-- The reply to a call is the one that follows from the log. -/
theorem call_answered (h : (shelf.table c.store).Logged events) (call : TableCall β)
    (hfew : (events.countP fun event => event.call.isAdd) + (if call.isAdd then 1 else 0) < UInt64.size) :
    call.Answered (remaining events) ((shelf.call call).run c).1 := by
  cases call with
  | add body =>
    -- whether an addition is refused is read off the log
    obtain ⟨hrefused, hadded⟩ := h.answered_add hfew body
    rw [Shelf.call, run_map, shelf.insert_run hup, TableCall.Answered, ← hadded, ← hrefused]
    cases hadd : (shelf.table c.store).add body with
    | error cause => simp [Except.map]
    | ok r =>
      obtain ⟨e, t⟩ := r
      obtain ⟨-, hbody, -⟩ := Table.add_ok hadd
      simp [Except.map, hbody]
  | remove owner id =>
    have hfound := h.remembers.remove_found_iff owner id
    rw [h.rows_eq] at hfound
    rw [Shelf.call, run_map, shelf.delete_run hup, TableCall.Answered, ← hfound]
    simp [Except.map]

end Shelf

/-- What was asked of both tables of a store. -/
structure StoreLog where
  aliases : List (TableEvent AliasBody)
  queries : List (TableEvent QueryBody)

namespace Catalog

/-- Makes a call, and logs it with its reply. -/
def serve (s : Catalog × StoreLog) : StoreCall → Catalog × StoreLog
  | .aliases call =>
    let r := (aliasShelf.call call).run s.1
    (r.2, { s.2 with aliases := s.2.aliases ++ [⟨call, r.1⟩] })
  | .queries call =>
    let r := (queryShelf.call call).run s.1
    (r.2, { s.2 with queries := s.2.queries ++ [⟨call, r.1⟩] })

/-- The catalog behind some calls, and their log. -/
def served (c : Catalog) (calls : List StoreCall) : Catalog × StoreLog :=
  calls.foldl serve (c, ⟨[], []⟩)

/-- A catalog with the log of some calls. -/
structure Accounts (calls : List StoreCall) (s : Catalog × StoreLog) : Prop where
  up : s.1.down = []
  aliases : s.1.store.aliases.Logged s.2.aliases
  queries : s.1.store.queries.Logged s.2.queries
  adds : (s.2.aliases.countP fun event => event.call.isAdd) +
    (s.2.queries.countP fun event => event.call.isAdd) = calls.countP StoreCall.isAdd

namespace Accounts

variable {calls : List StoreCall} {s : Catalog × StoreLog}

theorem serve (h : Accounts calls s) (call : StoreCall) :
    Accounts (calls ++ [call]) (serve s call) := by
  cases call with
  | aliases call =>
    obtain ⟨t, hafter, hlogged⟩ := aliasShelf.call_logged h.up h.aliases call
    simp only [Catalog.serve, hafter]
    refine ⟨h.up, hlogged, h.queries, ?_⟩
    rw [List.countP_append, List.countP_append, List.countP_singleton, List.countP_singleton,
      Nat.add_right_comm, h.adds]
    rfl
  | queries call =>
    obtain ⟨t, hafter, hlogged⟩ := queryShelf.call_logged h.up h.queries call
    simp only [Catalog.serve, hafter]
    refine ⟨h.up, h.aliases, hlogged, ?_⟩
    rw [List.countP_append, List.countP_append, List.countP_singleton, List.countP_singleton,
      ← Nat.add_assoc, h.adds]
    rfl

end Accounts

/-- The log of calls from the beginning accounts for the store. -/
theorem served_accounts (settings : Settings) (schema : Schema) (calls : List StoreCall) :
    Accounts calls ((fresh settings schema .empty).served calls) := by
  induction calls using List.reverseRecOn with
  | nil => exact ⟨rfl, .empty, .empty, rfl⟩
  | append_singleton calls call ih =>
    rw [served, List.foldl_append]
    exact ih.serve call

/-- The call gets the reply that follows from the log, and leaves the other table as it is. -/
def Behaves (s : Catalog × StoreLog) : StoreCall → Prop
  | .aliases call =>
    call.Answered (remaining s.2.aliases) ((aliasShelf.call call).run s.1).1 ∧
      ((aliasShelf.call call).run s.1).2.store.queries = s.1.store.queries
  | .queries call =>
    call.Answered (remaining s.2.queries) ((queryShelf.call call).run s.1).1 ∧
      ((queryShelf.call call).run s.1).2.store.aliases = s.1.store.aliases

/-- The reply to a call is the one that the log asks for, as long as there are numbers left. -/
theorem Accounts.behaves {calls : List StoreCall} {s : Catalog × StoreLog} (h : Accounts calls s)
    (call : StoreCall) (hfew : (calls ++ [call]).countP StoreCall.isAdd < UInt64.size) :
    Behaves s call := by
  have hadds := h.adds
  rw [List.countP_append, List.countP_singleton] at hfew
  cases call with
  | aliases call =>
    obtain ⟨t, hafter, -⟩ := aliasShelf.call_logged h.up h.aliases call
    refine ⟨aliasShelf.call_answered h.up h.aliases call ?_, by rw [hafter]; rfl⟩
    -- the additions to one table are among all additions
    have hown : (s.2.aliases.countP fun event => event.call.isAdd) ≤ calls.countP StoreCall.isAdd := by
      omega
    exact Nat.lt_of_le_of_lt (Nat.add_le_add_right hown _) hfew
  | queries call =>
    obtain ⟨t, hafter, -⟩ := queryShelf.call_logged h.up h.queries call
    refine ⟨queryShelf.call_answered h.up h.queries call ?_, by rw [hafter]; rfl⟩
    have hown : (s.2.queries.countP fun event => event.call.isAdd) ≤ calls.countP StoreCall.isAdd := by
      omega
    exact Nat.lt_of_le_of_lt (Nat.add_le_add_right hown _) hfew

/-- **The store refines its history.**  After any calls, with fewer than 2^64 that add, both tables are
    what is left of what was added; and each of the calls got the reply that follows from what was left
    in front of it, and changed nothing in the other table. -/
theorem store_follows_log (settings : Settings) (schema : Schema) (calls : List StoreCall)
    (hfew : calls.countP StoreCall.isAdd < UInt64.size) :
    let c := fresh settings schema .empty
    (c.served calls).1.store.aliases.Follows (c.served calls).2.aliases ∧
      (c.served calls).1.store.queries.Follows (c.served calls).2.queries ∧
      ∀ before call after, calls = before ++ call :: after → Behaves (c.served before) call := by
  intro c
  have haccounts := served_accounts settings schema calls
  refine ⟨haccounts.aliases.follows, haccounts.queries.follows, ?_⟩
  rintro before call after rfl
  refine (served_accounts settings schema before).behaves call (Nat.lt_of_le_of_lt ?_ hfew)
  -- the calls up to this one add no more than all of them do
  have hsub : (before ++ [call]).Sublist (before ++ call :: after) :=
    (List.Sublist.refl before).append (List.singleton_sublist.mpr List.mem_cons_self)
  exact hsub.countP_le

/-! ## A name added again -/

/-- Two owners take one name; the first of them removes theirs, which the other could not, and takes
    the name again, but not twice. -/
def readdingCalls : List StoreCall :=
  [ .aliases (.add ⟨1, "orders", "`orders`", true, false⟩),
    .aliases (.add ⟨2, "orders", "`customers`", true, false⟩),
    .queries (.add ⟨1, "orders", "SELECT * FROM `orders`;", -1⟩),
    .aliases (.remove 2 1),
    .aliases (.remove 1 1),
    .aliases (.add ⟨1, "orders", "`archive`", true, false⟩),
    .aliases (.add ⟨1, "orders", "`orders`", true, false⟩) ]

/-- The name that was removed is given again, with a new number. -/
theorem store_follows_log_readded :
    readdingCalls.countP StoreCall.isAdd < UInt64.size ∧
      remaining ((fresh .standard .empty .empty).served readdingCalls).2.aliases =
        [⟨2, ⟨2, "orders", "`customers`", true, false⟩⟩,
          ⟨3, ⟨1, "orders", "`archive`", true, false⟩⟩] ∧
      ((fresh .standard .empty .empty).served readdingCalls).1.store.aliases.Follows
        ((fresh .standard .empty .empty).served readdingCalls).2.aliases := by
  have hfew : readdingCalls.countP StoreCall.isAdd < UInt64.size := by decide
  exact ⟨hfew, by decide +kernel, (store_follows_log .standard .empty readdingCalls hfew).1⟩

end Catalog

end QueryCatalog
