/-
  Tables and what they remember.

  Behind a table stands its past: every entity that was ever added, oldest first, of which the rows
  are what has not been removed.  Numbers increase along the past and names are distinct among the
  rows of an owner (`Remembers`); adding extends the past by one entity, and removing leaves it.

  So at most one row answers a lookup, and looking one up is finding the row that answers:
  `Remembers.find?_eq_some_iff`.
-/
import Mathlib.Data.List.Pairwise
import QueryCatalog.Store

namespace QueryCatalog

namespace IdSequence

/-- How far the sequence has come: how many numbers it can no longer give. -/
def taken (s : IdSequence) : Nat :=
  match s.current with
  | none => 0
  | some n => n.toNat

theorem taken_of_current {s : IdSequence} {n : UInt64} (h : s.current = some n) :
    s.taken = n.toNat := by
  rw [taken, h]

/-- The next number is one above the last, and there is none, with nothing changed, only behind the
    greatest. -/
theorem next_cases (s : IdSequence) :
    (∃ id s', s.next = (some id, s') ∧ id.toNat = s.taken + 1 ∧ s'.current = some id) ∨
      (s.next = (none, s) ∧ s.current = some greatest) := by
  obtain ⟨current⟩ := s
  cases current with
  | none => exact .inl ⟨1, ⟨some 1⟩, rfl, rfl, rfl⟩
  | some n =>
    by_cases hn : n = greatest
    · subst hn
      exact .inr ⟨rfl, rfl⟩
    · have hlt := n.toNat_lt
      have hne : n.toNat ≠ 18446744073709551615 := fun heq => hn (UInt64.toNat_inj.mp heq)
      -- below the greatest number nothing wraps around
      have hsucc : (n + 1).toNat = n.toNat + 1 := by
        rw [UInt64.toNat_add, UInt64.toNat_one]
        omega
      exact .inl ⟨n + 1, ⟨some (n + 1)⟩, if_neg hn, hsucc, rfl⟩

/-- The next number is above the current one. -/
theorem next_some {s s' : IdSequence} {n : UInt64} (h : s.next = (some n, s')) :
    s'.current = some n ∧ ∀ m, s.current = some m → m < n := by
  obtain ⟨id, s'', hnext, hid, hcurrent⟩ | ⟨hnext, -⟩ := s.next_cases
  · cases hnext.symm.trans h
    refine ⟨hcurrent, fun m hm => ?_⟩
    rw [taken_of_current hm] at hid
    exact UInt64.lt_iff_toNat_lt.mpr (by omega)
  · cases hnext.symm.trans h

/-- There is no next number only behind the greatest one. -/
theorem next_none {s s' : IdSequence} (h : s.next = (none, s')) : s.current = some greatest := by
  obtain ⟨id, s'', hnext, -, -⟩ | ⟨-, hend⟩ := s.next_cases
  · cases hnext.symm.trans h
  · exact hend

/-- Giving a number takes one at most. -/
theorem taken_next (s : IdSequence) : s.next.2.taken ≤ s.taken + 1 := by
  obtain ⟨id, s', hnext, hid, hcurrent⟩ | ⟨hnext, -⟩ := s.next_cases
  · exact Nat.le_of_eq (by rw [hnext, taken_of_current hcurrent, hid])
  · rw [hnext]
    exact Nat.le_add_right _ 1

end IdSequence

section Answers

variable {β : Type} [Body β]

/-- An entity answers to its owner and its number. -/
theorem Entity.answers_id (e : Entity β) : e.answers (Body.owner e.body) (.id e.id) = true := by
  simp [Entity.answers]

theorem Entity.answers_name (e : Entity β) :
    e.answers (Body.owner e.body) (.name (Body.name e.body)) = true := by
  simp [Entity.answers]

end Answers

namespace Table

variable {β : Type} [Body β]

/-! ## One operation -/

/-- An entity answers to its owner alone. -/
theorem owner_of_answers {e : Entity β} {owner : Owner} {lookup : Lookup}
    (h : e.answers owner lookup = true) : Body.owner e.body = owner := by
  cases lookup <;> simp only [Entity.answers, Bool.and_eq_true, beq_iff_eq] at h <;> exact h.2

/-- What is found is a row that answers the lookup. -/
theorem answers_of_find? {t : Table β} {owner : Owner} {lookup : Lookup} {e : Entity β}
    (h : t.find? owner lookup = some e) : e ∈ t.rows ∧ e.answers owner lookup = true := by
  cases lookup with
  | id n =>
    simp only [find?, Option.filter_eq_some_iff] at h
    have hid := List.find?_some h.1
    exact ⟨List.mem_of_find?_eq_some h.1, by simp [Entity.answers, hid, h.2]⟩
  | name s =>
    have hrow := List.find?_some h
    refine ⟨List.mem_of_find?_eq_some h, ?_⟩
    simpa [Entity.answers, and_comm] using hrow

/-- What a successful addition does. -/
theorem add_ok {t t' : Table β} {body : β} {e : Entity β} (h : t.add body = .ok (e, t')) :
    t.find? (Body.owner body) (.name (Body.name body)) = none ∧ e.body = body ∧
      t'.rows = t.rows ++ [e] ∧ t'.ids.current = some e.id ∧
      ∀ n, t.ids.current = some n → n < e.id := by
  simp only [add] at h
  split at h
  · cases h
  · rename_i hfree
    split at h
    · cases h
    · rename_i n ids hnext
      obtain ⟨hcurrent, hlt⟩ := IdSequence.next_some hnext
      simp only [Except.ok.injEq, Prod.mk.injEq] at h
      obtain ⟨rfl, rfl⟩ := h
      exact ⟨by simpa using hfree, rfl, rfl, hcurrent, hlt⟩

/-- Adding a row takes one number at most. -/
theorem taken_add {t t' : Table β} {body : β} {e : Entity β} (h : t.add body = .ok (e, t')) :
    t'.ids.taken ≤ t.ids.taken + 1 := by
  simp only [add] at h
  split at h
  · cases h
  · split at h
    · cases h
    · rename_i n ids hnext
      cases h
      have htaken := t.ids.taken_next
      rw [hnext] at htaken
      exact htaken

/-- Removing a row gives no number back. -/
theorem ids_remove (t : Table β) (owner : Owner) (id : EntityId) :
    (t.remove owner id).2.ids = t.ids := by
  rw [remove]
  split <;> rfl

/-- A body whose name is not in use is added, unless no number is left. -/
theorem add_unused {t : Table β} (body : β)
    (h : t.find? (Body.owner body) (.name (Body.name body)) = none) :
    (t.add body = .error (.idsExhausted (Body.kind β)) ∧ t.ids.current = some IdSequence.greatest) ∨
      ∃ e t', t.add body = .ok (e, t') := by
  simp only [add, h, Option.isSome_none, Bool.false_eq_true, if_false]
  cases hnext : t.ids.next with
  | mk n ids =>
    cases n with
    | none => exact .inl ⟨rfl, IdSequence.next_none hnext⟩
    | some n => exact .inr ⟨_, _, rfl⟩

/-! ## The past -/

/-- The past of a table: its rows are what is left of it, numbers increase, none is above the current
    one, and the rows of an owner have distinct names. -/
structure Remembers (t : Table β) (past : List (Entity β)) : Prop where
  kept : t.rows.Sublist past
  increasing : past.Pairwise fun e e' => e.id < e'.id
  given : ∀ e ∈ past, ∃ n, t.ids.current = some n ∧ e.id ≤ n
  named : t.rows.Pairwise fun e e' =>
    Body.owner e.body = Body.owner e'.body → Body.name e.body ≠ Body.name e'.body

namespace Remembers

variable {t t' : Table β} {past : List (Entity β)}

theorem empty : (Table.empty : Table β).Remembers [] where
  kept := .slnil
  increasing := .nil
  given := fun _ h => absurd h List.not_mem_nil
  named := .nil

/-- A number belongs to one entity of the past. -/
theorem eq_of_id_eq (h : t.Remembers past) {e e' : Entity β} (he : e ∈ past) (he' : e' ∈ past)
    (hid : e.id = e'.id) : e = e' := by
  have hdistinct : past.Pairwise fun e e' => e.id = e'.id → e = e' :=
    h.increasing.imp fun hlt heq => absurd (heq ▸ hlt) (UInt64.lt_irrefl _)
  have hsymm : Std.Symm fun e e' : Entity β => e.id = e'.id → e = e' :=
    ⟨fun _ _ hab hid => (hab hid.symm).symm⟩
  exact hdistinct.forall_of_forall (fun _ _ _ => rfl) he he' hid

/-- An owner's name belongs to one row. -/
theorem eq_of_name_eq (h : t.Remembers past) {e e' : Entity β} (he : e ∈ t.rows) (he' : e' ∈ t.rows)
    (howner : Body.owner e.body = Body.owner e'.body)
    (hname : Body.name e.body = Body.name e'.body) : e = e' := by
  have hdistinct : t.rows.Pairwise fun e e' => Body.owner e.body = Body.owner e'.body →
      Body.name e.body = Body.name e'.body → e = e' :=
    h.named.imp fun hne howner hname => absurd hname (hne howner)
  have hsymm : Std.Symm fun e e' : Entity β => Body.owner e.body = Body.owner e'.body →
      Body.name e.body = Body.name e'.body → e = e' :=
    ⟨fun _ _ hab howner hname => (hab howner.symm hname.symm).symm⟩
  exact hdistinct.forall_of_forall (fun _ _ _ _ => rfl) he he' howner hname

/-- At most one row answers a lookup. -/
theorem eq_of_answers (h : t.Remembers past) {e e' : Entity β} (he : e ∈ t.rows) (he' : e' ∈ t.rows)
    {owner : Owner} {lookup : Lookup} (hanswers : e.answers owner lookup = true)
    (hanswers' : e'.answers owner lookup = true) : e = e' := by
  cases lookup with
  | id n =>
    simp only [Entity.answers, Bool.and_eq_true, beq_iff_eq] at hanswers hanswers'
    exact h.eq_of_id_eq (h.kept.subset he) (h.kept.subset he') (hanswers.1.trans hanswers'.1.symm)
  | name s =>
    simp only [Entity.answers, Bool.and_eq_true, beq_iff_eq] at hanswers hanswers'
    exact h.eq_of_name_eq he he' (hanswers.2.trans hanswers'.2.symm)
      (hanswers.1.trans hanswers'.1.symm)

/-- What is found is the row that answers the lookup. -/
theorem find?_eq_some_iff (h : t.Remembers past) {owner : Owner} {lookup : Lookup} {e : Entity β} :
    t.find? owner lookup = some e ↔ e ∈ t.rows ∧ e.answers owner lookup = true := by
  refine ⟨answers_of_find?, fun ⟨hmem, hanswers⟩ => ?_⟩
  cases hfind : t.find? owner lookup with
  | some e' =>
    obtain ⟨hmem', hanswers'⟩ := answers_of_find? hfind
    rw [h.eq_of_answers hmem hmem' hanswers hanswers']
  | none =>
    cases lookup with
    | id n =>
      simp only [Entity.answers, Bool.and_eq_true, beq_iff_eq] at hanswers
      -- the first row of that number is this one, so its owner is the one who asks
      cases hrow : t.rows.find? fun e => e.id == n with
      | none =>
        have hmiss := List.find?_eq_none.mp hrow e hmem
        simp [hanswers.1] at hmiss
      | some e' =>
        have hid : e'.id = n := by simpa using List.find?_some hrow
        have heq := h.eq_of_id_eq (h.kept.subset (List.mem_of_find?_eq_some hrow))
          (h.kept.subset hmem) (hid.trans hanswers.1.symm)
        simp [find?, hrow, heq, hanswers.2] at hfind
    | name s =>
      simp only [Entity.answers, Bool.and_eq_true, beq_iff_eq] at hanswers
      have hmiss := List.find?_eq_none.mp hfind e hmem
      simp [hanswers.1, hanswers.2] at hmiss

/-- Adding extends the past. -/
theorem add (h : t.Remembers past) {body : β} {e : Entity β} (hadd : t.add body = .ok (e, t')) :
    t'.Remembers (past ++ [e]) := by
  obtain ⟨hfree, rfl, hrows, hcurrent, hlt⟩ := add_ok hadd
  -- the number is new, even among those of rows that are gone
  have hbelow : ∀ e' ∈ past, e'.id < e.id := by
    intro e' he'
    obtain ⟨n, hn, hle⟩ := h.given e' he'
    exact UInt64.lt_of_le_of_lt hle (hlt n hn)
  refine ⟨?_, ?_, fun e' he' => ⟨e.id, hcurrent, ?_⟩, ?_⟩
  · rw [hrows]
    exact h.kept.append (List.Sublist.refl [e])
  · refine List.pairwise_append.mpr ⟨h.increasing, List.pairwise_singleton _ _, ?_⟩
    intro e' he' e'' he''
    rw [List.mem_singleton.mp he'']
    exact hbelow e' he'
  · rcases List.mem_append.mp he' with hold | hnew
    · exact UInt64.le_of_lt (hbelow e' hold)
    · rw [List.mem_singleton.mp hnew]
      exact UInt64.le_refl _
  · rw [hrows]
    refine List.pairwise_append.mpr ⟨h.named, List.pairwise_singleton _ _, ?_⟩
    intro e' he' e'' he'' howner hname
    rw [List.mem_singleton.mp he''] at howner hname
    have hmiss := List.find?_eq_none.mp hfree e' he'
    simp [howner, hname] at hmiss

/-- Removing leaves the past as it is. -/
theorem remove (h : t.Remembers past) (owner : Owner) (id : EntityId) :
    (t.remove owner id).2.Remembers past := by
  rw [Table.remove]
  split
  · have hsub : (t.rows.eraseP fun e => e.id == id).Sublist t.rows := List.eraseP_sublist
    exact ⟨hsub.trans h.kept, h.increasing, h.given, h.named.sublist hsub⟩
  · exact h

end Remembers

end Table

end QueryCatalog
