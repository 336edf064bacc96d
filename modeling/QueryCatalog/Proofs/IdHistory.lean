/-
  Numbers never come back.

  A sequence is asked for its next number and moved forward, in any order and to any targets.  All that
  its replies depend on is how far it has come (`taken`), which is 0 for a sequence that nothing was
  taken from: it replies like one that was moved to 0.

  1. **Two sides** — `run` makes calls of a sequence; `events` notes what each of them came to.  The
     numbers that were given or moved to are read off the events alone (`reached`).
  2. **One law of a call** — a call makes the sequence come to a number that it had not passed, which is one
     above if the number is given, or it fails and changes nothing (`serve_cases`).
  3. **One invariant** — the sequence has come further than a number exactly if some number that was
     reached is greater (`Follows.passed`).  So a number lies ahead of it exactly if it is none of those
     that were passed (`Follows.ahead_iff`), and the next number is the least that lies ahead.

  `numbers_never_return` puts this together.
-/
import QueryCatalog.Proofs.StoredTable

namespace QueryCatalog.IdSequence

/-! ## Calls and events -/

/-- What can be asked of a sequence. -/
inductive Call where
  | next
  | moveTo (target : UInt64)
deriving DecidableEq, Repr

/-- What a call has come to. -/
inductive Event where
  | given (id : UInt64)
  /-- There is no next number. -/
  | exhausted
  | moved (target : UInt64)
  | refused (cause : MovedBack)
deriving DecidableEq, Repr

/-- The number that the sequence has come to by an event. -/
def Event.reached? : Event → Option UInt64
  | .given id => some id
  | .moved target => some target
  | .exhausted => none
  | .refused _ => none

/-- The number that was given. -/
def Event.given? : Event → Option UInt64
  | .given id => some id
  | _ => none

/-- Whether the call came to nothing. -/
def Event.failed : Event → Bool
  | .exhausted => true
  | .refused _ => true
  | _ => false

theorem Event.given?_eq_some_iff {e : Event} {n : UInt64} : e.given? = some n ↔ e = .given n := by
  cases e <;> simp [given?]

/-- A call comes to a number or to nothing. -/
theorem Event.reached?_eq_none_iff (e : Event) : e.reached? = none ↔ e.failed = true := by
  cases e <;> simp [reached?, failed]

/-- The numbers that were given or moved to, in order. -/
def reached (past : List Event) : List UInt64 := past.filterMap Event.reached?

/-- The numbers that were given, in order. -/
def given (past : List Event) : List UInt64 := past.filterMap Event.given?

/-- A number that can still be given: it is not 0, and it is above all that was reached. -/
def Ahead (past : List Event) (n : UInt64) : Prop := 0 < n ∧ ∀ m ∈ reached past, m < n

/-- What a call comes to, and the sequence behind it. -/
def serve (s : IdSequence) : Call → Event × IdSequence
  | .next =>
    match s.next with
    | (some id, s') => (.given id, s')
    | (none, s') => (.exhausted, s')
  | .moveTo target =>
    match s.moveTo target with
    | .ok s' => (.moved target, s')
    | .error cause => (.refused cause, s)

/-- The sequence behind some calls. -/
def run (s : IdSequence) (calls : List Call) : IdSequence :=
  calls.foldl (fun s call => (s.serve call).2) s

/-- What the calls come to, one after the other. -/
def events (s : IdSequence) : List Call → List Event
  | [] => []
  | call :: calls => (s.serve call).1 :: events (s.serve call).2 calls

theorem run_append (s : IdSequence) (calls more : List Call) :
    s.run (calls ++ more) = (s.run calls).run more :=
  List.foldl_append

theorem events_append (s : IdSequence) (calls more : List Call) :
    s.events (calls ++ more) = s.events calls ++ (s.run calls).events more := by
  induction calls generalizing s with
  | nil => rfl
  | cons call calls ih => exact congrArg ((s.serve call).1 :: ·) (ih (s.serve call).2)

theorem reached_append (past more : List Event) :
    reached (past ++ more) = reached past ++ reached more :=
  List.filterMap_append

/-- What lies ahead in the end did so all the time. -/
theorem Ahead.of_append {past more : List Event} {n : UInt64} (h : Ahead (past ++ more) n) :
    Ahead past n := by
  refine ⟨h.1, fun m hm => h.2 m ?_⟩
  rw [reached_append]
  exact List.mem_append_left _ hm

/-! ## One call -/

theorem taken_lt (s : IdSequence) : s.taken < UInt64.size := by
  obtain ⟨current⟩ := s
  cases current with
  | none => decide
  | some n => exact n.toNat_lt

/-- A sequence is moved to any target that it has not passed. -/
theorem moveTo_cases (s : IdSequence) (target : UInt64) :
    (∃ s', s.moveTo target = .ok s' ∧ s.taken ≤ target.toNat ∧ s'.taken = target.toNat) ∨
      (∃ cause, s.moveTo target = .error cause ∧ target.toNat < s.taken) := by
  obtain ⟨current⟩ := s
  cases current with
  | none => exact .inl ⟨⟨some target⟩, rfl, Nat.zero_le _, rfl⟩
  | some n =>
    by_cases hlt : target < n
    · exact .inr ⟨⟨n, target⟩, if_pos hlt, UInt64.lt_iff_toNat_lt.mp hlt⟩
    · exact .inl ⟨⟨some target⟩, if_neg hlt, UInt64.le_iff_toNat_le.mp (UInt64.not_lt.mp hlt), rfl⟩

/-- The next number is the one above the last. -/
theorem next_eq_some_iff (s : IdSequence) (n : UInt64) :
    s.next.1 = some n ↔ n.toNat = s.taken + 1 := by
  obtain ⟨id, s', hnext, hid, -⟩ | ⟨hnext, hend⟩ := s.next_cases
  · rw [hnext, ← hid, UInt64.toNat_inj, Option.some.injEq, eq_comm]
  · have hlt := n.toNat_lt_size
    have hsize : greatest.toNat + 1 = UInt64.size := rfl
    rw [hnext, taken_of_current hend]
    constructor
    · intro h
      cases h
    · omega

/-- There is no next number exactly behind the greatest. -/
theorem next_eq_none_iff (s : IdSequence) : s.next.1 = none ↔ s.taken + 1 = UInt64.size := by
  obtain ⟨id, s', hnext, hid, -⟩ | ⟨hnext, hend⟩ := s.next_cases
  · have hlt := id.toNat_lt_size
    rw [hnext]
    constructor
    · intro h
      cases h
    · omega
  · rw [hnext, taken_of_current hend]
    exact ⟨fun _ => rfl, fun _ => rfl⟩

/-- Only a move back is refused. -/
theorem moveTo_error_iff (s : IdSequence) (target : UInt64) :
    (∃ cause, s.moveTo target = .error cause) ↔ target.toNat < s.taken := by
  obtain ⟨s', hmove, hle, -⟩ | ⟨cause, hmove, hlt⟩ := s.moveTo_cases target
  · rw [hmove]
    constructor
    · rintro ⟨cause, h⟩
      cases h
    · omega
  · exact ⟨fun _ => hlt, fun _ => ⟨cause, hmove⟩⟩

/-- What a call comes to: the sequence has come to a number that it had not passed, and one above if it
    was given; or the call has failed and nothing has changed. -/
theorem serve_cases (s : IdSequence) (call : Call) :
    (∃ n, (s.serve call).1.reached? = some n ∧ s.taken ≤ n.toNat ∧ (s.serve call).2.taken = n.toNat ∧
        ∀ id, (s.serve call).1 = .given id → id.toNat = s.taken + 1) ∨
      ((s.serve call).1.failed = true ∧ (s.serve call).2 = s) := by
  cases call with
  | next =>
    -- a number is given, or there is none left
    obtain ⟨id, s', hnext, hid, hcurrent⟩ | ⟨hnext, -⟩ := s.next_cases
    · refine .inl ⟨id, ?_⟩
      simp only [serve, hnext, Event.reached?]
      refine ⟨trivial, by omega, taken_of_current hcurrent, fun id' h => ?_⟩
      cases h
      exact hid
    · refine .inr ?_
      simp only [serve, hnext, Event.failed, and_self]
  | moveTo target =>
    -- a move goes ahead, or is refused as one back
    obtain ⟨s', hmove, hle, hs'⟩ | ⟨cause, hmove, -⟩ := s.moveTo_cases target
    · refine .inl ⟨target, ?_⟩
      simp only [serve, hmove, Event.reached?]
      exact ⟨trivial, hle, hs', fun id h => by cases h⟩
    · refine .inr ?_
      simp only [serve, hmove, Event.failed, and_self]

/-- A call that comes to nothing leaves the sequence as it was. -/
theorem serve_eq_of_failed (s : IdSequence) {call : Call} (hfailed : (s.serve call).1.failed = true) :
    (s.serve call).2 = s := by
  obtain ⟨n, hn, -⟩ | ⟨-, hsame⟩ := s.serve_cases call
  · rw [(Event.reached?_eq_none_iff _).mpr hfailed] at hn
    cases hn
  · exact hsame

/-! ## Sequence and events side by side -/

/-- The sequence has passed exactly the numbers below one that was reached, and every number that was
    given is positive and above all that had been reached before. -/
structure Follows (s : IdSequence) (past : List Event) : Prop where
  passed : ∀ k : Nat, k < s.taken ↔ ∃ m ∈ reached past, k < m.toNat
  rising : past.Pairwise fun e e' => ∀ m n, e.reached? = some m → e' = .given n → m < n
  positive : .given 0 ∉ past

/-- A new sequence follows no events. -/
theorem follows_fresh : Follows fresh [] where
  passed k := by
    constructor
    · intro h
      exact absurd h (Nat.not_lt_zero k)
    · rintro ⟨m, hm, -⟩
      cases hm
  rising := .nil
  positive h := by cases h

namespace Follows

variable {s s' : IdSequence} {past : List Event} {e : Event}

/-- Whatever was reached, the sequence has come at least that far. -/
theorem le_taken (h : Follows s past) {m : UInt64} (hm : m ∈ reached past) : m.toNat ≤ s.taken := by
  refine Nat.le_of_not_lt fun hlt => ?_
  exact absurd ((h.passed s.taken).mpr ⟨m, hm, hlt⟩) (Nat.lt_irrefl _)

/-- A number lies ahead exactly if the sequence has not come to it. -/
theorem ahead_iff (h : Follows s past) (n : UInt64) : Ahead past n ↔ s.taken < n.toNat := by
  constructor
  · rintro ⟨hpos, habove⟩
    refine Nat.lt_of_not_le fun hle => ?_
    have hpos : 0 < n.toNat := UInt64.lt_iff_toNat_lt.mp hpos
    -- the number just below is passed, so one that was reached is no smaller
    obtain ⟨m, hm, hlt⟩ := (h.passed (n.toNat - 1)).mp (by omega)
    have hmn : m.toNat < n.toNat := UInt64.lt_iff_toNat_lt.mp (habove m hm)
    omega
  · intro hlt
    refine ⟨UInt64.lt_iff_toNat_lt.mpr (Nat.lt_of_le_of_lt (Nat.zero_le _) hlt), fun m hm => ?_⟩
    exact UInt64.lt_iff_toNat_lt.mpr (Nat.lt_of_le_of_lt (h.le_taken hm) hlt)

/-- An event behind which the sequence has come to what the events say. -/
theorem concat (h : Follows s past) (hgiven : ∀ n, e = .given n → n.toNat = s.taken + 1)
    (hs' : ∀ k, k < s'.taken ↔ k < s.taken ∨ ∃ m, e.reached? = some m ∧ k < m.toNat) :
    Follows s' (past ++ [e]) where
  passed k := by
    have hlast : (∃ m ∈ reached [e], k < m.toNat) ↔ ∃ m, e.reached? = some m ∧ k < m.toNat := by
      simp [reached]
    simp only [reached_append, List.mem_append, or_and_right, exists_or, hlast, hs', h.passed]
  rising := by
    refine List.pairwise_append.mpr ⟨h.rising, List.pairwise_singleton _ e, ?_⟩
    intro e₀ he₀ e' he' m n hm hn
    have hmem : m ∈ reached past := List.mem_filterMap.mpr ⟨e₀, he₀, hm⟩
    have hle := h.le_taken hmem
    -- a number that is given is one above all that was reached
    have hsucc := hgiven n ((List.mem_singleton.mp he').symm.trans hn)
    exact UInt64.lt_iff_toNat_lt.mpr (by omega)
  positive hmem := by
    rcases List.mem_append.mp hmem with hpast | hlast
    · exact h.positive hpast
    · have hsucc := hgiven 0 (List.mem_singleton.mp hlast).symm
      cases hsucc

/-- A call keeps the two side by side. -/
theorem step (h : Follows s past) (call : Call) :
    Follows (s.serve call).2 (past ++ [(s.serve call).1]) := by
  obtain ⟨n, hn, hle, htaken, hgiven⟩ | ⟨hfailed, hsame⟩ := s.serve_cases call
  · refine h.concat hgiven fun k => ?_
    rw [htaken, hn]
    constructor
    · exact fun hk => .inr ⟨n, rfl, hk⟩
    · rintro (hk | ⟨m, hm, hk⟩)
      · omega
      · cases hm
        exact hk
  · have hnone := (Event.reached?_eq_none_iff _).mpr hfailed
    rw [hsame]
    refine h.concat (fun n hn => ?_) fun k => ?_
    · rw [hn] at hfailed
      cases hfailed
    · simp [hnone]

/-- Calls keep the two side by side. -/
theorem run (h : Follows s past) (calls : List Call) :
    Follows (s.run calls) (past ++ s.events calls) := by
  induction calls generalizing s past with
  | nil =>
    rw [events, List.append_nil]
    exact h
  | cons call calls ih =>
    have hrest := ih (h.step call)
    rwa [List.append_assoc, List.singleton_append] at hrest

/-- The numbers that were given increase. -/
theorem given_increasing (h : Follows s past) : (given past).Pairwise (· < ·) := by
  refine List.pairwise_filterMap.mpr (h.rising.imp fun {e e'} hlt m hm n hn => ?_)
  rw [Event.given?_eq_some_iff] at hm hn
  exact hlt m n (congrArg Event.reached? hm) hn

/-- Numbers start at one. -/
theorem zero_not_given (h : Follows s past) : 0 ∉ given past := by
  intro hmem
  obtain ⟨e, he, hzero⟩ := List.mem_filterMap.mp hmem
  rw [Event.given?_eq_some_iff] at hzero
  exact h.positive (hzero ▸ he)

/-- The next number is the least that lies ahead. -/
theorem next_eq_some_iff (h : Follows s past) (n : UInt64) :
    s.next.1 = some n ↔ Ahead past n ∧ ∀ k, Ahead past k → n ≤ k := by
  rw [IdSequence.next_eq_some_iff]
  simp only [h.ahead_iff, UInt64.le_iff_toNat_le]
  constructor
  · intro hn
    exact ⟨by omega, fun k hk => by omega⟩
  · rintro ⟨hlt, hleast⟩
    have hfits : s.taken + 1 < UInt64.size := Nat.lt_of_le_of_lt hlt n.toNat_lt_size
    have hle := hleast (.ofNat (s.taken + 1))
    rw [UInt64.toNat_ofNat_of_lt' hfits] at hle
    have hle := hle (Nat.lt_succ_self _)
    omega

/-- There is no next number exactly if none lies ahead. -/
theorem next_eq_none_iff (h : Follows s past) : s.next.1 = none ↔ ∀ n, ¬ Ahead past n := by
  rw [IdSequence.next_eq_none_iff]
  simp only [h.ahead_iff]
  constructor
  · intro hend n
    have hlt := n.toNat_lt_size
    omega
  · intro hnone
    have hgreatest := hnone greatest
    have hlt := s.taken_lt
    have hsize : greatest.toNat + 1 = UInt64.size := rfl
    omega

/-- A sequence is not moved back behind a number that was reached, and else it is moved. -/
theorem moveTo_error_iff (h : Follows s past) (target : UInt64) :
    (∃ cause, s.moveTo target = .error cause) ↔ ∃ m ∈ reached past, target < m := by
  rw [IdSequence.moveTo_error_iff, h.passed]
  simp only [UInt64.lt_iff_toNat_lt]

end Follows

theorem follows_run (calls : List Call) : Follows (fresh.run calls) (fresh.events calls) :=
  follows_fresh.run calls

/-- **Numbers never come back.**  Whatever is called on a fresh sequence, the numbers that it gives
    increase, none is 0, and each is above every target that the sequence was moved to before.  Behind
    the calls, the next number is the least one that is not 0 and above all that was given or moved
    to, and if there is none such, then no number is given, now or behind any more calls.  A move is
    refused exactly if its target is below a number that was given or moved to, and a call that gives no
    number or is refused leaves the sequence as it was. -/
theorem numbers_never_return (calls : List Call) :
    let s := fresh.run calls
    let past := fresh.events calls
    ((given past).Pairwise (· < ·) ∧ 0 ∉ given past ∧
      past.Pairwise fun e e' => ∀ v n, e = .moved v → e' = .given n → v < n) ∧
    (∀ n, s.next.1 = some n ↔ Ahead past n ∧ ∀ k, Ahead past k → n ≤ k) ∧
    (s.next.1 = none ↔ ∀ n, ¬ Ahead past n) ∧
    (∀ more, s.next.1 = none → (fresh.run (calls ++ more)).next.1 = none) ∧
    (∀ v, (∃ cause, s.moveTo v = .error cause) ↔ ∃ m ∈ reached past, v < m) ∧
    ∀ call, (s.serve call).1.failed = true → fresh.run (calls ++ [call]) = s := by
  intro s past
  have hs : Follows s past := follows_run calls
  refine ⟨⟨hs.given_increasing, hs.zero_not_given, ?_⟩, hs.next_eq_some_iff, hs.next_eq_none_iff, ?_,
    hs.moveTo_error_iff, ?_⟩
  · exact hs.rising.imp fun {e e'} hlt v n hv hn => hlt v n (congrArg Event.reached? hv) hn
  · intro more hnone
    refine (follows_run (calls ++ more)).next_eq_none_iff.mpr fun n hahead => ?_
    -- what lies ahead of a longer past lies ahead of a shorter one
    rw [events_append] at hahead
    exact hs.next_eq_none_iff.mp hnone n hahead.of_append
  · intro call hfailed
    rw [run_append]
    exact s.serve_eq_of_failed hfailed

/-- Numbers are left out twice, with an attempt to go back between, and then there is none left. -/
def skippingCalls : List Call := [.next, .moveTo 41, .next, .moveTo 3, .moveTo greatest, .next]

/-- Moved to the greatest number, the sequence gives no number any more and cannot be moved back. -/
theorem numbers_never_return_skipping :
    fresh.events skippingCalls =
        [.given 1, .moved 41, .given 42, .refused ⟨42, 3⟩, .moved greatest, .exhausted] ∧
      (fresh.run skippingCalls).next.1 = none ∧
      (∀ more, (fresh.run (skippingCalls ++ more)).next.1 = none) ∧
      ((fresh.run skippingCalls).serve (.moveTo 42)).1.failed = true ∧
      fresh.run (skippingCalls ++ [.moveTo 42]) = fresh.run skippingCalls := by
  obtain ⟨-, -, -, hended, -, hunchanged⟩ := numbers_never_return skippingCalls
  have hnone : (fresh.run skippingCalls).next.1 = none := by decide
  have hfailed : ((fresh.run skippingCalls).serve (.moveTo 42)).1.failed = true := by decide
  exact ⟨by decide, hnone, fun more => hended more hnone, hfailed, hunchanged (.moveTo 42) hfailed⟩

end QueryCatalog.IdSequence
