/-
  A timed map is the history of its writes.

  A map is written, looked at and cleared while time passes, and it clears itself behind some of the
  writes.  What a look finds has a simpler description, in which no record is ever taken away: the
  history of all writes that were carried out, of which the last one to a key counts, as long as it
  lives.

  1. **Two sides** — `Upkeep.after` runs calls on a map; `History.of` notes the clock and the writes of
     the same calls, and nothing else.
  2. **One law** — all that is needed of the way in which a map is kept is `Faithful`: which writes are
     refused, what a write changes for all later looks, and that clearing changes nothing for them.  The
     map keeps itself faithfully, and so does a map that is never cleared.
  3. **One invariant** — `Follows` relates map and history not only for the present but for all times to
     come; that is what makes clearing invisible, since a record that has expired stays so.  Each
     call keeps it (`Follows.step`), and the reply to the call is the one that the history tells.

  `lookups_tell_last_write` puts this together.
-/
import Mathlib.Data.List.Induction
import QueryCatalog.Catalog.Surroundings
import QueryCatalog.Proofs.CacheFetch

namespace QueryCatalog.TimedMap

variable {ν : Type}

/-! ## Calls -/

/-- What can be asked of a map, and the passing of time. -/
inductive Call (ν : Type) where
  | set (key : String) (value : ν) (ttl : Nat)
  | get (key : String)
  | clear
  | advance (time : Nat)

/-- What a call gives. -/
inductive Reply (ν : Type) where
  | written
  /-- The record would expire beyond the end of the clock. -/
  | refused
  | found (value : Option ν)
  | done

/-- A map, and the time that the clock shows. -/
structure Clocked (ν : Type) where
  map : TimedMap ν
  now : Nat

/-- A catalog at that time, with the map for its records. -/
def Clocked.within (s : Clocked ByteArray) (c : Catalog) : Catalog :=
  { c.withRecords s.map with now := s.now }

/-- The map with a record put in and nothing taken away. -/
def entered (m : TimedMap ν) (key : String) (record : Timed ν) : TimedMap ν :=
  ⟨put key record m.records, nodup_put key record m.distinct⟩

/-- How a map is kept: how a record is written, and what is done when the map is to be cleared. -/
structure Upkeep (ν : Type) where
  set? : TimedMap ν → (now : Nat) → (key : String) → ν → (ttl : Nat) → Option (TimedMap ν)
  clear : TimedMap ν → (now : Nat) → TimedMap ν

namespace Upkeep

/-- The way in which the map keeps itself. -/
def standard : Upkeep ν := ⟨TimedMap.set?, TimedMap.cleared⟩

/-- No record is ever taken away: not behind a write, and not when the map is to be cleared. -/
def hoarding : Upkeep ν where
  set? m now key value ttl :=
    if now + ttl < clockEnd then some (m.entered key ⟨value, now + ttl⟩) else none
  clear m _ := m

/-- The reply to a call, and what is left. -/
def serve (u : Upkeep ν) (s : Clocked ν) : Call ν → Reply ν × Clocked ν
  | .set key value ttl =>
    match u.set? s.map s.now key value ttl with
    | some m => (.written, { s with map := m })
    | none => (.refused, s)
  | .get key => (.found (s.map.get? s.now key), s)
  | .clear => (.done, { s with map := u.clear s.map s.now })
  | .advance time => (.done, { s with now := s.now + time })

/-- What calls leave of a new map. -/
def after (u : Upkeep ν) (calls : List (Call ν)) : Clocked ν :=
  calls.foldl (fun s call => (u.serve s call).2) ⟨.empty, 0⟩

/-- The replies to calls, from a given map on. -/
def replies (u : Upkeep ν) (s : Clocked ν) : List (Call ν) → List (Reply ν)
  | [] => []
  | call :: calls => (u.serve s call).1 :: u.replies (u.serve s call).2 calls

theorem after_concat (u : Upkeep ν) (calls : List (Call ν)) (call : Call ν) :
    u.after (calls ++ [call]) = (u.serve (u.after calls) call).2 := by
  rw [after, List.foldl_append]
  rfl

end Upkeep

/-! ## Histories -/

/-- A write that was carried out. -/
structure Write (ν : Type) where
  key : String
  value : ν
  time : Nat
  ttl : Nat

/-- The time, and the writes that were carried out until then, the latest first. -/
structure History (ν : Type) where
  now : Nat
  writes : List (Write ν)

namespace History

/-- What a call adds to the history. -/
def extended (h : History ν) : Call ν → History ν
  | .set key value ttl =>
    if h.now + ttl < clockEnd then { h with writes := ⟨key, value, h.now, ttl⟩ :: h.writes } else h
  | .get _ => h
  | .clear => h
  | .advance time => { h with now := h.now + time }

/-- The history of some calls. -/
def of (calls : List (Call ν)) : History ν := calls.foldl extended ⟨0, []⟩

/-- The last write to a key. -/
def last? (h : History ν) (key : String) : Option (Write ν) := h.writes.find? fun w => w.key == key

/-- What the last write to a key has left at a time. -/
def live? (h : History ν) (time : Nat) (key : String) : Option ν :=
  (h.last? key).bind fun w => if time < w.time + w.ttl then some w.value else none

/-- The reply to a call, as far as the history tells it. -/
def reply (h : History ν) : Call ν → Reply ν
  | .set _ _ ttl => if h.now + ttl < clockEnd then .written else .refused
  | .get key => .found (h.live? h.now key)
  | .clear => .done
  | .advance _ => .done

theorem of_concat (calls : List (Call ν)) (call : Call ν) :
    of (calls ++ [call]) = (of calls).extended call := by
  rw [of, List.foldl_append]
  rfl

/-- A value is live if it was written last, less than its life ago. -/
theorem live?_eq_some_iff {h : History ν} {time : Nat} {key : String} {value : ν} :
    h.live? time key = some value ↔
      ∃ w, h.last? key = some w ∧ w.value = value ∧ time < w.time + w.ttl := by
  rw [live?, Option.bind_eq_some_iff]
  constructor
  · rintro ⟨w, hw, hlive⟩
    split at hlive
    · exact ⟨w, hw, Option.some.inj hlive, ‹_›⟩
    · cases hlive
  · rintro ⟨w, hw, rfl, hlive⟩
    exact ⟨w, hw, if_pos hlive⟩

/-- Behind a write, its key has what was written, and every other key what it had. -/
theorem live?_written (h : History ν) (key k : String) (value : ν) (time ttl now later : Nat) :
    live? ⟨now, ⟨key, value, time, ttl⟩ :: h.writes⟩ later k =
      if key = k then (if later < time + ttl then some value else none) else h.live? later k := by
  rw [live?, last?, List.find?_cons]
  by_cases hk : key = k
  · simp [hk]
  · have hne : (key == k) = false := beq_eq_false_iff_ne.mpr hk
    simp [hk, hne, live?, last?]

end History

/-! ## Faithful upkeep -/

/-- The upkeep refuses the writes that would expire too late and no others, a write counts for its key and
    for no other, and clearing is not seen by later looks. -/
structure Upkeep.Faithful (u : Upkeep ν) : Prop where
  refused : ∀ (m : TimedMap ν) (now : Nat) (key : String) (value : ν) (ttl : Nat),
    u.set? m now key value ttl = none ↔ clockEnd ≤ now + ttl
  written : ∀ {m m' : TimedMap ν} {now later : Nat} {key : String} {value : ν} {ttl : Nat},
    u.set? m now key value ttl = some m' → now ≤ later → ∀ k,
      m'.get? later k =
        if key = k then (if later < now + ttl then some value else none) else m.get? later k
  cleared : ∀ (m : TimedMap ν) {now later : Nat}, now ≤ later → ∀ key,
    (u.clear m now).get? later key = m.get? later key

/-- Clearing what has expired is not seen. -/
theorem Upkeep.standard_faithful : (standard : Upkeep ν).Faithful where
  refused m now key value ttl := by
    show TimedMap.set? m now key value ttl = none ↔ _
    rw [TimedMap.set?]
    by_cases hend : now + ttl < clockEnd
    · simp [hend]
    · simp [hend]
      omega
  written := get?_set?
  cleared m _ _ := m.get?_cleared

/-- Keeping it for ever is not seen either. -/
theorem Upkeep.hoarding_faithful : (hoarding : Upkeep ν).Faithful where
  refused m now key value ttl := by
    show (if _ then _ else _) = none ↔ _
    by_cases hend : now + ttl < clockEnd
    · simp [hend]
    · simp [hend]
      omega
  written {m m' now later key value ttl} h hlater k := by
    simp only [hoarding] at h
    split at h
    · cases h
      exact get?_put m key k value now ttl later _
    · cases h
  cleared _ _ _ _ _ := rfl

/-! ## Map and history side by side -/

/-- The map shows the time of the history and, at this time and at any later one, gives what the history
    has left. -/
structure Follows (s : Clocked ν) (h : History ν) : Prop where
  now : s.now = h.now
  live : ∀ later, h.now ≤ later → ∀ key, s.map.get? later key = h.live? later key

theorem follows_new : Follows (⟨.empty, 0⟩ : Clocked ν) ⟨0, []⟩ := ⟨rfl, fun _ _ _ => rfl⟩

section Faithful

variable {u : Upkeep ν} (hu : u.Faithful) {s : Clocked ν} {h : History ν}
include hu

/-- A call is answered as the history tells, and map and history stay side by side. -/
theorem Follows.step (hs : Follows s h) (call : Call ν) :
    (u.serve s call).1 = h.reply call ∧ Follows (u.serve s call).2 (h.extended call) := by
  obtain ⟨hnow, hlive⟩ := hs
  cases call with
  | set key value ttl =>
    have hrefused := hu.refused s.map s.now key value ttl
    cases hset : u.set? s.map s.now key value ttl with
    | none =>
      -- the map refuses exactly what the history refuses
      have hend : ¬ h.now + ttl < clockEnd := by
        have := hrefused.mp hset
        omega
      simp only [Upkeep.serve, hset, History.reply, History.extended, if_neg hend]
      exact ⟨trivial, hnow, hlive⟩
    | some m =>
      have hend : h.now + ttl < clockEnd := by
        have := mt hrefused.mpr (by rw [hset]; exact fun hnone => by cases hnone)
        omega
      simp only [Upkeep.serve, hset, History.reply, History.extended, if_pos hend]
      refine ⟨trivial, hnow, fun later hlater k => ?_⟩
      have hlater : h.now ≤ later := hlater
      rw [hu.written hset (by omega) k, hlive later hlater k, History.live?_written, hnow]
  | get key =>
    refine ⟨?_, hnow, hlive⟩
    show Reply.found (s.map.get? s.now key) = .found (h.live? h.now key)
    rw [hnow, hlive h.now (Nat.le_refl _)]
  | clear =>
    refine ⟨rfl, hnow, fun later hlater key => ?_⟩
    have hlater : s.now ≤ later := by
      have : h.now ≤ later := hlater
      omega
    -- nothing is cleared that could still be seen
    exact (hu.cleared s.map hlater key).trans (hlive later (by omega) key)
  | advance time =>
    refine ⟨rfl, ?_, fun later hlater key => ?_⟩
    · show s.now + time = h.now + time
      rw [hnow]
    · have hlater : h.now + time ≤ later := hlater
      exact hlive later (by omega) key

/-- Whatever is called, map and history stay side by side. -/
theorem Upkeep.after_follows (calls : List (Call ν)) : Follows (u.after calls) (.of calls) := by
  induction calls using List.reverseRecOn with
  | nil => exact follows_new
  | append_singleton calls call ih =>
    rw [after_concat, History.of_concat]
    exact (ih.step hu call).2

/-- Two maps with one history, each of them kept faithfully, are told apart by no calls. -/
theorem Follows.replies_eq {u' : Upkeep ν} (hu' : u'.Faithful) {s' : Clocked ν} (hs : Follows s h)
    (hs' : Follows s' h) (calls : List (Call ν)) : u.replies s calls = u'.replies s' calls := by
  induction calls generalizing s s' h with
  | nil => rfl
  | cons call calls ih =>
    obtain ⟨hreply, hnext⟩ := hs.step hu call
    obtain ⟨hreply', hnext'⟩ := hs'.step hu' call
    rw [Upkeep.replies, Upkeep.replies, hreply, hreply', ih hnext hnext']

end Faithful

/-- A record is put into the records of a catalog as into the map, and if it is not, then nothing is. -/
theorem putRecord_run (s : Clocked ByteArray) (c : Catalog) (key : String) (value : ByteArray)
    (ttl : Nat) :
    (Catalog.putRecord key value ttl).run (s.within c) =
      if s.now + ttl < clockEnd then (.ok (), (Upkeep.standard.serve s (.set key value ttl)).2.within c)
      else (.error .expiryOverflow, s.within c) := by
  have hget : (get : Action Catalog).run (s.within c) = (.ok (s.within c), s.within c) := rfl
  have hset : (s.within c).traffic.records.set? (s.within c).now key value ttl =
      s.map.set? s.now key value ttl := rfl
  by_cases hend : s.now + ttl < clockEnd
  · obtain ⟨m, hm⟩ : ∃ m, s.map.set? s.now key value ttl = some m := ⟨_, if_pos hend⟩
    rw [if_pos hend, Catalog.putRecord, run_bind_ok hget, hset, hm]
    simp only [Upkeep.serve, Upkeep.standard, hm]
    rfl
  · have hm : s.map.set? s.now key value ttl = none := if_neg hend
    rw [if_neg hend, Catalog.putRecord, run_bind_ok hget, hset, hm]
    rfl

/-- **A look tells the last write.**  Whatever is called on a new map, a look gives a value exactly if the
    last write to the key that was carried out wrote it and still lives.  A catalog with the map for its
    records fails to put a record in exactly if the record would expire beyond the end of the clock, and
    it is then left as it was, an older record of the key included.  Nobody can tell that records are
    taken away: not from a map of which none ever is, whether it happens behind a write or when the
    map is cleared, and not from the same map had it not just been cleared. -/
theorem lookups_tell_last_write (calls : List (Call ByteArray)) :
    let s := Upkeep.standard.after calls
    let h := History.of calls
    (s.now = h.now ∧ ∀ key value, s.map.get? s.now key = some value ↔
      ∃ w, h.last? key = some w ∧ w.value = value ∧ s.now < w.time + w.ttl) ∧
    (∀ c key value ttl, (Catalog.putRecord key value ttl).run (s.within c) =
      if s.now + ttl < clockEnd then
        (.ok (), (Upkeep.standard.after (calls ++ [.set key value ttl])).within c)
      else (.error .expiryOverflow, s.within c)) ∧
    ∀ more, Upkeep.standard.replies s more = Upkeep.hoarding.replies (Upkeep.hoarding.after calls) more ∧
      Upkeep.standard.replies s more =
        Upkeep.standard.replies (Upkeep.standard.serve s .clear).2 more := by
  intro s h
  have hs : Follows s h := Upkeep.after_follows Upkeep.standard_faithful calls
  refine ⟨⟨hs.now, fun key value => ?_⟩, fun c key value ttl => ?_, fun more => ⟨?_, ?_⟩⟩
  · rw [← History.live?_eq_some_iff, hs.now, hs.live h.now (Nat.le_refl _)]
  · rw [putRecord_run, Upkeep.after_concat]
  · exact hs.replies_eq Upkeep.standard_faithful Upkeep.hoarding_faithful
      (Upkeep.after_follows Upkeep.hoarding_faithful calls) more
  · exact hs.replies_eq Upkeep.standard_faithful Upkeep.standard_faithful
      (hs.step Upkeep.standard_faithful .clear).2 more

end QueryCatalog.TimedMap
