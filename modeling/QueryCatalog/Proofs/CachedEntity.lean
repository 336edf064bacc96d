/-
  An entity that is cached is found again as it was.

  The record of an entity is an object of its own fields, each of them once, and so it is decoded field
  by field (`aliasOfDoc_fields`, `queryOfDoc_fields`).  It is flat too, hence `entity?_written`: the
  bytes written for an entity hold that entity.
-/
import QueryCatalog.Cache.Record
import QueryCatalog.Proofs.FlatRecord
import QueryCatalog.Proofs.RecordForms

namespace QueryCatalog

namespace Cache

/-! ## Entities -/

theorem dateOfDoc_writtenDate : dateOfDoc (.text writtenDate) = .ok () := by
  have hdate : DateTime.isDateTime writtenDate = true := by decide
  show (if DateTime.isDateTime writtenDate then .ok () else .error .malformed : Decoded Unit) = _
  rw [hdate]
  rfl

/-- An alias written out field by field is read back. -/
theorem aliasOfDoc_fields (e : Alias) : aliasOfDoc (.ofFields (aliasFields e)) = .ok e := by
  have hrecord : (Doc.ofFields (aliasFields e)).IsRecord none
      (plainFields ((aliasFields e).map fun f => (f.1, some f.2))) :=
    Doc.isRecord_plain .named rfl (by simp [aliasFields]) nofun
  refine Doc.record_ok hrecord rfl rfl (by decide) fun layout hgives => ?_
  obtain ⟨hid, howner, hname, htarget, htable, haggregate, hdate, -⟩ := hgives
  have hid := Layout.required_ok Doc.asUInt64 hid (Doc.asUInt64_toNat e.id)
  have howner := Layout.required_ok Doc.asUInt64 howner (Doc.asUInt64_toNat e.body.owner)
  have hname := Layout.required_ok Doc.asText (a := e.body.name) hname rfl
  have htarget := Layout.required_ok Doc.asText (a := e.body.target) htarget rfl
  have htable := Layout.required_ok Doc.asBool (a := e.body.isTable) htable rfl
  have haggregate := Layout.required_ok Doc.asBool (a := e.body.isAggregate) haggregate rfl
  have hdate := Layout.required_ok dateOfDoc hdate dateOfDoc_writtenDate
  exact Located.seq_ok (Located.seq_ok (Located.seq_ok (Located.seq_ok (Located.seq_ok
    (Located.seq_ok (Located.map_ok hid) howner) hname) htarget) htable) haggregate) hdate

theorem queryOfDoc_fields (e : StoredQuery) : queryOfDoc (.ofFields (queryFields e)) = .ok e := by
  have hrecord : (Doc.ofFields (queryFields e)).IsRecord none
      (plainFields ((queryFields e).map fun f => (f.1, some f.2))) :=
    Doc.isRecord_plain .named rfl (by simp [queryFields]) nofun
  refine Doc.record_ok hrecord rfl rfl (by decide) fun layout hgives => ?_
  obtain ⟨hid, howner, hname, hsql, hcount, hdate, -⟩ := hgives
  have hid := Layout.required_ok Doc.asUInt64 hid (Doc.asUInt64_toNat e.id)
  have howner := Layout.required_ok Doc.asUInt64 howner (Doc.asUInt64_toNat e.body.owner)
  have hname := Layout.required_ok Doc.asText (a := e.body.name) hname rfl
  have hsql := Layout.required_ok Doc.asText (a := e.body.sql) hsql rfl
  have hcount := Layout.required_ok Doc.asInt64 hcount (Doc.asInt64_toInt e.body.columnCount)
  have hdate := Layout.required_ok dateOfDoc hdate dateOfDoc_writtenDate
  exact Located.seq_ok (Located.seq_ok (Located.seq_ok (Located.seq_ok (Located.seq_ok
    (Located.map_ok hid) howner) hname) hsql) hcount) hdate

/-- A flat record that decodes to its entity is found again behind its bytes. -/
theorem entity?_written_of_flat {β : Type} [Cached β] {e : Entity β} (hne : Cached.fields e ≠ [])
    (hplain : ∀ f ∈ Cached.fields e, f.2.IsPlain)
    (hdoc : Cached.ofDoc (.ofFields (Cached.fields e)) = .ok e) : entity? (written e) = some e := by
  rw [entity?, written, bytesOf, Doc.Source.ofBytes_utf8, Doc.decode, Doc.read_written hne hplain]
  simp only [hdoc]
  rfl

/-- Unsigned words are small enough to be written as whole numbers. -/
theorem fitsWord_toNat (n : UInt64) : Doc.FitsWord n.toNat := by
  have hlt := n.toNat_lt
  simp [Doc.FitsWord]
  omega

theorem fitsWord_toInt (i : Int64) : Doc.FitsWord i.toInt := by
  have hlow := i.le_toInt
  have hhigh := i.toInt_lt
  simp [Doc.FitsWord]
  omega

/-- Bodies whose entities are found again in what is written of them. -/
class LawfulCached (β : Type) [Cached β] : Prop where
  entity?_written : ∀ e : Entity β, entity? (written e) = some e

instance : LawfulCached AliasBody where
  entity?_written e := by
    refine entity?_written_of_flat (List.cons_ne_nil _ _) (fun f hf => ?_) (aliasOfDoc_fields e)
    simp only [Cached.fields, aliasFields, List.mem_cons, List.not_mem_nil, or_false] at hf
    rcases hf with rfl | rfl | rfl | rfl | rfl | rfl | rfl
    · exact fitsWord_toNat _
    · exact fitsWord_toNat _
    all_goals exact trivial

instance : LawfulCached QueryBody where
  entity?_written e := by
    refine entity?_written_of_flat (List.cons_ne_nil _ _) (fun f hf => ?_) (queryOfDoc_fields e)
    simp only [Cached.fields, queryFields, List.mem_cons, List.not_mem_nil, or_false] at hf
    rcases hf with rfl | rfl | rfl | rfl | rfl | rfl
    · exact fitsWord_toNat _
    · exact fitsWord_toNat _
    · exact trivial
    · exact trivial
    · exact fitsWord_toInt _
    · exact trivial

/-- A pointer is read back. -/
theorem textOf?_bytesOf (s : String) : textOf? (bytesOf s) = some s :=
  dif_pos s.isValidUTF8

end Cache

end QueryCatalog
