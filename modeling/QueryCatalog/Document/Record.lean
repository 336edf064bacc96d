/-
  Decoding records, tagged records, lists and single values.

  A record is written as an object, its fields in any order, or as an array of the fields in their
  declared order.  In an object a known field stands at most once and unknown members are skipped;
  in an array only trailing fields with a default may be left out.

  The first fault in document order is the one that is reported.  So each fault carries the place
  where it is met: a field's value or a repeated key at its position, a missing field behind the
  last member, in declared order.  Fields are decoded independently of each other (`Located`), and of
  two faults the earlier one is kept.
-/
import QueryCatalog.Document.Error
import QueryCatalog.Document.Reader

namespace QueryCatalog

variable {α β : Type} {whole : Doc}

/-- A decoded value, or the cause of the failure. -/
abbrev Decoded (α : Type) := Except DecodeError α

/-! ## Faults and their places -/

/-- A value, or a fault with the place where it is met. -/
structure Located (α : Type) where
  result : Except (Nat × DecodeError) α

namespace Located

/-- The fault `e` at `place`. -/
def fault (place : Nat) (e : DecodeError) : Located α := ⟨.error (place, e)⟩

/-- What was decoded at `place`. -/
def met (place : Nat) (decoded : Decoded α) : Located α :=
  match decoded with
  | .ok a => ⟨.ok a⟩
  | .error e => fault place e

/-- Both values, or the earlier fault. -/
def apply (f : Located (α → β)) (x : Located α) : Located β :=
  match f.result, x.result with
  | .ok f, .ok a => ⟨.ok (f a)⟩
  | .ok _, .error e => ⟨.error e⟩
  | .error e, .ok _ => ⟨.error e⟩
  | .error e, .error e' => ⟨.error (if e'.1 < e.1 then e' else e)⟩

instance : Applicative Located where
  pure a := ⟨.ok a⟩
  seq f x := f.apply (x ())

end Located

/-- A value, or `null` for none. -/
def Doc.nullable (doc : Doc) (decode : Doc → Decoded α) : Decoded (Option α) :=
  match doc with
  | .null => .ok none
  | doc => (decode doc).map some

/-! ## Records -/

/-- A field of a record: its name and other spellings of it. -/
structure Field where
  name : String
  spellings : List String
deriving DecidableEq, Repr

/-- Fields that have only their name. -/
def fieldsNamed (names : List String) : List Field := names.map fun name => ⟨name, [name]⟩

/-- A field of a record that is being decoded: the place where its faults are met, and its value
    unless it is absent. -/
structure Slot (whole : Doc) where
  name : String
  place : Nat
  part : Option (Doc.Part whole)

/-- A record laid out by its fields. -/
structure Layout (whole : Doc) where
  slots : List (Slot whole)
  /-- The first fault of the record itself. -/
  defect : Option (Nat × DecodeError)
  /-- Written as an object, not as an array. -/
  named : Bool

namespace Layout

/-- Puts the members of an object into the slots, from `place` on, up to the first defect. -/
def fill (fields : List Field) : Nat → List (Slot whole) →
    List (Option String × Doc.Part whole) → List (Slot whole) × Option (Nat × DecodeError)
  | _, slots, [] => (slots, none)
  | place, slots, (none, _) :: _ => (slots, some (place, .malformed))
  | place, slots, (some key, part) :: rest =>
    match fields.find? (·.spellings.contains key) with
    | none =>
      if part.doc.isSkippable then fill fields (place + 1) slots rest
      else (slots, some (place, .malformed))
    | some field =>
      if slots.any fun slot => slot.name == field.name && slot.part.isSome then
        (slots, some (place, .duplicateField field.name))
      else
        let put (slot : Slot whole) : Slot whole :=
          if slot.name == field.name then ⟨slot.name, place, some part⟩ else slot
        fill fields (place + 1) (slots.map put) rest

/-- The fields without values, their faults being met from `place` on. -/
def vacant (fields : List Field) (place : Nat) : List (Slot whole) :=
  fields.zipIdx.map fun (field, i) => ⟨field.name, place + i, none⟩

/-- An object laid out by the fields of a record. -/
def ofMembers (fields : List Field)
    (members : List (Option String × Doc.Part whole)) : Layout whole :=
  let (slots, defect) := fill fields 0 (vacant fields members.length) members
  ⟨slots, defect, true⟩

/-- An array laid out by the fields of a record. -/
def ofItems (fields : List Field) (items : List (Doc.Part whole)) : Layout whole :=
  { slots := fields.zipIdx.map fun (field, i) => ⟨field.name, i, items[i]?⟩
    defect := if fields.length < items.length then some (fields.length, .malformed) else none
    named := false }

/-- The value of a field, or what an absent field gives. -/
def field (layout : Layout whole) (name : String) (absent : Nat → Located α)
    (decode : Doc.Part whole → Decoded α) : Located α :=
  match layout.slots.find? (·.name == name) with
  | some ⟨_, place, some part⟩ => .met place (decode part)
  | some ⟨_, place, none⟩ => absent place
  | none => absent 0

/-- A field that has to be there. -/
def required (layout : Layout whole) (name : String) (decode : Doc.Part whole → Decoded α) :
    Located α :=
  layout.field name
    (fun place => .fault place (if layout.named then .missingField name else .malformed)) decode

/-- A field that may be left out. -/
def defaulted (layout : Layout whole) (name : String) (default : α)
    (decode : Doc.Part whole → Decoded α) : Located α :=
  layout.field name (fun _ => pure default) decode

/-- A field that may be `null`, and in an object also absent. -/
def option (layout : Layout whole) (name : String) (decode : Doc → Decoded α) :
    Located (Option α) :=
  layout.field name
    (fun place => if layout.named then pure none else .fault place .malformed)
    (fun part => part.doc.nullable decode)

/-- The whole record, or its first fault. -/
def close (layout : Layout whole) (fields : Located α) : Decoded α :=
  let defect : Located Unit :=
    match layout.defect with
    | some (place, e) => .fault place e
    | none => pure ()
  match (fields <* defect).result with
  | .ok a => .ok a
  | .error (_, e) => .error e

end Layout

/-- The document laid out by the fields of a record; an array from its item `skip` on. -/
def Doc.layout (fields : List Field) (skip : Nat) : (doc : Doc) → Decoded (Layout doc)
  | .object members => .ok (.ofMembers fields (memberParts members))
  | .array items => .ok (.ofItems fields ((itemParts items).drop skip))
  | _ => .error .malformed

/-- A record. -/
def Doc.record (fields : List Field) (doc : Doc) (build : Layout doc → Located α) : Decoded α := do
  let layout ← doc.layout fields 0
  layout.close (build layout)

/-! ## Tagged records -/

/-- The variants of a tagged record, each with its tag. -/
class Tagged (τ : Type) where
  variants : List τ
  tag : τ → String

/-- The variant with a given tag. -/
def Tagged.ofTag (τ : Type) [Tagged τ] (tag : String) : Decoded τ :=
  let known : List τ := variants
  match known.find? fun v => Tagged.tag v == tag with
  | some v => .ok v
  | none => .error (.unknownTag tag (known.map Tagged.tag))

/-- The variant with a given number, counted from zero. -/
def Tagged.ofNumber (τ : Type) [Tagged τ] (n : Int) : Decoded τ :=
  let known : List τ := variants
  match if 0 ≤ n then known[n.toNat]? else none with
  | some v => .ok v
  | none => .error .malformed

/-- Where a tagged record stands, which decides how its tag may be written. -/
inductive Position where
  /-- On its own or in a plain record: the tag is a text. -/
  | outer
  /-- Inside a tagged record or as an alternative of a choice: the tag is a text or the number of
      the variant. -/
  | inner
deriving DecidableEq, Repr, Inhabited

/-- The variant that the value of a tag stands for. -/
def Doc.variant (τ : Type) [Tagged τ] : Position → Doc → Decoded τ
  | _, .text tag => Tagged.ofTag τ tag
  | .inner, .int n => Tagged.ofNumber τ n
  | _, _ => .error .malformed

/-- The variant of an object: the member `type` tells it, wherever it stands, and all other members
    have to be clean.  Faults are met in order. -/
def Doc.variantOfMembers (τ : Type) [Tagged τ] (position : Position) :
    Option τ → List (Option String × Doc) → Decoded τ
  | found, [] =>
    match found with
    | some v => .ok v
    | none => .error (.missingField "type")
  | _, (none, _) :: _ => .error .malformed
  | found, (some key, doc) :: rest =>
    if key == "type" then
      if found.isSome then .error (.duplicateField "type")
      else do
        let v ← doc.variant τ position
        variantOfMembers τ position (some v) rest
    else if doc.isClean then variantOfMembers τ position found rest
    else .error .malformed

/-- The variant of a tagged record.  In an array the tag stands first. -/
def Doc.variantOf (τ : Type) [Tagged τ] (position : Position) : Doc → Decoded τ
  | .object members => variantOfMembers τ position none members
  | .array [] => .error (.missingField "type")
  | .array (first :: rest) => do
    let v ← first.variant τ position
    if cleanItems rest then .ok v else .error .malformed
  | _ => .error .malformed

/-- The record of a variant, behind its tag. -/
def Doc.variantRecord (fields : List Field) (doc : Doc) (build : Layout doc → Located α) :
    Decoded α := do
  let layout ← doc.layout fields 1
  layout.close (build layout)

/-! ## Single values and lists -/

namespace Doc

/-- A text. -/
def asText : Doc → Decoded String
  | .text s => .ok s
  | _ => .error .malformed

/-- A truth value. -/
def asBool : Doc → Decoded Bool
  | .bool b => .ok b
  | _ => .error .malformed

/-- A whole number from 0 to 2^64 - 1. -/
def asUInt64 : Doc → Decoded UInt64
  | .int i => if 0 ≤ i ∧ i < 0x10000000000000000 then .ok (UInt64.ofNat i.toNat) else .error .malformed
  | _ => .error .malformed

/-- A whole number from -2^63 to 2^63 - 1. -/
def asInt64 : Doc → Decoded Int64
  | .int i => if -0x8000000000000000 ≤ i ∧ i < 0x8000000000000000 then .ok (Int64.ofInt i) else .error .malformed
  | _ => .error .malformed

/-- The items of an array, as its parts. -/
def items : (doc : Doc) → Decoded (List (Part doc))
  | .array items => .ok (itemParts items)
  | _ => .error .malformed

/-- A list. -/
def list (doc : Doc) (decode : Part doc → Decoded α) : Decoded (List α) := do
  let parts ← doc.items
  parts.mapM decode

/-- A list of at least one item. -/
def nonEmptyList (doc : Doc) (decode : Part doc → Decoded α) : Decoded (List α) := do
  match ← doc.list decode with
  | [] => .error .emptyList
  | decoded => .ok decoded

/-- The first alternative that fits, of a document that is clean; why the others do not is lost. -/
def choose (choice : String) (doc : Doc) (alternatives : List (Option α)) : Decoded α :=
  if doc.isClean then
    match alternatives.findSome? id with
    | some a => .ok a
    | none => .error (.noAlternative choice)
  else .error .malformed

/-- The mark for all columns: the text `*`, or an object of that one key with the value `null`. -/
def isStar : Doc → Bool
  | .text s => s == "*"
  | .object [(some key, .null)] => key == "*"
  | _ => false

/-- Decodes a source that holds one document and nothing else but blanks. -/
def decode (decoder : Doc → Decoded α) (source : Source) : Decoded α := do
  let (doc, rest) := read source
  let a ← decoder doc
  if isFinished rest then .ok a else .error .malformed

/-- Decodes a text. -/
def decodeText (decoder : Doc → Decoded α) (text : String) : Decoded α :=
  decode decoder (.ofText text)

end Doc

/-! ## References -/

/-- A reference to an entity: a number or a name, exactly one of them. -/
def Lookup.ofDoc (kind : EntityKind) (skip : Nat) (doc : Doc) : Decoded Lookup := do
  let byId := kind.text ++ "_id"
  let byName := kind.text ++ "_name"
  let layout ← doc.layout (fieldsNamed [byId, byName]) skip
  let given ← layout.close
    (Prod.mk <$> layout.option byId Doc.asUInt64 <*> layout.option byName Doc.asText)
  match given with
  | (some n, none) => .ok (.id n)
  | (none, some s) => .ok (.name s)
  | (some _, some _) => .error (.bothGiven kind)
  | (none, none) => .error (.noneGiven kind)

end QueryCatalog
