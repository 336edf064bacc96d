/-
  Documents: what a JSON text says, as far as it can be read.

  A text may break off in the middle, and it may hold values that are well written but fit no type:
  a number beyond the range of 64-bit floats, a string with half a surrogate pair or a stray byte, a
  container nested too deep.  A document keeps both at the place where they stand (`broken`, `unfit`), so that
  a decoder that walks the document in order meets the first fault first.  A value that is only
  skipped may be unfit; a broken one cannot be skipped.
-/
import QueryCatalog.Number.Binary64

namespace QueryCatalog

/-- A JSON text read into a tree.  Objects keep their members in order, repeated keys included; a
    key that is no text is `none`. -/
inductive Doc where
  | null
  | bool (value : Bool)
  /-- A whole number that fits 64 bits, signed or unsigned. -/
  | int (value : Int)
  /-- Any other number. -/
  | real (value : Binary64)
  | text (value : String)
  | array (items : List Doc)
  | object (members : List (Option String × Doc))
  /-- Well written, but no value. -/
  | unfit
  /-- The text is not JSON from here on. -/
  | broken
deriving Inhabited

namespace Doc

/-- The object of the given fields. -/
def ofFields (fields : List (String × Doc)) : Doc :=
  .object (fields.map fun field => (some field.1, field.2))

/-! ## Faults -/

mutual

/-- No fault anywhere: the document is a JSON value. -/
def isClean : Doc → Bool
  | .array items => cleanItems items
  | .object members => cleanMembers members
  | .unfit => false
  | .broken => false
  | _ => true

/-- All items are clean. -/
def cleanItems : List Doc → Bool
  | [] => true
  | d :: ds => d.isClean && cleanItems ds

/-- All members are clean, keys included. -/
def cleanMembers : List (Option String × Doc) → Bool
  | [] => true
  | (key, d) :: rest => key.isSome && d.isClean && cleanMembers rest

end

mutual

/-- Nothing is broken: the document can be skipped. -/
def isSkippable : Doc → Bool
  | .array items => skippableItems items
  | .object members => skippableMembers members
  | .broken => false
  | _ => true

/-- All items can be skipped. -/
def skippableItems : List Doc → Bool
  | [] => true
  | d :: ds => d.isSkippable && skippableItems ds

/-- All members can be skipped, whatever their keys. -/
def skippableMembers : List (Option String × Doc) → Bool
  | [] => true
  | (_, d) :: rest => d.isSkippable && skippableMembers rest

end

/-! ## Repeated keys -/

/-- The members with one of them put in, at its old place if the key has one. -/
def putMember (key : Option String) (doc : Doc) :
    List (Option String × Doc) → List (Option String × Doc)
  | [] => [(key, doc)]
  | m :: rest => if m.1 == key then (key, doc) :: rest else m :: putMember key doc rest

mutual

/-- The document with each key once in every object: of several members with one key the last one
    counts. -/
def settled : Doc → Doc
  | .array items => .array (settledItems items)
  | .object members => .object (settledMembers [] members)
  | doc => doc

/-- The items, each of them settled. -/
def settledItems : List Doc → List Doc
  | [] => []
  | d :: ds => d.settled :: settledItems ds

/-- The members behind those that are settled already. -/
def settledMembers (known : List (Option String × Doc)) :
    List (Option String × Doc) → List (Option String × Doc)
  | [] => known
  | (key, d) :: rest => settledMembers (putMember key d.settled known) rest

end

/-! ## Parts -/

/-- A document that stands inside another one. -/
structure Part (whole : Doc) where
  doc : Doc
  smaller : sizeOf doc < sizeOf whole

/-- The items of an array as its parts. -/
def itemParts (items : List Doc) : List (Part (.array items)) :=
  items.attach.map fun item =>
    ⟨item.val, by have := List.sizeOf_lt_of_mem item.property; simp; omega⟩

/-- The members of an object as its parts. -/
def memberParts (members : List (Option String × Doc)) :
    List (Option String × Part (.object members)) :=
  members.attach.map fun member =>
    (member.val.1, ⟨member.val.2, by
      have h := List.sizeOf_lt_of_mem member.property
      have e : sizeOf member.val = 1 + sizeOf member.val.1 + sizeOf member.val.2 := rfl
      simp; omega⟩)

end Doc

end QueryCatalog
