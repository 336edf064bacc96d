/-
  What a document is read from: a row of characters, in which bytes may stand that belong to none.

  A text is a row of characters.  Bytes that claim to be UTF-8 are taken apart into characters, and a
  byte at which no character starts stands for itself as a stray one.  Bytes that are UTF-8 have no
  stray ones (`ofBytes_utf8`).
-/

namespace QueryCatalog.Doc

/-- A row of characters; a stray byte is `none`. -/
abbrev Source := List (Option Char)

namespace Source

/-- The characters of a text. -/
def ofText (text : String) : Source := text.toList.map some

/-- The characters of bytes from position `i` on.  The fuel bounds the steps; the number of bytes is
    enough, since each step passes one. -/
def ofBytesFrom (bytes : ByteArray) : Nat → Nat → Source
  | 0, _ => []
  | fuel + 1, i =>
    if i < bytes.size then
      match bytes.utf8DecodeChar? i with
      | some c => some c :: ofBytesFrom bytes fuel (i + c.utf8Size)
      | none => none :: ofBytesFrom bytes fuel (i + 1)
    else []

/-- The characters of bytes. -/
def ofBytes (bytes : ByteArray) : Source := ofBytesFrom bytes bytes.size 0

/-! ## Bytes that are UTF-8 -/

theorem size_utf8Encode_singleton (c : Char) : [c].utf8Encode.size = c.utf8Size := by
  rw [List.utf8Encode_singleton, List.size_toByteArray, String.length_utf8EncodeChar]

/-- Behind `front` the characters that are encoded there are found again. -/
theorem ofBytesFrom_utf8Encode (cs : List Char) : ∀ (front : ByteArray) (fuel : Nat),
    cs.length ≤ fuel → ofBytesFrom (front ++ cs.utf8Encode) fuel front.size = cs.map some := by
  induction cs with
  | nil =>
    intro front fuel _
    cases fuel <;> simp [ofBytesFrom, List.utf8Encode_nil]
  | cons c cs ih =>
    intro front fuel h
    obtain ⟨fuel, rfl⟩ : ∃ k, fuel = k + 1 := ⟨fuel - 1, by simp at h; omega⟩
    -- `front` holds the bytes that are decoded already, and grows by those of `c`
    have found : (front ++ (c :: cs).utf8Encode).utf8DecodeChar? front.size = some c := by
      rw [ByteArray.utf8DecodeChar?_eq_utf8DecodeChar?_extract,
        ByteArray.extract_append_eq_right rfl (by rw [ByteArray.size_append]),
        List.utf8Encode_cons, List.utf8Encode_singleton,
        ByteArray.utf8DecodeChar?_utf8EncodeChar_append]
    have next := ih (front ++ [c].utf8Encode) fuel (by simp at h; omega)
    rw [ByteArray.append_assoc, ← List.utf8Encode_cons, ByteArray.size_append,
      size_utf8Encode_singleton] at next
    simp [ofBytesFrom, found, next]

/-- Every character takes a byte at least. -/
theorem length_le_size_utf8Encode (cs : List Char) : cs.length ≤ cs.utf8Encode.size := by
  induction cs with
  | nil => simp
  | cons c cs ih =>
    have := c.utf8Size_pos
    rw [List.utf8Encode_cons, ByteArray.size_append, size_utf8Encode_singleton, List.length_cons]
    omega

/-- Bytes that are UTF-8 have no stray ones. -/
theorem ofBytes_utf8 (text : String) : ofBytes text.toUTF8 = ofText text := by
  have fuel := length_le_size_utf8Encode text.toList
  have h := ofBytesFrom_utf8Encode text.toList ByteArray.empty _ fuel
  rw [String.utf8Encode_toList, ByteArray.empty_append] at h
  exact h

end Source

end QueryCatalog.Doc
