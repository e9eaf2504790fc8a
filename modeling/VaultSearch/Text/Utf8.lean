import Std

/-!
# Texts in UTF-8

A text has a form in bytes, and byte offsets count the places in it.
-/

/-! ## Bytes as text

`encode` writes a text as UTF-8 bytes and `decode?` reads it back,
refusing bytes that are not UTF-8. `decodeLossy` reads any bytes: each
maximal beginning of a character that does not go on as it should, and
each byte that begins none, becomes one U+FFFD.
-/

namespace VaultSearch.Utf8

def encode (s : String) : List UInt8 := s.toUTF8.data.toList

def decode? (bs : List UInt8) : Option String := String.fromUTF8? ⟨bs.toArray⟩

theorem decode?_encode (s : String) : decode? (encode s) = some s := by
  have h : (⟨(encode s).toArray⟩ : ByteArray) = s.toUTF8 := by simp [encode]
  rw [decode?, h, String.fromUTF8?, String.toUTF8_eq_toByteArray, dif_pos s.isValidUTF8]
  rfl

/-- The bytes that may follow the lead byte `b`, as ranges: the first one has
a range of its own, which excludes overlong forms and surrogates. -/
def following (b : UInt8) : Option (List (UInt8 × UInt8)) :=
  if b < 0x80 then some []
  else if b < 0xc2 then none
  else if b < 0xe0 then some [(0x80, 0xbf)]
  else if b = 0xe0 then some [(0xa0, 0xbf), (0x80, 0xbf)]
  else if b = 0xed then some [(0x80, 0x9f), (0x80, 0xbf)]
  else if b < 0xf0 then some [(0x80, 0xbf), (0x80, 0xbf)]
  else if b = 0xf0 then some [(0x90, 0xbf), (0x80, 0xbf), (0x80, 0xbf)]
  else if b < 0xf4 then some [(0x80, 0xbf), (0x80, 0xbf), (0x80, 0xbf)]
  else if b = 0xf4 then some [(0x80, 0x8f), (0x80, 0xbf), (0x80, 0xbf)]
  else none

/-- The payload of a lead byte that `n` bytes follow. -/
def leadBits (b : UInt8) (n : Nat) : Nat :=
  if n = 0 then b.toNat else b.toNat % Nat.pow 2 (6 - n)

/-- Read `bs` in the middle of a character: `ranges` is what must still come and
`code` the bits read so far. `out` holds the text read, last character first. -/
def lossyFrom (out : List Char) (ranges : List (UInt8 × UInt8)) (code : Nat) :
    List UInt8 → List Char
  | [] => if ranges.isEmpty then out else '\uFFFD' :: out
  | b :: bs =>
    match ranges with
    | (lo, hi) :: more =>
      if lo ≤ b && b ≤ hi then
        let code := code * 64 + b.toNat % 64
        if more.isEmpty then lossyFrom (Char.ofNat code :: out) [] 0 bs
        else lossyFrom out more code bs
      else begin_ ('\uFFFD' :: out) b bs
    | [] => begin_ out b bs
where
  /-- Read the first byte of a character. -/
  begin_ (out : List Char) (b : UInt8) (bs : List UInt8) : List Char :=
    match following b with
    | none => lossyFrom ('\uFFFD' :: out) [] 0 bs
    | some [] => lossyFrom (Char.ofNat b.toNat :: out) [] 0 bs
    | some ranges => lossyFrom out ranges (leadBits b ranges.length) bs

/-- Any bytes as text. -/
def decodeLossy (bs : List UInt8) : String :=
  String.ofList (lossyFrom [] [] 0 bs).reverse

end VaultSearch.Utf8

/-! ## Byte offsets

A text is stored in UTF-8, and the places in it are byte offsets. Those
between two characters are the offsets `byteOffset text i`; `charOffsets`
is the table that leads from a byte offset back to the number of
characters before it.
-/

namespace VaultSearch.Text

/-- The number of bytes of a text. -/
def byteLength : List Char → Nat
  | [] => 0
  | c :: text => c.utf8Size + byteLength text

theorem byteLength_nil : byteLength [] = 0 := rfl

theorem byteLength_cons (c : Char) (text : List Char) :
    byteLength (c :: text) = c.utf8Size + byteLength text := rfl

theorem byteLength_append : ∀ text rest : List Char,
    byteLength (text ++ rest) = byteLength text + byteLength rest
  | [], rest => (Nat.zero_add (byteLength rest)).symm
  | c :: text, rest => by
      rw [List.cons_append, byteLength_cons, byteLength_cons, byteLength_append text rest,
        Nat.add_assoc]

theorem byteLength_take_le (text : List Char) (n : Nat) :
    byteLength (text.take n) ≤ byteLength text := by
  have h := byteLength_append (text.take n) (text.drop n)
  rw [List.take_append_drop] at h
  omega

/-- What is left of a text after its first `pos` bytes. A character of which
only a part is left is dropped. -/
def fromByte : (pos : Nat) → List Char → List Char
  | 0, text => text
  | _ + 1, [] => []
  | pos + 1, c :: text => fromByte (pos + 1 - c.utf8Size) text

/-- The bytes left after an offset are those of the text that stand behind it. -/
theorem fromByte_bounds : ∀ (text : List Char) (pos : Nat),
    fromByte pos text = [] ∨ pos + byteLength (fromByte pos text) ≤ byteLength text
  | text, 0 => Or.inr (Nat.le_of_eq (by rw [fromByte, Nat.zero_add]))
  | [], _ + 1 => Or.inl rfl
  | c :: text, pos + 1 => by
      rw [fromByte, byteLength_cons]
      refine (fromByte_bounds text (pos + 1 - c.utf8Size)).imp_right fun h => ?_
      omega

/-- The number of bytes of the first character, and one where there is none. -/
def firstSize (text : List Char) : Nat := (text.head?.map Char.utf8Size).getD 1

theorem firstSize_pos (text : List Char) : 0 < firstSize text := by
  cases text with
  | nil => exact Nat.one_pos
  | cons c text => exact c.utf8Size_pos

/-- For each byte the number of the character that it belongs to, `i` being the
number of the first one, and at last the number after them all. -/
def charOffsetsFrom : (i : Nat) → List Char → List Nat
  | i, [] => [i]
  | i, c :: text => List.replicate c.utf8Size i ++ charOffsetsFrom (i + 1) text

/-- The table of the character offsets of a text, one for each byte offset. -/
def charOffsets (text : List Char) : Array Nat := (charOffsetsFrom 0 text).toArray

/-! ### The offsets between characters -/

/-- The byte offset at which the character with number `i` begins. -/
def byteOffset (text : List Char) (i : Nat) : Nat := byteLength (text.take i)

theorem byteOffset_zero (text : List Char) : byteOffset text 0 = 0 := rfl

theorem byteOffset_cons_succ (c : Char) (text : List Char) (i : Nat) :
    byteOffset (c :: text) (i + 1) = c.utf8Size + byteOffset text i := rfl

theorem byteOffset_add (text : List Char) (i n : Nat) :
    byteOffset text (i + n) = byteOffset text i + byteLength ((text.drop i).take n) := by
  rw [byteOffset, List.take_add, byteLength_append]
  rfl

theorem byteOffset_succ {text : List Char} {i : Nat} (h : i < text.length) :
    byteOffset text (i + 1) = byteOffset text i + firstSize (text.drop i) := by
  rw [byteOffset_add, List.drop_eq_getElem_cons h]
  rfl

theorem fromByte_byteOffset : ∀ {text : List Char} {i : Nat}, i ≤ text.length →
    fromByte (byteOffset text i) text = text.drop i
  | _, 0, _ => by rw [byteOffset_zero, fromByte, List.drop_zero]
  | c :: text, i + 1, h => by
      have hc := c.utf8Size_pos
      obtain ⟨n, hn⟩ : ∃ n, c.utf8Size + byteOffset text i = n + 1 :=
        Nat.exists_eq_succ_of_ne_zero (by omega)
      rw [byteOffset_cons_succ, hn, fromByte, ← hn, Nat.add_sub_cancel_left,
        fromByte_byteOffset (Nat.le_of_succ_le_succ h), List.drop_succ_cons]

theorem charOffsetsFrom_byteOffset : ∀ {text : List Char} {i : Nat} (n : Nat),
    i ≤ text.length → (charOffsetsFrom n text)[byteOffset text i]? = some (n + i)
  | [], 0, _, _ => rfl
  | c :: text, 0, n, _ => by
      rw [byteOffset_zero, charOffsetsFrom,
        List.getElem?_append_left (by rw [List.length_replicate]; exact c.utf8Size_pos),
        List.getElem?_replicate_of_lt c.utf8Size_pos]
      rfl
  | c :: text, i + 1, n, h => by
      rw [byteOffset_cons_succ, charOffsetsFrom,
        List.getElem?_append_right (by rw [List.length_replicate]; omega), List.length_replicate,
        Nat.add_sub_cancel_left, charOffsetsFrom_byteOffset (n + 1) (Nat.le_of_succ_le_succ h)]
      exact congrArg some (Nat.succ_add_eq_add_succ n i)

/-- The table leads from the offset of a character to its number. -/
theorem charOffsets_byteOffset {text : List Char} {i : Nat} (h : i ≤ text.length) (d : Nat) :
    (charOffsets text).getD (byteOffset text i) d = i := by
  rw [charOffsets, Array.getD_eq_getD_getElem?, List.getElem?_toArray,
    charOffsetsFrom_byteOffset 0 h]
  exact Nat.zero_add i

end VaultSearch.Text
