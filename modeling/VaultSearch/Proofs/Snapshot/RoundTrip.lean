import Mathlib.Algebra.Group.Nat.Defs
import VaultSearch.Snapshot

/-!
# Reading a snapshot back

Reading undoes writing, layer by layer: numbers, texts, lists and the
other shapes of a `Codec`, the LZ4 block, and the frame of a snapshot
(`Snapshot.decode_encode`), whichever LZ4 block the value is compressed
into (`Snapshot.Carries`). A codec is only asked to read back values
whose binary form is shorter than 2³² bytes (`Codec.Reads`), since the
LZ4 length in front of a block has no room for more; a longer form is
refused (`Snapshot.decode_encode_too_long`), and so is a snapshot made
under other settings (`Snapshot.decode_encode_other`).
-/

namespace VaultSearch

namespace Codec

/-! ## Numbers -/

@[simp] theorem length_numberBytes : ∀ width n : Nat, (numberBytes width n).length = width
  | 0, _ => rfl
  | width + 1, n => by rw [numberBytes, List.length_cons, length_numberBytes width]

/-- A number is read back up to a multiple of the first number that does not fit. -/
theorem readNumber_numberBytes (rest : List UInt8) : ∀ width n : Nat,
    readNumber width (numberBytes width n ++ rest) = some (n % 256 ^ width, rest)
  | 0, n => by rw [Nat.pow_zero, Nat.mod_one]; rfl
  | width + 1, n => by
      have hbyte : (UInt8.ofNat n).toNat = n % 256 := by simp
      rw [numberBytes, List.cons_append, readNumber, readNumber_numberBytes rest width,
        Option.map_some, hbyte, Nat.pow_succ', Nat.mod_mul]

theorem number_inverts (width : Nat) : (number width).Inverts (· < 256 ^ width) := by
  intro n rest hn
  have hread := readNumber_numberBytes rest width n
  rwa [Nat.mod_eq_of_lt hn] at hread

theorem length_encode_u32 (n : Nat) : (u32.encode n).length = 4 := length_numberBytes 4 n

theorem length_encode_u64 (n : Nat) : (u64.encode n).length = 8 := length_numberBytes 8 n

theorem u32_decode {n : Nat} (hn : n < 2 ^ 32) (rest : List UInt8) :
    u32.decode (u32.encode n ++ rest) = some (n, rest) :=
  number_inverts 4 n rest hn

theorem u64_decode {n : Nat} (hn : n < 2 ^ 64) (rest : List UInt8) :
    u64.decode (u64.encode n ++ rest) = some (n, rest) :=
  number_inverts 8 n rest hn

/-! ## Values with a short form -/

/-- Reading undoes writing for the values that satisfy `p` and have a form of fewer
than 2³² bytes. -/
def Reads {α : Type} (c : Codec α) (p : α → Prop) : Prop :=
  c.Inverts fun a => (c.encode a).length < 2 ^ 32 ∧ p a

theorem Inverts.reads {α : Type} {c : Codec α} {p : α → Prop} (h : c.Inverts p) : c.Reads p :=
  fun a rest ha => h a rest ha.2

theorem u32_reads : u32.Reads (· < 2 ^ 32) := (number_inverts 4).reads

theorem u64_reads : u64.Reads (· < 2 ^ 64) := (number_inverts 8).reads

theorem splitExact?_append (front rest : List UInt8) :
    splitExact? front.length (front ++ rest) = some (front, rest) := by
  simp [splitExact?]

theorem text_reads : text.Reads fun _ => True := by
  rintro s rest ⟨hlen, -⟩
  have hlen' : (Utf8.encode s).length < 2 ^ 64 := by
    simp only [text, List.length_append] at hlen
    omega
  simp only [text, List.append_assoc]
  rw [u64_decode hlen']
  simp only [Option.bind_eq_bind, Option.bind_some]
  rw [splitExact?_append]
  simp [Utf8.decode?_encode]

theorem readMany_flatMap {α : Type} {c : Codec α} {p : α → Prop} (h : c.Reads p) :
    ∀ (as done : List α) (rest : List UInt8), (as.flatMap c.encode).length < 2 ^ 32 →
      (∀ a ∈ as, p a) →
      readMany c as.length done (as.flatMap c.encode ++ rest) = some (done.reverse ++ as, rest)
  | [], done, rest, _, _ => by simp [readMany]
  | a :: as, done, rest, hlen, hp => by
      rw [List.flatMap_cons, List.length_append] at hlen
      have ha : c.decode (c.encode a ++ (as.flatMap c.encode ++ rest)) =
          some (a, as.flatMap c.encode ++ rest) :=
        h a _ ⟨by omega, hp a List.mem_cons_self⟩
      rw [List.flatMap_cons, List.length_cons, readMany, List.append_assoc, ha]
      simp only []
      rw [readMany_flatMap h as (a :: done) rest (by omega)
        fun b hb => hp b (List.mem_cons_of_mem _ hb)]
      simp

/-- A list of values that all take up some bytes is no longer than its form. -/
theorem length_le_length_flatMap {α : Type} {c : Codec α} (hpos : ∀ a, 0 < (c.encode a).length) :
    ∀ as : List α, as.length ≤ (as.flatMap c.encode).length
  | [] => Nat.le_refl 0
  | a :: as => by
      have ha := hpos a
      have has := length_le_length_flatMap hpos as
      rw [List.flatMap_cons, List.length_append, List.length_cons]
      omega

theorem list_reads {α : Type} {c : Codec α} {p : α → Prop} (h : c.Reads p)
    (hpos : ∀ a, 0 < (c.encode a).length) : c.list.Reads fun as => ∀ a ∈ as, p a := by
  rintro as rest ⟨hlen, hp⟩
  have hform : (as.flatMap c.encode).length < 2 ^ 32 := by
    simp only [list, List.length_append] at hlen
    omega
  have hcount : as.length < 2 ^ 64 := by
    have := length_le_length_flatMap hpos as
    omega
  simp only [list, List.append_assoc]
  rw [u64_decode hcount]
  simp only [Option.bind_eq_bind, Option.bind_some]
  rw [readMany_flatMap h as [] rest hform hp]
  rfl

/-! ## Other shapes -/

theorem pair_reads {α β : Type} {c : Codec α} {d : Codec β} {p : α → Prop} {q : β → Prop}
    (hc : c.Reads p) (hd : d.Reads q) : (c.pair d).Reads fun x => p x.1 ∧ q x.2 := by
  rintro ⟨a, b⟩ rest ⟨hlen, hp, hq⟩
  simp only [pair, List.length_append] at hlen
  have ha : c.decode (c.encode a ++ (d.encode b ++ rest)) = some (a, d.encode b ++ rest) :=
    hc a _ ⟨by omega, hp⟩
  have hb : d.decode (d.encode b ++ rest) = some (b, rest) := hd b _ ⟨by omega, hq⟩
  simp [pair, ha, hb]

theorem option_reads {α : Type} {c : Codec α} {p : α → Prop} (h : c.Reads p) :
    c.option.Reads fun o => ∀ a, o = some a → p a := by
  rintro o rest ⟨hlen, hp⟩
  cases o with
  | none => simp [option]
  | some a =>
      simp only [option, List.length_cons] at hlen
      have ha : c.decode (c.encode a ++ rest) = some (a, rest) := h a _ ⟨by omega, hp a rfl⟩
      simp [option, ha]

theorem imap_reads {α β : Type} {c : Codec α} {p : α → Prop} (h : c.Reads p) {q : β → Prop}
    {there : α → Option β} {back : β → α}
    (hback : ∀ b, q b → p (back b) ∧ there (back b) = some b) : (c.imap there back).Reads q := by
  rintro b rest ⟨hlen, hq⟩
  obtain ⟨hp, hthere⟩ := hback b hq
  have ha : c.decode (c.encode (back b) ++ rest) = some (back b, rest) := h _ _ ⟨hlen, hp⟩
  simp [imap, ha, hthere]

end Codec

/-! ## LZ4 -/

namespace Lz4

theorem readLength_lengthBytes (rest : List UInt8) : ∀ k r base : Nat, r < 255 →
    readLength base (List.replicate k 255 ++ UInt8.ofNat r :: rest) =
      some (base + 255 * k + r, rest)
  | 0, r, base, hr => by
      have hne : UInt8.ofNat r ≠ 255 := by
        intro h
        have := congrArg UInt8.toNat h
        simp at this
        omega
      have hbyte : (UInt8.ofNat r).toNat = r := by simp; omega
      rw [List.replicate_zero, List.nil_append, readLength, if_neg hne, hbyte]
      rfl
  | k + 1, r, base, hr => by
      rw [List.replicate_succ, List.cons_append, readLength, if_pos rfl,
        readLength_lengthBytes rest k r _ hr]
      congr 2
      omega

/-- The first byte of a block and what follows it give the length of the text. -/
theorem lengthFrom_block (text : List UInt8) :
    ∃ token bs, block text = token :: bs ∧
      lengthFrom (token.toNat / 16) bs = some (text.length, text) := by
  by_cases h : text.length < 15
  · refine ⟨UInt8.ofNat (text.length * 16), text, by rw [block, if_pos h], ?_⟩
    have hnibble : (UInt8.ofNat (text.length * 16)).toNat / 16 = text.length := by simp; omega
    rw [hnibble, lengthFrom, if_neg (by omega)]
  · refine ⟨240, lengthBytes (text.length - 15) ++ text, by rw [block, if_neg h]; rfl, ?_⟩
    have hlt : (text.length - 15) % 255 < 255 := Nat.mod_lt _ (by decide)
    have hsum : 15 + 255 * ((text.length - 15) / 255) + (text.length - 15) % 255 =
        text.length := by
      omega
    have hread := readLength_lengthBytes text ((text.length - 15) / 255)
      ((text.length - 15) % 255) 15 hlt
    rw [hsum] at hread
    rw [lengthFrom, if_pos (by decide), lengthBytes, List.append_assoc, List.singleton_append]
    exact hread

/-- A block of literals is read back if the length in front had room for its length. -/
theorem decompress_compress (text : List UInt8) :
    decompress (compress text) = if text.length < 2 ^ 32 then some text else none := by
  obtain ⟨token, bs, hblock, hlength⟩ := lengthFrom_block text
  have hlimit : Codec.u32.decode (Codec.u32.encode text.length ++ token :: bs) =
      some (text.length % 2 ^ 32, token :: bs) :=
    Codec.readNumber_numberBytes (token :: bs) 4 text.length
  have hsplit : Codec.splitExact? text.length text = some (text, []) := by
    simpa using Codec.splitExact?_append text []
  rw [compress, hblock, decompress, hlimit]
  simp only [Option.bind_eq_bind, Option.bind_some]
  rw [readSequences]
  simp only [Option.bind_eq_bind, Option.bind_some, hlength, hsplit, Array.size_empty, Nat.zero_add]
  by_cases h : text.length < 2 ^ 32
  · rw [if_pos h, if_neg (by rw [Nat.mod_eq_of_lt h]; omega)]
    simp
  · have hlt : text.length % 2 ^ 32 < text.length :=
      Nat.lt_of_lt_of_le (Nat.mod_lt _ (by decide)) (by omega)
    rw [if_neg h, if_pos hlt]
    rfl

end Lz4

/-! ## Frames -/

namespace Snapshot

theorem word_append {front : List UInt8} {at_ n : Nat} (hat : front.length = at_)
    (hn : n < 2 ^ 32) (rest : List UInt8) :
    word (front ++ (Codec.u32.encode n ++ rest)) at_ = n := by
  rw [word, ← hat, List.drop_left, Codec.u32_decode hn]
  rfl

theorem frame_assoc (fingerprint : String) (compressed : List UInt8) :
    frame fingerprint compressed =
      magic ++ (Codec.u32.encode snapshotVersion ++
        (Codec.u32.encode (Crc32.sum compressed).toNat ++
          (Codec.u32.encode (Utf8.encode fingerprint).length ++
            (Utf8.encode fingerprint ++ compressed)))) := by
  simp only [frame, List.append_assoc]

theorem word_frame_checksum (fingerprint : String) (compressed : List UInt8) :
    word (frame fingerprint compressed) 8 = (Crc32.sum compressed).toNat := by
  rw [frame_assoc, ← List.append_assoc]
  exact word_append (by simp [magic, Codec.length_encode_u32]) (UInt32.toNat_lt _) _

/-- A frame is opened under the settings it was made under, and under no others. -/
theorem unframe_frame {stored fingerprint : String} (hlen : (Utf8.encode stored).length < 2 ^ 32)
    (compressed : List UInt8) :
    unframe fingerprint (frame stored compressed) =
      if stored = fingerprint then .ok compressed
      else .error (.otherSettings stored fingerprint) := by
  have hu32 := Codec.length_encode_u32
  have hframe := frame_assoc stored compressed
  have hversion : word (frame stored compressed) 4 = snapshotVersion := by
    rw [hframe]
    exact word_append rfl (by decide) _
  have hname : word (frame stored compressed) 12 = (Utf8.encode stored).length := by
    rw [hframe, ← List.append_assoc, ← List.append_assoc]
    exact word_append (by simp [magic, hu32]) hlen _
  have hdrop : (frame stored compressed).drop headerLength =
      Utf8.encode stored ++ compressed := by
    rw [hframe, ← List.append_assoc, ← List.append_assoc, ← List.append_assoc]
    exact List.drop_left' (by simp [magic, hu32, headerLength])
  have hmagic : (frame stored compressed).take 4 = magic := by
    rw [hframe]
    rfl
  have hshort : ¬(frame stored compressed).length < headerLength := by
    simp [hframe, magic, hu32, headerLength]
    omega
  rw [unframe, if_neg hshort, hmagic, hversion, hname, hdrop, Codec.splitExact?_append]
  simp only [ne_eq, not_true_eq_false, if_false, Utf8.decode?_encode, word_frame_checksum, bind,
    Except.bind]
  by_cases h : stored = fingerprint
  · simp [h]
    rfl
  · simp [h]
    rfl

variable {α : Type} {c : Codec α} {p : α → Prop}

/-- The blob holds `a`, made under the settings named `fingerprint`: it is the frame of a block
whose text is the binary form of `a`, compressed in any way. -/
def Carries (c : Codec α) (fingerprint : String) (a : α) (blob : List UInt8) : Prop :=
  ∃ block, blob = frame fingerprint block ∧ Lz4.decompress block = some (c.encode a)

theorem carries_encode {fingerprint : String} {a : α} (hlen : (c.encode a).length < 2 ^ 32) :
    Carries c fingerprint a (encode c fingerprint a) :=
  ⟨Lz4.compress (c.encode a), rfl, by rw [Lz4.decompress_compress, if_pos hlen]⟩

/-- A value is read back from its compressed form. -/
theorem unpack_pack (hc : c.Reads p) {a : α} (hlen : (c.encode a).length < 2 ^ 32) (ha : p a) :
    unpack c (pack c a) = .ok a := by
  have hread : c.decode (c.encode a) = some (a, []) := by
    simpa using hc a [] ⟨hlen, ha⟩
  simp only [unpack, pack, Lz4.decompress_compress, if_pos hlen, hread]
  rfl

/-- A value is read from every blob that holds it. -/
theorem decode_of_carries (hc : c.Reads p) {fingerprint : String}
    (hname : (Utf8.encode fingerprint).length < 2 ^ 32) {a : α}
    (hlen : (c.encode a).length < 2 ^ 32) (ha : p a) {blob : List UInt8}
    (h : Carries c fingerprint a blob) : decode c fingerprint blob = .ok a := by
  obtain ⟨block, rfl, hblock⟩ := h
  have hread : c.decode (c.encode a) = some (a, []) := by
    simpa using hc a [] ⟨hlen, ha⟩
  rw [decode, unframe_frame hname, if_pos rfl]
  simp only [unpack, bind, Except.bind, hblock, hread]
  rfl

/-- A value is read back from its snapshot. -/
theorem decode_encode (hc : c.Reads p) {fingerprint : String}
    (hname : (Utf8.encode fingerprint).length < 2 ^ 32) {a : α}
    (hlen : (c.encode a).length < 2 ^ 32) (ha : p a) :
    decode c fingerprint (encode c fingerprint a) = .ok a :=
  decode_of_carries hc hname hlen ha (carries_encode hlen)

/-- A value with a longer form is refused. -/
theorem decode_encode_too_long {fingerprint : String}
    (hname : (Utf8.encode fingerprint).length < 2 ^ 32) {a : α}
    (hlen : ¬(c.encode a).length < 2 ^ 32) :
    decode c fingerprint (encode c fingerprint a) = .error .decompression := by
  rw [decode, encode, unframe_frame hname, if_pos rfl]
  simp only [pack, unpack, bind, Except.bind, Lz4.decompress_compress, if_neg hlen]
  rfl

/-- A snapshot is refused under settings other than those it was made under. -/
theorem decode_encode_other {stored fingerprint : String}
    (hname : (Utf8.encode stored).length < 2 ^ 32) (hne : stored ≠ fingerprint) (a : α) :
    decode c fingerprint (encode c stored a) = .error (.otherSettings stored fingerprint) := by
  rw [decode, encode, unframe_frame hname, if_neg hne]
  rfl

end Snapshot

end VaultSearch
