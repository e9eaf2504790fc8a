import VaultSearch.Proofs.Snapshot.CheckSum
import VaultSearch.Proofs.Snapshot.RoundTrip

/-!
# Damaged snapshots

A blob is opened under some settings only if it is the frame that these
settings write around the compressed value in it
(`Snapshot.unframe_eq_ok_iff`): no field of the header has a second
spelling. So a blob with one byte changed can be opened only if it is the
frame of another compressed value, and then the bytes of the check sum and
those of the value have both changed. Hence every change of one byte is
noticed (`Snapshot.decode_set_eq_error`).
-/

namespace VaultSearch

/-! ## Reading is exact -/

namespace Codec

theorem readNumber_of_length : ∀ {width : Nat} {bs : List UInt8}, width ≤ bs.length →
    ∃ n, readNumber width bs = some (n, bs.drop width)
  | 0, bs, _ => ⟨0, rfl⟩
  | width + 1, b :: bs, h => by
      obtain ⟨n, hn⟩ := readNumber_of_length (Nat.le_of_succ_le_succ h)
      exact ⟨b.toNat + 256 * n, by rw [readNumber, hn]; rfl⟩

/-- A number that was read is written with the bytes that it was read from. -/
theorem eq_of_readNumber : ∀ {width : Nat} {bs rest : List UInt8} {n : Nat},
    readNumber width bs = some (n, rest) → bs = numberBytes width n ++ rest
  | 0, bs, rest, n, h => by
      rw [readNumber] at h
      obtain ⟨-, rfl⟩ := Prod.mk.inj (Option.some.inj h)
      rfl
  | width + 1, b :: bs, rest, n, h => by
      rw [readNumber] at h
      obtain ⟨⟨m, rest'⟩, hm, heq⟩ := Option.map_eq_some_iff.mp h
      obtain ⟨rfl, rfl⟩ := Prod.mk.inj heq
      have hb := b.toNat_lt
      have hlow : UInt8.ofNat (b.toNat + 256 * m) = b := by
        rw [← UInt8.toNat_inj, UInt8.toNat_ofNat']
        omega
      have hhigh : (b.toNat + 256 * m) / 256 = m := by omega
      rw [numberBytes, hlow, hhigh, List.cons_append, ← eq_of_readNumber hm]

theorem splitExact?_eq_some {n : Nat} {bs front rest : List UInt8}
    (h : splitExact? n bs = some (front, rest)) : bs = front ++ rest ∧ front.length = n := by
  rw [splitExact?] at h
  split at h
  · rename_i hlen
    obtain ⟨rfl, rfl⟩ := Prod.mk.inj (Option.some.inj h)
    exact ⟨(List.take_append_drop n bs).symm, hlen⟩
  · cases h

end Codec

theorem Utf8.encode_of_decode? {bs : List UInt8} {s : String} (h : decode? bs = some s) :
    encode s = bs := by
  rw [decode?, String.fromUTF8?] at h
  split at h
  · obtain rfl := Option.some.inj h
    rfl
  · cases h

namespace Snapshot

theorem drop_eq_word {blob : List UInt8} {at_ : Nat} (h : at_ + 4 ≤ blob.length) :
    blob.drop at_ = Codec.u32.encode (word blob at_) ++ blob.drop (at_ + 4) := by
  have hlen : 4 ≤ (blob.drop at_).length := by
    rw [List.length_drop]
    omega
  obtain ⟨n, hn⟩ := Codec.readNumber_of_length hlen
  have hword : word blob at_ = n := by
    have hdecode : Codec.u32.decode (blob.drop at_) = some (n, (blob.drop at_).drop 4) := hn
    rw [word, hdecode]
    rfl
  have hread := Codec.eq_of_readNumber hn
  rwa [List.drop_drop, ← hword] at hread

/-- A blob that is opened is the frame of what is found in it. -/
theorem eq_frame_of_unframe {fingerprint : String} {blob compressed : List UInt8}
    (h : unframe fingerprint blob = .ok compressed) : blob = frame fingerprint compressed := by
  simp only [unframe, bind, Except.bind, throw, throwThe, MonadExceptOf.throw, pure,
    Except.pure] at h
  split at h
  · cases h
  rename_i hlen
  split at h
  · cases h
  rename_i hmagic
  split at h
  · cases h
  rename_i hversion
  split at h
  · rename_i name rest hsplit
    split at h
    · rename_i stored hname
      split at h
      · cases h
      rename_i hstored
      split at h
      · cases h
      rename_i hsum
      rw [ne_eq, not_not] at hmagic hversion hstored hsum
      obtain rfl := Except.ok.inj h
      obtain ⟨hdrop, hcount⟩ := Codec.splitExact?_eq_some hsplit
      have hlen' : 16 ≤ blob.length := Nat.le_of_not_lt hlen
      rw [frame, hsum, Utf8.encode_of_decode? (hstored ▸ hname), hcount]
      have h4 := drop_eq_word (by omega : 4 + 4 ≤ blob.length)
      have h8 := drop_eq_word (by omega : 8 + 4 ≤ blob.length)
      have h12 := drop_eq_word (by omega : 12 + 4 ≤ blob.length)
      calc blob = blob.take 4 ++ blob.drop 4 := (List.take_append_drop 4 blob).symm
        _ = magic ++ (Codec.u32.encode snapshotVersion ++ (Codec.u32.encode (word blob 8) ++
              (Codec.u32.encode (word blob 12) ++ blob.drop headerLength))) := by
            rw [hmagic, h4, hversion, h8, h12]
            rfl
        _ = _ := by
            rw [hdrop]
            simp only [List.append_assoc]
    · cases h
  · cases h

/-- A blob is opened exactly if it is the frame of what is found in it. -/
theorem unframe_eq_ok_iff {fingerprint : String} (hlen : (Utf8.encode fingerprint).length < 2 ^ 32)
    {blob compressed : List UInt8} :
    unframe fingerprint blob = .ok compressed ↔ blob = frame fingerprint compressed := by
  refine ⟨eq_frame_of_unframe, ?_⟩
  rintro rfl
  rw [unframe_frame hlen, if_pos rfl]

/-! ## One byte changed -/

/-- The part of a frame before the compressed value. -/
def header (fingerprint : String) (checksum : Nat) : List UInt8 :=
  let name := Utf8.encode fingerprint
  magic ++ Codec.u32.encode snapshotVersion ++ Codec.u32.encode checksum ++
    Codec.u32.encode name.length ++ name

theorem frame_eq (fingerprint : String) (compressed : List UInt8) :
    frame fingerprint compressed =
      header fingerprint (Crc32.sum compressed).toNat ++ compressed :=
  rfl

theorem length_header (fingerprint : String) (checksum : Nat) :
    (header fingerprint checksum).length = headerLength + (Utf8.encode fingerprint).length := by
  simp only [header, List.length_append, Codec.length_encode_u32]
  rfl

theorem header_injective {fingerprint : String} {a b : UInt32}
    (h : header fingerprint a.toNat = header fingerprint b.toNat) : a = b := by
  have hsum : Codec.u32.encode a.toNat = Codec.u32.encode b.toNat := by
    simp only [header, List.append_assoc] at h
    have hrest := List.append_cancel_left (List.append_cancel_left h)
    exact (List.append_inj hrest (by rw [Codec.length_encode_u32, Codec.length_encode_u32])).1
  have hread := Codec.u32_decode a.toNat_lt []
  rw [hsum, Codec.u32_decode b.toNat_lt] at hread
  exact UInt32.toNat_inj.mp (congrArg Prod.fst (Option.some.inj hread)).symm

/-- A frame with one byte changed is no frame. -/
theorem frame_set_ne {fingerprint : String} {compressed other : List UInt8} {i : Nat}
    (hi : i < (frame fingerprint compressed).length) {v : UInt8}
    (hv : v ≠ (frame fingerprint compressed)[i]) :
    (frame fingerprint compressed).set i v ≠ frame fingerprint other := by
  intro hset
  have hlen := length_header fingerprint
  have htake := congrArg (List.take (headerLength + (Utf8.encode fingerprint).length)) hset
  have hdrop := congrArg (List.drop (headerLength + (Utf8.encode fingerprint).length)) hset
  rw [List.take_set, frame_eq, frame_eq, List.take_left' (hlen _), List.take_left' (hlen _)]
    at htake
  rw [List.drop_set, frame_eq, frame_eq, List.drop_left' (hlen _), List.drop_left' (hlen _)]
    at hdrop
  split at hdrop
  · -- the value is as it was, and so the header is too
    subst hdrop
    have hbyte := congrArg (fun bytes : List UInt8 => bytes[i]?) hset
    rw [List.getElem?_set_self hi, List.getElem?_eq_getElem hi] at hbyte
    exact hv (Option.some.inj hbyte)
  · -- the header is as it was, and so the check sums agree
    rename_i hback
    subst hdrop
    have hi' : i - (headerLength + (Utf8.encode fingerprint).length) < compressed.length := by
      rw [frame_eq, List.length_append, hlen] at hi
      omega
    have hbyte : (frame fingerprint compressed)[i] =
        compressed[i - (headerLength + (Utf8.encode fingerprint).length)] := by
      simp only [frame_eq]
      rw [List.getElem_append_right (by rw [hlen]; omega)]
      simp only [hlen]
    rw [List.set_eq_of_length_le (by rw [hlen]; omega)] at htake
    exact Crc32.sum_set_ne hi' (hbyte ▸ hv) (header_injective htake).symm

/-- A snapshot with one byte changed is refused, whichever byte it is and whatever the snapshot
holds. Its check sum is the CRC-32 of the compressed value. -/
theorem decode_set_eq_error {α : Type} (c : Codec α) {fingerprint : String}
    (hname : (Utf8.encode fingerprint).length < 2 ^ 32) (a : α) :
    (∀ (i : Nat) (hi : i < (encode c fingerprint a).length) (v : UInt8),
      v ≠ (encode c fingerprint a)[i] →
        ∃ r, decode c fingerprint ((encode c fingerprint a).set i v) = .error r) ∧
      Crc32.IsCrc32
        ((encode c fingerprint a).drop (headerLength + (Utf8.encode fingerprint).length))
        (word (encode c fingerprint a) 8) := by
  refine ⟨fun i hi v hv => ?_, ?_⟩
  · cases hopen : unframe fingerprint ((encode c fingerprint a).set i v) with
    | error r => exact ⟨r, by rw [decode, hopen]; rfl⟩
    | ok other => exact absurd ((unframe_eq_ok_iff hname).mp hopen) (frame_set_ne hi hv)
  · rw [encode, word_frame_checksum, frame_eq, List.drop_left' (length_header _ _)]
    exact Crc32.isCrc32_sum _

/-- The first byte of the fingerprint in a snapshot of one pair changes. -/
theorem changed_fingerprint_is_refused :
    let c := (Codec.text.pair Codec.u32).list
    let blob := encode c "é" [("alpha", 1)]
    (Utf8.encode "é").length < 2 ^ 32 ∧ blob[16]? = some 0xc3 ∧
      ∃ r, decode c "é" (blob.set 16 0xc4) = .error r := by
  intro c blob
  have hname : (Utf8.encode "é").length < 2 ^ 32 := by decide +kernel
  refine ⟨hname, by decide +kernel, ?_⟩
  exact (decode_set_eq_error c hname [("alpha", 1)]).1 16 (by decide +kernel) 0xc4
    (by decide +kernel)

end Snapshot

end VaultSearch
