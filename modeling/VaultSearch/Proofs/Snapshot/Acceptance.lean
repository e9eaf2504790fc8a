import VaultSearch.Proofs.Snapshot.Format

/-!
# Which blobs are accepted

`decode` looks at a blob once, from its length to the value in it, and
refuses it at the first thing that is not as it should be. `checks` lists
what it looks at, without saying how; `decode` gives the reason of the
first check that fails (`decode_eq_error_iff`), and a value exactly if the
blob is framed around a spelling of it (`decode_eq_ok_iff`).

A blob says itself how long its parts are. So the reading is written down
once more with every part cut out by `slice?`, which has no answer outside
the blob; it always has one (`unframeBySlices_eq`).
-/

namespace VaultSearch.Snapshot

variable {α : Type} {c : Codec α} {F : Spelling α} {fingerprint : String}
  {blob block : List UInt8}

/-! ## The parts of a blob -/

/-- The number in four bytes of a blob, lowest first. -/
def numberIn (blob : List UInt8) (at_ : Nat) : Nat :=
  Nat.ofDigits 256 (((blob.drop at_).take 4).map UInt8.toNat)

/-- The bytes where the fingerprint should be. -/
def nameIn (blob : List UInt8) : List UInt8 := (blob.drop headerLength).take (numberIn blob 12)

/-- The fingerprint in a blob, if it is a text. -/
def storedIn (blob : List UInt8) : String := (Utf8.decode? (nameIn blob)).getD ""

/-- What follows the fingerprint. -/
def blockIn (blob : List UInt8) : List UInt8 := blob.drop (headerLength + numberIn blob 12)

theorem length_four_bytes {at_ : Nat} (h : at_ + 4 ≤ blob.length) :
    ((blob.drop at_).take 4).length = 4 := by
  rw [List.length_take, List.length_drop]
  omega

theorem word_eq_numberIn {at_ : Nat} (h : at_ + 4 ≤ blob.length) :
    word blob at_ = numberIn blob at_ := by
  have hread : Codec.u32.decode (blob.drop at_) =
      some (numberIn blob at_, (blob.drop at_).drop 4) :=
    (Codec.number_parses 4 _ _ _).mpr
      ⟨_, ⟨length_four_bytes h, rfl⟩, (List.take_append_drop 4 _).symm⟩
  rw [word, hread]
  rfl

/-- A declared length is too small for a position after it to overflow. -/
theorem numberIn_lt (blob : List UInt8) (at_ : Nat) : numberIn blob at_ < 2 ^ 32 := by
  calc numberIn blob at_ < 256 ^ ((blob.drop at_).take 4).length := Spelling.number.lt ⟨rfl, rfl⟩
    _ ≤ 256 ^ 4 := Nat.pow_le_pow_right (by decide) (List.length_take_le 4 _)

/-- Whether the fingerprint is all there. -/
theorem splitExact?_name (hlen : headerLength ≤ blob.length) :
    Codec.splitExact? (numberIn blob 12) (blob.drop headerLength) =
      if headerLength + numberIn blob 12 ≤ blob.length then some (nameIn blob, blockIn blob)
      else none := by
  have hfits : ((blob.drop headerLength).take (numberIn blob 12)).length = numberIn blob 12 ↔
      headerLength + numberIn blob 12 ≤ blob.length := by
    rw [List.length_take, List.length_drop]
    omega
  rw [Codec.splitExact?]
  simp only [hfits, List.drop_drop]
  rfl

/-- Opening a blob that has a whole header, in terms of its parts. -/
theorem unframe_eq (hlen : headerLength ≤ blob.length) : unframe fingerprint blob =
    if blob.take 4 ≠ magic then .error .badMagic
    else if numberIn blob 4 ≠ snapshotVersion then .error (.version (numberIn blob 4))
    else if ¬headerLength + numberIn blob 12 ≤ blob.length then .error .truncatedFingerprint
    else match Utf8.decode? (nameIn blob) with
      | none => .error .fingerprintNotUtf8
      | some stored =>
        if stored ≠ fingerprint then .error (.otherSettings stored fingerprint)
        else if (Crc32.sum (blockIn blob)).toNat ≠ numberIn blob 8 then .error .checksum
        else .ok (blockIn blob) := by
  have hlen' : 16 ≤ blob.length := hlen
  rw [unframe, if_neg (Nat.not_lt.mpr hlen), word_eq_numberIn (by omega),
    word_eq_numberIn (by omega), word_eq_numberIn (by omega), splitExact?_name hlen]
  simp only [bind, Except.bind, throw, throwThe, MonadExceptOf.throw, pure, Except.pure]
  by_cases hname : headerLength + numberIn blob 12 ≤ blob.length
  · simp only [hname, if_true, not_true_eq_false, if_false]
    cases Utf8.decode? (nameIn blob) <;> rfl
  · simp only [hname, if_false, not_false_eq_true, if_true]

/-! ## The slices -/

/-- The bytes from position `i` up to position `j`, if there are as many. -/
def slice? (bs : List UInt8) (i j : Nat) : Option (List UInt8) :=
  if i ≤ j ∧ j ≤ bs.length then some ((bs.drop i).take (j - i)) else none

/-- The number in the four bytes from a position on, if there are four. -/
def numberAt? (blob : List UInt8) (at_ : Nat) : Option Nat :=
  (slice? blob at_ (at_ + 4)).map fun bs => Nat.ofDigits 256 (bs.map UInt8.toNat)

/-- `unframe`, with each part of the blob cut out of it by its positions. There is no answer if
one of them is out of range. -/
def unframeBySlices (fingerprint : String) (blob : List UInt8) :
    Option (Except Rejection (List UInt8)) := do
  if blob.length < headerLength then return .error .shortHeader
  if (← slice? blob 0 4) ≠ magic then return .error .badMagic
  let version ← numberAt? blob 4
  if version ≠ snapshotVersion then return .error (.version version)
  let sum ← numberAt? blob 8
  let size ← numberAt? blob 12
  if blob.length < headerLength + size then return .error .truncatedFingerprint
  let name ← slice? blob headerLength (headerLength + size)
  let some stored := Utf8.decode? name | return .error .fingerprintNotUtf8
  if stored ≠ fingerprint then return .error (.otherSettings stored fingerprint)
  let block ← slice? blob (headerLength + size) blob.length
  if (Crc32.sum block).toNat ≠ sum then return .error .checksum
  return .ok block

theorem slice?_of_le {bs : List UInt8} {i j : Nat} (hij : i ≤ j) (hj : j ≤ bs.length) :
    slice? bs i j = some ((bs.drop i).take (j - i)) :=
  if_pos ⟨hij, hj⟩

theorem numberAt?_of_le {at_ : Nat} (h : at_ + 4 ≤ blob.length) :
    numberAt? blob at_ = some (numberIn blob at_) := by
  rw [numberAt?, slice?_of_le (Nat.le_add_right at_ 4) h, Nat.add_sub_cancel_left]
  rfl

theorem slice?_name (h : headerLength + numberIn blob 12 ≤ blob.length) :
    slice? blob headerLength (headerLength + numberIn blob 12) = some (nameIn blob) := by
  rw [slice?_of_le (Nat.le_add_right _ _) h, Nat.add_sub_cancel_left, nameIn]

theorem slice?_block (h : headerLength + numberIn blob 12 ≤ blob.length) :
    slice? blob (headerLength + numberIn blob 12) blob.length = some (blockIn blob) := by
  rw [slice?_of_le h le_rfl, ← List.length_drop, List.take_length, blockIn]

/-- No slice is out of range, whatever length the blob declares. -/
theorem unframeBySlices_eq (fingerprint : String) (blob : List UInt8) :
    unframeBySlices fingerprint blob = some (unframe fingerprint blob) := by
  by_cases hlen : headerLength ≤ blob.length
  · have hlen' : 16 ≤ blob.length := hlen
    rw [unframeBySlices, unframe_eq hlen, if_neg (Nat.not_lt.mpr hlen),
      slice?_of_le (Nat.zero_le 4) (by omega), numberAt?_of_le (by omega),
      numberAt?_of_le (by omega), numberAt?_of_le (by omega)]
    simp only [Option.bind_eq_bind, Option.bind_some, Option.pure_def, Nat.sub_zero, List.drop_zero]
    by_cases hname : headerLength + numberIn blob 12 ≤ blob.length
    · simp only [slice?_name hname, slice?_block hname, Option.bind_some, hname,
        Nat.not_lt.mpr hname, not_true_eq_false, if_false]
      cases Utf8.decode? (nameIn blob) <;> simp only [apply_ite some]
    · simp only [hname, Nat.lt_of_not_le hname, not_false_eq_true, if_true, apply_ite some]
  · rw [unframeBySlices, unframe, if_pos (Nat.lt_of_not_le hlen), if_pos (Nat.lt_of_not_le hlen)]
    rfl

/-! ## The checks -/

/-- Something that has to be so, and the reason to refuse a blob where it is not. -/
structure Check where
  passes : Prop
  reason : Rejection

/-- The first of the checks that does not pass has this reason. -/
inductive FirstFailing : List Check → Rejection → Prop
  | here {check : Check} {more : List Check} :
      ¬check.passes → FirstFailing (check :: more) check.reason
  | later {check : Check} {more : List Check} {r : Rejection} :
      check.passes → FirstFailing more r → FirstFailing (check :: more) r

/-- What has to be so of a blob that is opened. -/
def frameChecks (fingerprint : String) (blob : List UInt8) : List Check :=
  [⟨headerLength ≤ blob.length, .shortHeader⟩,
    ⟨blob.take 4 = magic, .badMagic⟩,
    ⟨numberIn blob 4 = snapshotVersion, .version (numberIn blob 4)⟩,
    ⟨headerLength + numberIn blob 12 ≤ blob.length, .truncatedFingerprint⟩,
    ⟨∃ s, nameIn blob = Utf8.encode s, .fingerprintNotUtf8⟩,
    ⟨nameIn blob = Utf8.encode fingerprint, .otherSettings (storedIn blob) fingerprint⟩,
    ⟨Crc32.IsCrc32 (blockIn blob) (numberIn blob 8), .checksum⟩]

/-- What has to be so of a compressed value that is read. -/
def blockChecks (F : Spelling α) (block : List UInt8) : List Check :=
  [⟨∃ bytes, Lz4.decompress block = some bytes, .decompression⟩,
    ⟨∃ front rest a, Lz4.decompress block = some (front ++ rest) ∧ F front a, .payload⟩]

/-- What has to be so of a blob that is accepted, in the order in which it is looked at. -/
def checks (F : Spelling α) (fingerprint : String) (blob : List UInt8) : List Check :=
  frameChecks fingerprint blob ++ blockChecks F (blockIn blob)

/-- `e` is the reason of the first check that fails, or a value that satisfies `v`. -/
def Follows {β : Type} (e : Except Rejection β) (v : β → Prop) : List Check → Prop
  | [] => ∃ b, e = .ok b ∧ v b
  | check :: more =>
    (¬check.passes → e = .error check.reason) ∧ (check.passes → Follows e v more)

section Follows

variable {β γ : Type} {e : Except Rejection β} {v : β → Prop}

theorem Follows.eq_error_iff {r : Rejection} : ∀ {cs : List Check}, Follows e v cs →
    (e = .error r ↔ FirstFailing cs r)
  | [], h => by
      obtain ⟨b, rfl, -⟩ := h
      exact ⟨nofun, nofun⟩
  | check :: more, h => by
      obtain ⟨hfails, hpasses⟩ := h
      by_cases hcheck : check.passes
      · rw [(hpasses hcheck).eq_error_iff]
        refine ⟨.later hcheck, fun h => ?_⟩
        cases h with
        | here hnot => exact absurd hcheck hnot
        | later _ h => exact h
      · rw [hfails hcheck]
        constructor
        · rintro ⟨⟩
          exact .here hcheck
        · intro h
          cases h with
          | here _ => rfl
          | later hyes _ => exact absurd hyes hcheck

theorem Follows.passes_of_eq_ok {b : β} : ∀ {cs : List Check}, Follows e v cs → e = .ok b →
    ∀ check ∈ cs, check.passes
  | [], _, _ => nofun
  | check :: more, h, hok => by
      obtain ⟨hfails, hpasses⟩ := h
      have hcheck : check.passes := by
        by_contra hnot
        rw [hfails hnot] at hok
        cases hok
      exact List.forall_mem_cons.mpr ⟨hcheck, (hpasses hcheck).passes_of_eq_ok hok⟩

/-- What comes after looks at the value that was found. -/
theorem Follows.bind {f : β → Except Rejection γ} {w : γ → Prop} {more : List Check} :
    ∀ {cs : List Check}, Follows e v cs → (∀ b, v b → Follows (f b) w more) →
      Follows (e >>= f) w (cs ++ more)
  | [], h, hf => by
      obtain ⟨b, rfl, hv⟩ := h
      exact hf b hv
  | _ :: _, h, hf => ⟨fun hnot => by rw [h.1 hnot]; rfl, fun hcheck => (h.2 hcheck).bind hf⟩

end Follows

theorem unframe_follows (fingerprint : String) (blob : List UInt8) :
    Follows (unframe fingerprint blob) (· = blockIn blob) (frameChecks fingerprint blob) := by
  refine ⟨fun h => ?_, fun hlen => ?_⟩
  · rw [unframe, if_pos (Nat.lt_of_not_le h)]
    rfl
  rw [unframe_eq hlen]
  refine ⟨fun h => if_pos h, fun hmagic => ?_⟩
  rw [if_neg (not_not.mpr hmagic)]
  refine ⟨fun h => if_pos h, fun hversion => ?_⟩
  rw [if_neg (not_not.mpr hversion)]
  refine ⟨fun h => if_pos h, fun hname => ?_⟩
  rw [if_neg (not_not.mpr hname)]
  refine ⟨fun h => ?_, ?_⟩
  · have hnone : Utf8.decode? (nameIn blob) = none := by
      rw [Option.eq_none_iff_forall_ne_some]
      exact fun s hs => h ⟨s, (Utf8.encode_of_decode? hs).symm⟩
    rw [hnone]
  rintro ⟨stored, hstored⟩
  have hread : Utf8.decode? (nameIn blob) = some stored := Utf8.decode?_eq_some_iff.mpr hstored.symm
  rw [hread]
  have hname_eq : nameIn blob = Utf8.encode fingerprint ↔ stored = fingerprint := by
    rw [eq_comm, ← Utf8.decode?_eq_some_iff, hread, Option.some.injEq]
  rw [storedIn, hread]
  dsimp only
  refine ⟨fun h => if_pos (hname_eq.not.mp h), fun hsettings => ?_⟩
  rw [if_neg (not_not.mpr (hname_eq.mp hsettings))]
  refine ⟨fun h => if_pos fun hsum => h (Crc32.isCrc32_iff.mpr hsum.symm), fun hsum => ?_⟩
  exact ⟨blockIn blob, if_neg (not_not.mpr (Crc32.isCrc32_iff.mp hsum).symm), rfl⟩

theorem decode_follows (hc : c.Parses F) (fingerprint : String) (blob : List UInt8) :
    Follows (decode c fingerprint blob) (fun _ => True) (checks F fingerprint blob) := by
  rw [decode]
  refine (unframe_follows fingerprint blob).bind ?_
  rintro _ rfl
  rw [unpack]
  cases hbytes : Lz4.decompress (blockIn blob) with
  | none =>
      refine ⟨fun _ => rfl, ?_⟩
      rintro ⟨bytes, hsome⟩
      rw [hbytes] at hsome
      cases hsome
  | some bytes =>
      refine ⟨fun h => absurd ⟨bytes, hbytes⟩ h, fun _ => ?_⟩
      rw [hbytes]
      cases hread : c.decode bytes with
      | none =>
          refine ⟨fun _ => by simp only [hread]; rfl, ?_⟩
          rintro ⟨front, rest, a, heq, hF⟩
          exact absurd hF (hc.decode_eq_none_iff.mp hread front rest a (Option.some.inj heq))
      | some read =>
          obtain ⟨a, rest⟩ := read
          obtain ⟨front, hF, rfl⟩ := (hc bytes a rest).mp hread
          refine ⟨fun h => absurd ⟨front, rest, a, rfl, hF⟩ h, fun _ => ⟨a, ?_, trivial⟩⟩
          simp only [hread]
          rfl

/-- A blob is refused for the reason of the first check that fails, if one does. -/
theorem decode_eq_error_iff (hc : c.Parses F) {r : Rejection} :
    decode c fingerprint blob = .error r ↔ FirstFailing (checks F fingerprint blob) r :=
  (decode_follows hc fingerprint blob).eq_error_iff

/-! ## The format -/

/-- The blob is the letters `QSNP`, the version, the CRC-32 of a block, the length of the
fingerprint, the fingerprint and the block. -/
def Frames (fingerprint : String) (blob block : List UInt8) : Prop :=
  ∃ version sum size crc, Spelling.number 4 version 1 ∧
    Spelling.number 4 sum crc ∧ Crc32.IsCrc32 block crc ∧
    Spelling.number 4 size (Utf8.encode fingerprint).length ∧
    blob = Utf8.encode "QSNP" ++ version ++ sum ++ size ++ Utf8.encode fingerprint ++ block

theorem unframe_eq_ok_iff_frames :
    unframe fingerprint blob = .ok block ↔ Frames fingerprint blob block := by
  constructor
  · intro h
    have hpass := (unframe_follows fingerprint blob).passes_of_eq_ok h
    simp only [frameChecks, List.forall_mem_cons] at hpass
    obtain ⟨-, -, -, hfits, -, hname, -⟩ := hpass
    have hlen : (Utf8.encode fingerprint).length < 2 ^ 32 := by
      rw [← hname, nameIn, List.length_take]
      exact (Nat.min_le_left _ _).trans_lt (numberIn_lt blob 12)
    exact ⟨_, _, _, _, Codec.number_iff.mpr ⟨by decide, rfl⟩,
      Codec.number_iff.mpr ⟨(Crc32.sum block).toNat_lt, rfl⟩, Crc32.isCrc32_sum block,
      Codec.number_iff.mpr ⟨hlen, rfl⟩, eq_frame_of_unframe h⟩
  · rintro ⟨version, sum, size, crc, hversion, hsum, hcrc, hsize, rfl⟩
    obtain ⟨-, rfl⟩ := Codec.number_iff.mp hversion
    obtain ⟨-, rfl⟩ := Codec.number_iff.mp hsum
    obtain ⟨hlen, rfl⟩ := Codec.number_iff.mp hsize
    obtain rfl := Crc32.isCrc32_iff.mp hcrc
    exact (unframe_eq_ok_iff hlen).mpr rfl

theorem decode_eq_ok_iff_reads {a : α} :
    decode c fingerprint blob = .ok a ↔ ∃ block bytes rest,
      unframe fingerprint blob = .ok block ∧ Lz4.decompress block = some bytes ∧
        c.decode bytes = some (a, rest) := by
  simp only [decode, unpack, bind, Except.bind, throw, throwThe, MonadExceptOf.throw, pure,
    Except.pure]
  cases unframe fingerprint blob with
  | error r => simp
  | ok block =>
      cases hbytes : Lz4.decompress block with
      | none => simp [hbytes]
      | some bytes =>
          cases hread : c.decode bytes with
          | none => simp [hbytes, hread]
          | some read => simp [hbytes, hread, Prod.ext_iff]

/-- A value is read from a blob exactly if the blob is framed around a block whose text begins
with a spelling of the value. -/
theorem decode_eq_ok_iff (hc : c.Parses F) {a : α} :
    decode c fingerprint blob = .ok a ↔ ∃ block front rest, Frames fingerprint blob block ∧
      Lz4.decompress block = some (front ++ rest) ∧ F front a := by
  rw [decode_eq_ok_iff_reads]
  simp only [unframe_eq_ok_iff_frames, hc _ _ _]
  constructor
  · rintro ⟨block, bytes, rest, hframes, hbytes, front, hF, rfl⟩
    exact ⟨block, front, rest, hframes, hbytes, hF⟩
  · rintro ⟨block, front, rest, hframes, hbytes, hF⟩
    exact ⟨block, front ++ rest, rest, hframes, hbytes, front, hF, rfl⟩

/-- An index is read from a blob exactly if the blob is framed around a block whose text begins
with a spelling of the index. Every other blob is refused for the reason of the first check that
fails, and none has a part taken from it that is out of its range. -/
theorem index_accepted_iff (fingerprint : String) (blob : List UInt8) :
    (∀ ix, decode Index.codec fingerprint blob = .ok ix ↔ ∃ block front rest,
      Frames fingerprint blob block ∧ Lz4.decompress block = some (front ++ rest) ∧
        Spelling.index front ix) ∧
      (∀ r, decode Index.codec fingerprint blob = .error r ↔
        FirstFailing (checks Spelling.index fingerprint blob) r) ∧
      unframeBySlices fingerprint blob = some (unframe fingerprint blob) :=
  ⟨fun _ => decode_eq_ok_iff Index.codec_parses, fun _ => decode_eq_error_iff Index.codec_parses,
    unframeBySlices_eq fingerprint blob⟩

end VaultSearch.Snapshot
