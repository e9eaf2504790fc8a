import Mathlib.Algebra.Order.BigOperators.Group.List
import VaultSearch.Engine
import VaultSearch.Proofs.Index.Records
import VaultSearch.Proofs.Snapshot.RoundTrip

/-!
# Storing an index

An index whose numbers fit into the widths of its binary form is read
back from it (`Index.codec_reads`). The numbers of an index that
`Records` some documents are bounded by the length of that form
(`Index.Records.storable`), and such an index passes the check that
guards a load (`Index.Records.check_ok`), so a snapshot of it can be
refused for its settings or its size alone. Whatever an index or a list of
named numbers holds, a snapshot of it gives it back
(`Snapshot.payloads_read_back`).
-/

namespace VaultSearch

/-! ## The binary forms of an index -/

theorem Field.ofNumber?_number (f : Field) : Field.ofNumber? f.number = some f := by
  cases f <;> rfl

theorem Field.number_lt (f : Field) : f.number < 2 ^ 32 := by
  cases f <;> decide

theorem PerField.codec_reads {c : Codec Nat} {p : Nat → Prop} (h : c.Reads p) :
    (PerField.codec c).Reads fun v => ∀ f, p (v.get f) := by
  refine Codec.imap_reads (Codec.pair_reads h (Codec.pair_reads h (Codec.pair_reads h h)))
    fun v hv => ⟨?_, rfl⟩
  exact ⟨hv .basename, hv .aliases, hv .folder, hv .content⟩

theorem Posting.codec_reads : Posting.codec.Reads (·.doc < 2 ^ 32) := by
  refine Codec.imap_reads (Codec.pair_reads Codec.u32_reads Codec.u32_reads) fun p hp => ?_
  refine ⟨⟨hp, p.field.number_lt⟩, ?_⟩
  exact congrArg (Option.map (Posting.mk p.doc)) p.field.ofNumber?_number

theorem Posting.encode_pos (p : Posting) : 0 < (Posting.codec.encode p).length := by
  simp [Posting.codec, Codec.imap, Codec.pair, Codec.length_encode_u32]

theorem text_encode_pos (s : String) : 0 < (Codec.text.encode s).length := by
  simp only [Codec.text, List.length_append, Codec.length_encode_u64]
  omega

theorem slot_encode_pos (slot : Option Entry) : 0 < (Entry.codec.option.encode slot).length := by
  cases slot <;> simp [Codec.option]

theorem Entry.codec_reads : Entry.codec.Reads fun e => ∀ f, e.lengths.get f < 2 ^ 32 := by
  refine Codec.imap_reads (Codec.pair_reads Codec.text_reads (Codec.pair_reads
    (Codec.list_reads Codec.text_reads text_encode_pos) (PerField.codec_reads Codec.u32_reads)))
    fun e he => ⟨⟨trivial, fun _ _ => trivial, he⟩, rfl⟩

/-- Inserting the rows of a map one by one gives the map. -/
theorem Postings.foldl_insert_rows (m : Postings) :
    (m.toList.map fun (t, ps) => (t, ps.toList)).foldl
      (fun m (t, ps) => m.insert t ps.toArray) ({} : Postings) = m := by
  have hrows : (m.toList.map fun (t, ps) => (t, ps.toList)).foldl
      (fun m (t, ps) => m.insert t ps.toArray) ({} : Postings) = .ofList m.toList := by
    rw [List.foldl_map]
    exact Std.ExtTreeMap.ofList_eq_foldl.symm
  rw [hrows]
  refine Std.ExtTreeMap.ext_getElem? fun t => ?_
  cases ht : m[t]? with
  | none =>
      refine Std.ExtTreeMap.getElem?_ofList_of_contains_eq_false ?_
      rw [Std.ExtTreeMap.map_fst_toList_eq_keys]
      rwa [← Bool.not_eq_true, List.contains_iff_mem, Std.ExtTreeMap.mem_keys,
        Std.ExtTreeMap.mem_iff_isSome_getElem?, Option.not_isSome_iff_eq_none]
  | some ps =>
      exact Std.ExtTreeMap.getElem?_ofList_of_mem Std.ReflCmp.compare_self
        Std.ExtTreeMap.distinct_keys_toList
        (Std.ExtTreeMap.mem_toList_iff_getElem?_eq_some.mpr ht)

theorem Postings.codec_reads : Postings.codec.Reads fun m => ∀ (t : String) (ps : Array Posting),
    m[t]? = some ps → ∀ p ∈ ps.toList, p.doc < 2 ^ 32 := by
  have hrow := Codec.pair_reads Codec.text_reads
    (Codec.list_reads Posting.codec_reads Posting.encode_pos)
  refine Codec.imap_reads (Codec.list_reads hrow fun row => ?_) fun m hm => ⟨?_, ?_⟩
  · have := text_encode_pos row.1
    simp only [Codec.pair, List.length_append]
    omega
  · rintro ⟨t, ps⟩ hrow
    obtain ⟨⟨u, qs⟩, hmem, heq⟩ := List.mem_map.mp hrow
    obtain ⟨rfl, rfl⟩ := Prod.mk.inj heq
    exact ⟨trivial, hm u qs (Std.ExtTreeMap.mem_toList_iff_getElem?_eq_some.mp hmem)⟩
  · exact congrArg some m.foldl_insert_rows

/-- The numbers of an index fit into the widths of its binary form. -/
structure Index.Storable (ix : Index) : Prop where
  lengths : ∀ e, some e ∈ ix.docs.toList → ∀ f, e.lengths.get f < 2 ^ 32
  slots : ∀ t, ∀ p ∈ ix.postingsOf t, p.doc < 2 ^ 32
  totals : ∀ f, ix.totals.get f < 2 ^ 64
  live : ix.live < 2 ^ 64

theorem Index.codec_reads : Index.codec.Reads Index.Storable := by
  refine Codec.imap_reads (Codec.pair_reads
    (Codec.list_reads (Codec.option_reads Entry.codec_reads) slot_encode_pos)
    (Codec.pair_reads Postings.codec_reads
      (Codec.pair_reads (PerField.codec_reads Codec.u64_reads) Codec.u64_reads)))
    fun ix hix => ⟨⟨?_, ?_, ?_⟩, ?_⟩
  · rintro o ho e rfl
    exact hix.lengths e ho
  · intro t ps hps p hp
    refine hix.slots t p ?_
    rwa [Index.postingsOf, Std.ExtTreeMap.getD_eq_getD_getElem?, hps]
  · exact ⟨hix.totals, hix.live⟩
  · simp

/-! ## The numbers of an index of documents -/

namespace Index.Records

variable {ix : Index} {ds : List (Option Analysed)}

/-- Each term of a field takes up some bytes of the entry. -/
theorem length_field_le {d : Analysed} (hd : d.Sorted) (f : Field) :
    (d.fields.get f).length ≤ (Entry.codec.option.encode (some (entryOf d))).length := by
  have hnd : (d.fields.get f).Nodup := (hd f).imp fun h => ne_of_lt h
  have hterms : (d.fields.get f).length ≤ (entryOf d).terms.length :=
    (List.subperm_of_subset hnd fun _ ht => Analysed.mem_terms_entryOf.mpr ⟨f, ht⟩).length_le
  have hform := Codec.length_le_length_flatMap text_encode_pos (entryOf d).terms
  simp only [Codec.option, Entry.codec, Codec.imap, Codec.pair, Codec.list, List.length_cons,
    List.length_append]
  omega

/-- The field totals are bounded by the length of the form of the slots. -/
theorem sum_lengths_le (f : Field) : ∀ ds : List (Option Analysed),
    (∀ d ∈ ds.reduceOption, d.Sorted) →
    (ds.reduceOption.map fun d => (d.fields.get f).length).sum ≤
      ((ds.map (Option.map entryOf)).flatMap Entry.codec.option.encode).length
  | [], _ => Nat.le_refl 0
  | none :: ds, h => by
      have ih := sum_lengths_le f ds fun d hd => h d (by rwa [List.reduceOption_cons_of_none])
      rw [List.reduceOption_cons_of_none, List.map_cons, List.flatMap_cons, List.length_append]
      omega
  | some d :: ds, h => by
      rw [List.reduceOption_cons_of_some] at h ⊢
      have hd := length_field_le (h d List.mem_cons_self) f
      have ih := sum_lengths_le f ds fun d hd => h d (List.mem_cons_of_mem _ hd)
      rw [List.map_cons, List.sum_cons, List.map_cons, Option.map_some, List.flatMap_cons,
        List.length_append]
      omega

theorem storable (h : ix.Records ds) (hlen : (Index.codec.encode ix).length < 2 ^ 32) :
    ix.Storable := by
  have hdocs : ((ds.map (Option.map entryOf)).flatMap Entry.codec.option.encode).length <
      2 ^ 32 := by
    simp only [Index.codec, Codec.imap, Codec.pair, Codec.list, List.length_append, h.docs] at hlen
    omega
  have hsize : ds.length < 2 ^ 32 := by
    have := Codec.length_le_length_flatMap slot_encode_pos (ds.map (Option.map entryOf))
    rw [List.length_map] at this
    omega
  have hsum : ∀ f, (ds.reduceOption.map fun d => (d.fields.get f).length).sum < 2 ^ 32 :=
    fun f => Nat.lt_of_le_of_lt (sum_lengths_le f ds h.sorted) hdocs
  constructor
  · intro e he f
    rw [h.docs] at he
    obtain ⟨o, ho, heq⟩ := List.mem_map.mp he
    obtain ⟨d, rfl, rfl⟩ := Option.map_eq_some_iff.mp heq
    rw [entryOf, PerField.get_of]
    refine Nat.lt_of_le_of_lt (List.le_sum_of_mem ?_) (hsum f)
    exact List.mem_map.mpr ⟨d, List.reduceOption_mem_iff.mpr ho, rfl⟩
  · rintro t ⟨s, f⟩ hp
    obtain ⟨d, hs, -⟩ := (h.mem_postings t s f).mp hp
    exact Nat.lt_trans (List.getElem?_eq_some_iff.mp hs).1 hsize
  · intro f
    rw [h.totals]
    exact Nat.lt_trans (hsum f) (by decide)
  · rw [h.live]
    have := List.reduceOption_length_le ds
    omega

/-- An index of documents passes the check of a load. -/
theorem check_ok (h : ix.Records ds) : ix.check = .ok () := by
  have hlive : (ix.docs.filter Option.isSome).size = ix.live := by
    rw [← Array.length_toList, Array.toList_filter, h.docs, h.live, List.reduceOption_length_eq,
      List.filter_map, List.length_map]
    congr 2
    funext o
    cases o <;> rfl
  have hpostings : ¬(ix.postings.toList.any fun (_, ps) =>
      ps.any fun p => (ix.entry? p.doc).isNone) = true := by
    intro hany
    obtain ⟨⟨t, ps⟩, hmem, hps⟩ := List.any_eq_true.mp hany
    have hps' : ps.toList.any (fun p => (ix.entry? p.doc).isNone) = true := by
      rw [Array.any_toList]
      exact hps
    obtain ⟨⟨s, f⟩, hp, hnone⟩ := List.any_eq_true.mp hps'
    have hof : ix.postingsOf t = ps.toList := by
      rw [Index.postingsOf, Std.ExtTreeMap.getD_eq_getD_getElem?,
        Std.ExtTreeMap.mem_toList_iff_getElem?_eq_some.mp hmem]
      rfl
    obtain ⟨d, hs, -⟩ := (h.mem_postings t s f).mp (by rwa [hof])
    rw [h.entry?_eq_some.mpr ⟨d, hs, rfl⟩] at hnone
    cases hnone
  rw [Index.check, if_neg (not_not.mpr hlive), if_neg hpostings]

end Index.Records

/-! ## Snapshots of an index -/

theorem Config.length_fingerprint (c : Config) : (Utf8.encode c.fingerprint).length < 2 ^ 32 := by
  rw [Config.fingerprint]
  generalize c.index.cjkPatch = cjk
  generalize c.index.useHmm = hmm
  generalize c.search.caseSensitive = case
  cases cjk <;> cases hmm <;> cases case <;> decide

namespace Engine

/-- A snapshot of `e'` fits `e`: both analyse text alike, and the form of the index
is short enough to be stored. -/
def Accepts (e e' : Engine) : Prop :=
  e'.config.fingerprint = e.config.fingerprint ∧
    (Index.codec.encode e'.index).length < 2 ^ 32

instance (e e' : Engine) : Decidable (e.Accepts e') := inferInstanceAs (Decidable (_ ∧ _))

theorem serialize_eq (e : Engine) :
    e.serialize = Snapshot.encode Index.codec e.config.fingerprint e.index := rfl

theorem readSnapshot_eq (e : Engine) (blob : List UInt8) :
    e.readSnapshot blob = (do
      let ix ← Snapshot.decode Index.codec e.config.fingerprint blob
      ix.check
      pure ix) := by
  rw [readSnapshot, Snapshot.decode, bind_assoc]
  rfl

/-- A snapshot that fits is read back, and any other is refused. -/
theorem readSnapshot_serialize (e : Engine) {e' : Engine} {ds : List (Option Analysed)}
    (h : e'.index.Records ds) :
    e.readSnapshot e'.serialize =
      if e.Accepts e' then .ok e'.index
      else if e'.config.fingerprint = e.config.fingerprint then .error .decompression
      else .error (.otherSettings e'.config.fingerprint e.config.fingerprint) := by
  have hname := e'.config.length_fingerprint
  by_cases hfp : e'.config.fingerprint = e.config.fingerprint
  · by_cases hlen : (Index.codec.encode e'.index).length < 2 ^ 32
    · rw [if_pos ⟨hfp, hlen⟩, readSnapshot_eq, serialize_eq, ← hfp,
        Snapshot.decode_encode Index.codec_reads hname hlen (h.storable hlen)]
      simp only [bind, Except.bind, h.check_ok]
      rfl
    · rw [if_neg fun hacc => hlen hacc.2, if_pos hfp, readSnapshot_eq, serialize_eq, ← hfp,
        Snapshot.decode_encode_too_long hname hlen]
      rfl
  · rw [if_neg fun hacc => hfp hacc.1, if_neg hfp, readSnapshot_eq, serialize_eq,
      Snapshot.decode_encode_other hname hfp]
    rfl

end Engine

/-! ## Both kinds of snapshots -/

namespace Snapshot

/-- Numbers that fit into four bytes, each under a name. -/
abbrev pairs : Codec (List (String × Nat)) := (Codec.text.pair Codec.u32).list

theorem pairs_reads : pairs.Reads fun items => ∀ item ∈ items, item.2 < 2 ^ 32 := by
  have hlist := Codec.list_reads (Codec.pair_reads Codec.text_reads Codec.u32_reads) fun item => by
    have := text_encode_pos item.1
    simp only [Codec.pair, List.length_append]
    omega
  rintro items rest ⟨hlen, hitems⟩
  exact hlist items rest ⟨hlen, fun item hitem => ⟨trivial, hitems item hitem⟩⟩

/-- Decoding undoes encoding, for every index whose numbers fit into their widths and for every
list of named numbers, and it reads the value from every other blob that holds it. -/
theorem payloads_read_back {fingerprint : String}
    (hname : (Utf8.encode fingerprint).length < 2 ^ 32) :
    (∀ ix : Index, ix.Storable → (Index.codec.encode ix).length < 2 ^ 32 →
      decode Index.codec fingerprint (encode Index.codec fingerprint ix) = .ok ix ∧
        ∀ blob, Carries Index.codec fingerprint ix blob →
          decode Index.codec fingerprint blob = .ok ix) ∧
      ∀ items : List (String × Nat), (∀ item ∈ items, item.2 < 2 ^ 32) →
        (pairs.encode items).length < 2 ^ 32 →
        decode pairs fingerprint (encode pairs fingerprint items) = .ok items ∧
          ∀ blob, Carries pairs fingerprint items blob →
            decode pairs fingerprint blob = .ok items := by
  refine ⟨fun ix hix hlen => ?_, fun items hitems hlen => ?_⟩
  · exact ⟨decode_encode Index.codec_reads hname hlen hix, fun blob hblob =>
      decode_of_carries Index.codec_reads hname hlen hix hblob⟩
  · exact ⟨decode_encode pairs_reads hname hlen hitems, fun blob hblob =>
      decode_of_carries pairs_reads hname hlen hitems hblob⟩

/-- An index with a hole, with a term without postings and with a wrong count is read back like
any other, and so is a list that holds the empty text and the greatest number. -/
theorem odd_payloads_read_back :
    let ix : Index :=
      { docs := #[none, some ⟨"é.md", ["é", "ß"], ⟨1, 0, 0, 2⟩⟩, none]
        postings := ({} : Postings).insert "é" #[⟨1, .basename⟩, ⟨1, .content⟩] |>.insert "ß" #[]
        totals := ⟨1, 0, 0, 2⟩
        live := 7 }
    let items := [("é", 4294967295), ("", 0)]
    (Utf8.encode "é").length < 2 ^ 32 ∧ ix.Storable ∧ (Index.codec.encode ix).length < 2 ^ 32 ∧
      decode Index.codec "é" (encode Index.codec "é" ix) = .ok ix ∧
      (∀ item ∈ items, item.2 < 2 ^ 32) ∧ (pairs.encode items).length < 2 ^ 32 ∧
      decode pairs "é" (encode pairs "é" items) = .ok items := by
  intro ix items
  have hname : (Utf8.encode "é").length < 2 ^ 32 := by decide +kernel
  have hstorable : ix.Storable := by
    constructor
    · intro e he f
      obtain rfl : e = ⟨"é.md", ["é", "ß"], ⟨1, 0, 0, 2⟩⟩ := by simpa [ix] using he
      cases f <;> decide
    · intro t p hp
      rw [Index.postingsOf, Std.ExtTreeMap.getD_insert, Std.ExtTreeMap.getD_insert] at hp
      split at hp
      · cases hp
      · split at hp
        · rcases List.mem_pair.mp hp with rfl | rfl <;> decide
        · cases hp
    · intro f
      cases f <;> decide
    · decide
  have hlen : (Index.codec.encode ix).length < 2 ^ 32 := by decide +kernel
  have hitems : ∀ item ∈ items, item.2 < 2 ^ 32 := by decide
  have hlen' : (pairs.encode items).length < 2 ^ 32 := by decide +kernel
  exact ⟨hname, hstorable, hlen, ((payloads_read_back hname).1 ix hstorable hlen).1, hitems, hlen',
    ((payloads_read_back hname).2 items hitems hlen').1⟩

end Snapshot

end VaultSearch
