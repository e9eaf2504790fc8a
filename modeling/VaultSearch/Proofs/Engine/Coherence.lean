import VaultSearch.Proofs.Engine.Runs
import VaultSearch.Proofs.Search.Independence

/-!
# The parts of an engine fit together

An engine keeps the same facts in several places: the slot table, the
slots, the postings, the terms and lengths of each entry, the totals and
the number of documents. `Coherent` says how they fit together, in terms
of the map that the engine stands for, and `Holds.coherent` that they do
so at the end of every run.
-/

namespace VaultSearch

/-- What an index keeps of its live documents, in the order of their slots. -/
def Index.entries (ix : Index) : List Entry := ix.docs.toList.reduceOption

theorem Index.Records.entries_eq {ix : Index} {ds : List (Option Analysed)} (h : ix.Records ds) :
    ix.entries = ds.reduceOption.map entryOf := by
  rw [Index.entries, h.docs, List.reduceOption_map]

theorem Index.Records.mem_postings_slot {ix : Index} {ds : List (Option Analysed)}
    (h : ix.Records ds) {s : Nat} {d : Analysed} (hs : ds[s]? = some (some d)) (t : String)
    (f : Field) : ⟨s, f⟩ ∈ ix.postingsOf t ↔ t ∈ d.fields.get f := by
  rw [h.mem_postings]
  constructor
  · rintro ⟨d', hs', ht⟩
    obtain rfl : d = d' := by simpa [hs] using hs'
    exact ht
  · intro ht
    exact ⟨d, hs, ht⟩

/-- The terms of a field are those with a posting in the slot of the document. -/
theorem Index.Records.field_eq {ix : Index} {ds : List (Option Analysed)} (h : ix.Records ds)
    {s : Nat} {d : Analysed} (hs : ds[s]? = some (some d)) (f : Field) :
    d.fields.get f = ix.postings.keys.filter fun t => ⟨s, f⟩ ∈ ix.postingsOf t := by
  refine List.Pairwise.eq_of_mem_iff (r := (· < ·)) (h.sorted d (mem_live_of_slot hs) f)
    ((pairwise_keys ix).filter _) fun t => ?_
  rw [List.mem_filter, h.mem_keys, decide_eq_true_eq, h.mem_postings_slot hs]
  exact ⟨fun ht => ⟨⟨d, mem_live_of_slot hs, f, ht⟩, ht⟩, And.right⟩

namespace Engine

/-- The parts of an engine that stands for `M` fit together. -/
structure Coherent (e : Engine) (M : Contents) : Prop where
  /-- The live documents are those of the map. -/
  contents : ∀ p, (M p).isSome ↔ ∃ s entry, e.index.entry? s = some entry ∧ entry.path = p
  /-- The slot table maps a path to the slot of the live document with that path. -/
  slots : ∀ (p : String) (s : Nat),
    e.slots[p]? = some s ↔ ∃ entry, e.index.entry? s = some entry ∧ entry.path = p
  /-- No two live documents share a path. -/
  paths : ∀ s s' entry entry', e.index.entry? s = some entry → e.index.entry? s' = some entry' →
    entry.path = entry'.path → s = s'
  live : e.index.live = e.index.entries.length
  /-- No term is kept without postings. -/
  inhabited : e.index.postings.Inhabited
  /-- The postings of a term ascend by slot and field, without repeats. -/
  ordered : ∀ t, (e.index.postingsOf t).Pairwise Posting.Before
  /-- A posting stands for a term of a field of a live document. -/
  postings : ∀ t s f, ⟨s, f⟩ ∈ e.index.postingsOf t ↔
    ∃ entry F, e.index.entry? s = some entry ∧ M entry.path = some F ∧ t ∈ F.get f
  /-- An entry lists the terms with a posting in its slot, ascending. -/
  terms : ∀ s entry, e.index.entry? s = some entry → entry.terms.Pairwise (· < ·) ∧
    ∀ t, t ∈ entry.terms ↔ ∃ f, ⟨s, f⟩ ∈ e.index.postingsOf t
  /-- The length of a field is the number of terms with a posting for it. -/
  lengths : ∀ s entry f, e.index.entry? s = some entry → entry.lengths.get f =
    (e.index.postings.keys.filter fun t => ⟨s, f⟩ ∈ e.index.postingsOf t).length
  totals : ∀ f, e.index.totals.get f =
    (e.index.entries.map fun entry => entry.lengths.get f).sum
  /-- Taking a live document out of the totals never goes below zero. -/
  lengths_le : ∀ s entry f, e.index.entry? s = some entry →
    entry.lengths.get f ≤ e.index.totals.get f
  /-- The document frequency of a term counts the live documents with the term. -/
  docFreq : ∀ t, e.index.docFreq t = (e.index.entries.filter fun entry => t ∈ entry.terms).length
  docFreq_le : ∀ t, e.index.docFreq t ≤ e.index.live
  documents : e.stats.documents = e.size

variable {c : Config} {segmenter : Option Segmenter} {e : Engine} {ds : List (Option Analysed)}

/-- The indexed paths are those of the live documents. -/
theorem Records.keys_perm (h : Records c segmenter e ds) :
    e.slots.keys.Perm (ds.reduceOption.map Analysed.path) := by
  refine (List.perm_ext_iff_of_nodup (Text.nodup_keys _) h.distinctPaths.nodup).mpr fun p => ?_
  rw [Std.TreeMap.mem_keys, Std.TreeMap.mem_iff_isSome_getElem?, Option.isSome_iff_exists,
    List.mem_map]
  constructor
  · rintro ⟨s, hs⟩
    obtain ⟨d, hd, hp⟩ := (h.slots p s).mp hs
    exact ⟨d, Index.Records.mem_live_of_slot hd, hp⟩
  · rintro ⟨d, hd, hp⟩
    obtain ⟨s, hs⟩ := Index.Records.exists_slot_of_mem_live hd
    exact ⟨s, (h.slots p s).mpr ⟨d, hs, hp⟩⟩

theorem Records.size_eq (h : Records c segmenter e ds) : e.size = ds.reduceOption.length := by
  rw [size, ← Std.TreeMap.length_keys, h.keys_perm.length_eq, List.length_map]

theorem Records.coherent_ofList (h : Records c segmenter e ds) :
    e.Coherent (Contents.ofList ds.reduceOption) where
  contents p := by
    rw [Option.isSome_iff_exists]
    constructor
    · rintro ⟨F, hF⟩
      obtain ⟨s, hs⟩ := h.ofList_eq_some.mp hF
      exact ⟨s, _, h.index.entry?_eq_some.mpr ⟨_, hs, rfl⟩, rfl⟩
    · rintro ⟨s, entry, hentry, rfl⟩
      obtain ⟨d, hs, rfl⟩ := h.index.entry?_eq_some.mp hentry
      exact ⟨d.fields, h.ofList_eq_some.mpr ⟨s, hs⟩⟩
  slots p s := by
    rw [h.slots]
    constructor
    · rintro ⟨d, hs, hp⟩
      exact ⟨_, h.index.entry?_eq_some.mpr ⟨d, hs, rfl⟩, hp⟩
    · rintro ⟨entry, hentry, hp⟩
      obtain ⟨d, hs, rfl⟩ := h.index.entry?_eq_some.mp hentry
      exact ⟨d, hs, hp⟩
  paths s s' entry entry' hentry hentry' hp := by
    obtain ⟨d, hs, rfl⟩ := h.index.entry?_eq_some.mp hentry
    obtain ⟨d', hs', rfl⟩ := h.index.entry?_eq_some.mp hentry'
    exact h.distinctPaths s s' d d' hs hs' hp
  live := by rw [h.index.live, h.index.entries_eq, List.length_map]
  inhabited := h.index.inhabited
  ordered := h.index.ordered
  postings t s f := by
    rw [h.index.mem_postings]
    constructor
    · rintro ⟨d, hs, ht⟩
      exact ⟨_, d.fields, h.index.entry?_eq_some.mpr ⟨d, hs, rfl⟩, h.ofList_eq_some.mpr ⟨s, hs⟩, ht⟩
    · rintro ⟨entry, F, hentry, hF, ht⟩
      obtain ⟨d, hs, rfl⟩ := h.index.entry?_eq_some.mp hentry
      obtain rfl : d.fields = F := Option.some.inj ((h.ofList_eq_some.mpr ⟨s, hs⟩).symm.trans hF)
      exact ⟨d, hs, ht⟩
  terms s entry hentry := by
    obtain ⟨d, hs, rfl⟩ := h.index.entry?_eq_some.mp hentry
    refine ⟨Analysed.pairwise_terms_entryOf d, fun t => ?_⟩
    rw [Analysed.mem_terms_entryOf, Analysed.Has]
    exact exists_congr fun f => (h.index.mem_postings_slot hs t f).symm
  lengths s entry f hentry := by
    obtain ⟨d, hs, rfl⟩ := h.index.entry?_eq_some.mp hentry
    rw [← h.index.field_eq hs f, Index.entryOf, PerField.get_of]
  totals f := by
    rw [h.index.totals, h.index.entries_eq, List.map_map]
    congr 1
    refine List.map_congr_left fun d _ => ?_
    rw [Function.comp_apply, Index.entryOf, PerField.get_of]
  lengths_le s entry f hentry := by
    obtain ⟨d, hs, rfl⟩ := h.index.entry?_eq_some.mp hentry
    rw [h.index.totals, Index.entryOf, PerField.get_of]
    exact List.le_sum_of_mem (List.mem_map.mpr ⟨d, Index.Records.mem_live_of_slot hs, rfl⟩)
  docFreq t := by
    rw [h.index.docFreq_eq, h.index.entries_eq, List.filter_map, List.length_map]
    congr 1
    refine List.filter_congr fun d _ => ?_
    simp only [Function.comp_apply, Analysed.mem_terms_entryOf]
  docFreq_le t := by
    rw [h.index.docFreq_eq, h.index.live]
    exact List.length_filter_le _ _
  documents := h.index.live.trans h.size_eq.symm

/-- At the end of every run the parts of the engine fit together. -/
theorem Holds.coherent {M : Contents} (h : Holds c segmenter e M) : e.Coherent M := by
  obtain ⟨-, ds, hds, rfl⟩ := h.records
  exact hds.coherent_ofList

/-- Two documents come, and one of them goes. -/
theorem coherent_after_delete :
    let docs := [Document.ofPath "a.md" (some "apple pie") none,
      Document.ofPath "b.md" (some "apple") none]
    let e := Engine.new {} none
    ((e.add docs).1.delete ["b.md"]).1.Coherent
      ((Contents.empty.add (docs.map e.analyse)).erase ["b.md"]) :=
  Holds.coherent (.delete (.add (.new {} none) _) ["b.md"])

end Engine

end VaultSearch
