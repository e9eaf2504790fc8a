import VaultSearch.Proofs.Engine.Coherence
import VaultSearch.Proofs.Search.Meaning
import VaultSearch.Proofs.Search.Scores

/-!
# An engine is a map

Each operation does to an engine what it does to the map that the engine
stands for (`Holds.acts_as_map`), and no answer tells engines apart that
stand for the same map, however they came about. What a search answers is
read off the map as well (`Holds.search_meaning`): the hits are the
documents that meet the query terms, each with what it was met by.

The order of the hits is only as good as the order of their scores, so the
ranked lists are equal where the scores are ordered (`SameAnswers.search`). They
are as long as the ranking asserts nothing false of the scores that it counts,
and what it asserts is the same for both engines: where assertions are checked,
the two searches give the same list or both stop
(`SameAnswers.assertingSearch`).
-/

namespace VaultSearch

/-- The two configurations differ at most in the size of the blocks in which
documents are taken in. -/
def Config.AgreeButForChunks (c₁ c₂ : Config) : Prop :=
  c₁ = { c₂ with index := { c₂.index with chunkSize := c₁.index.chunkSize } }

namespace Engine

/-! ## Reading the map back -/

/-- The map that an engine stands for, read off its slots and postings. -/
def contents (e : Engine) : Contents :=
  fun p => e.slots[p]?.map fun s =>
    PerField.of fun f => e.index.postings.keys.filter fun t => ⟨s, f⟩ ∈ e.index.postingsOf t

theorem Records.contents_eq {c : Config} {segmenter : Option Segmenter} {e : Engine}
    {ds : List (Option Analysed)} (h : Records c segmenter e ds) :
    e.contents = Contents.ofList ds.reduceOption := by
  funext p
  rw [contents]
  cases hslot : e.slots[p]? with
  | none =>
      rw [Option.map_none, eq_comm, ← Option.not_isSome_iff_eq_none, ← h.isSome_slot, hslot]
      simp
  | some s =>
      obtain ⟨d, hs, rfl⟩ := (h.slots p s).mp hslot
      have hfields : (PerField.of fun f => e.index.postings.keys.filter fun t =>
          ⟨s, f⟩ ∈ e.index.postingsOf t) = d.fields := by
        simp only [← h.index.field_eq hs]
        rfl
      rw [Option.map_some, hfields, eq_comm, h.ofList_eq_some]
      exact ⟨s, hs⟩

theorem Holds.contents_eq {c : Config} {segmenter : Option Segmenter} {e : Engine} {M : Contents}
    (h : Holds c segmenter e M) : e.contents = M := by
  obtain ⟨-, ds, hds, rfl⟩ := h.records
  exact hds.contents_eq

/-- The engine stands for `M`, and each operation has the effect and the result that
it has on the map. -/
structure ActsAs (e : Engine) (M : Contents) : Prop where
  contents : e.contents = M
  add : ∀ docs, (e.add docs).1.contents = M.add (docs.map e.analyse) ∧
    (e.add docs).2 = M.absent (docs.map (·.path))
  delete : ∀ paths, (e.delete paths).1.contents = M.erase paths ∧
    (e.delete paths).2 = M.present paths
  reindex : ∀ docs, (e.reindex docs).1.contents = Contents.ofList (docs.map e.analyse)
  load : ∀ {c' segmenter' e' M'}, Holds c' segmenter' e' M' →
    (e.load e'.serialize).1.contents = (if e.Accepts e' then M' else Contents.empty) ∧
      (e.Accepts e' → (e.load e'.serialize).2 = .ok e'.size)

theorem Holds.actsAs {c : Config} {segmenter : Option Segmenter} {e : Engine} {M : Contents}
    (h : Holds c segmenter e M) : e.ActsAs M where
  contents := h.contents_eq
  add docs := by
    obtain ⟨-, ds, hds, rfl⟩ := h.records
    exact ⟨(h.add docs).contents_eq, hds.paths_add docs⟩
  delete paths := by
    obtain ⟨-, ds, hds, rfl⟩ := h.records
    obtain ⟨-, -, -, hout, -⟩ := hds.delete paths
    exact ⟨(h.delete paths).contents_eq, hout⟩
  reindex docs := (h.reindex docs).contents_eq
  load := by
    intro c' segmenter' e' M' h'
    refine ⟨(h.load h').contents_eq, fun hacc => ?_⟩
    obtain ⟨-, ds', hds', rfl⟩ := h'.records
    have hread := e.readSnapshot_serialize hds'.index
    rw [if_pos hacc] at hread
    rw [Engine.load, hread, hds'.size_eq, ← hds'.index.live]

/-! ## Answers -/

section Answers

variable (S : Type) [Score S]

/-- All hits of a text, not yet ranked. -/
def allHits (e : Engine) (text : String) (o : SearchOptions) : List (Hit S) :=
  hits e.index o e.config.search none (e.terms text)

variable [SoundScore S]

/-- What a search asserts of the scores that it counts is so. -/
def asserts (e : Engine) (text : String) (o : SearchOptions) : Bool :=
  e.index.asserts S o e.config.search (e.terms text)

/-- The search with its assertion checked: none, if it stops there. -/
def assertingSearch (e : Engine) (text : String) (o : SearchOptions) :
    Option (Except Fault (List (Hit S))) :=
  if e.isReady && !e.asserts S text o then none else some (e.search text o)

/-- No question tells the two engines apart. A search lists the same hits in the same
order as long as their scores have an order. -/
structure SameAnswers (e₁ e₂ : Engine) : Prop where
  contains : ∀ p, e₁.contains p = e₂.contains p
  size : e₁.size = e₂.size
  pathsUnder : ∀ dir, e₁.pathsUnder dir = e₂.pathsUnder dir
  documents : e₁.stats.documents = e₂.stats.documents
  terms : e₁.stats.terms = e₂.stats.terms
  matchDocument : ∀ path text o,
    e₁.matchDocument (S := S) path text o = e₂.matchDocument path text o
  hits : ∀ text o, (e₁.allHits S text o).Perm (e₂.allHits S text o)
  search : ∀ text o, Score.Ordered ((e₁.allHits S text o).map Hit.score) →
    e₁.search (S := S) text o = e₂.search text o
  assertingSearch : ∀ text o, e₁.assertingSearch S text o = e₂.assertingSearch S text o

variable {c₁ c₂ : Config} {segmenter : Option Segmenter} {e₁ e₂ : Engine}
  {ds₁ ds₂ : List (Option Analysed)}

variable {S} in
omit [SoundScore S] in
theorem search_eq {e : Engine} (h : e.isReady) (text : String) (o : SearchOptions) :
    e.search (S := S) text o =
      .ok (((e.allHits S text o).mergeSort Hit.rankedBefore).take e.config.search.maxResults) := by
  rw [search, h]
  rfl

/-- Engines that stand for the same map have the same live documents. -/
theorem Records.perm_of_contents (h₁ : Records c₁ segmenter e₁ ds₁)
    (h₂ : Records c₂ segmenter e₂ ds₂)
    (hM : Contents.ofList ds₁.reduceOption = Contents.ofList ds₂.reduceOption) :
    ds₁.reduceOption.Perm ds₂.reduceOption := by
  refine (List.perm_ext_iff_of_nodup (List.Nodup.of_map _ h₁.distinctPaths.nodup)
    (List.Nodup.of_map _ h₂.distinctPaths.nodup)).mpr fun d => ?_
  rw [← Contents.ofList_eq_some (p := d.path) (F := d.fields) h₁.distinctPaths.nodup, hM,
    Contents.ofList_eq_some h₂.distinctPaths.nodup]

theorem Records.keys_eq (h₁ : Records c₁ segmenter e₁ ds₁) (h₂ : Records c₂ segmenter e₂ ds₂)
    (hp : ds₁.reduceOption.Perm ds₂.reduceOption) : e₁.slots.keys = e₂.slots.keys := by
  refine List.Pairwise.eq_of_mem_iff (r := (· < ·)) (Text.pairwise_keys _)
    (Text.pairwise_keys _) fun p => ?_
  rw [h₁.keys_perm.mem_iff, h₂.keys_perm.mem_iff, (hp.map _).mem_iff]

variable {S} in
omit [SoundScore S] in
/-- The search within the slot of a path does not depend on which slot it is. -/
theorem Records.matchSlot_eq (h₁ : Records c₁ segmenter e₁ ds₁)
    (h₂ : Records c₂ segmenter e₂ ds₂)
    (hM : Contents.ofList ds₁.reduceOption = Contents.ofList ds₂.reduceOption) (path : String)
    (o : SearchOptions) (s : SearchSettings) (terms : List String) :
    (e₁.slots[path]?.bind fun slot => (searchTerms (S := S) e₁.index o s (some slot) terms).head?) =
      e₂.slots[path]?.bind fun slot => (searchTerms e₂.index o s (some slot) terms).head? := by
  have hp := h₁.perm_of_contents h₂ hM
  cases hslot₁ : e₁.slots[path]? with
  | none =>
      have hslot₂ : e₂.slots[path]? = none := by
        rw [← Option.not_isSome_iff_eq_none, h₂.isSome_slot, ← hM, ← h₁.isSome_slot, hslot₁]
        simp
      rw [hslot₂, Option.bind_none, Option.bind_none]
  | some s₁ =>
      obtain ⟨d, hs₁, rfl⟩ := (h₁.slots path s₁).mp hslot₁
      obtain ⟨s₂, hs₂⟩ := Index.Records.exists_slot_of_mem_live
        (hp.mem_iff.mp (Index.Records.mem_live_of_slot hs₁))
      have hslot₂ : e₂.slots[d.path]? = some s₂ := (h₂.slots d.path s₂).mpr ⟨d, hs₂, rfl⟩
      rw [hslot₂, Option.bind_some, Option.bind_some,
        searchTerms_slot_eq h₁.index h₂.index h₁.distinctPaths h₂.distinctPaths hp o _ _ hs₁ hs₂]

variable {S} in
omit [SoundScore S] in
theorem Records.search_eq_of_perm (h₁ : Records c₁ segmenter e₁ ds₁)
    (h₂ : Records c₂ segmenter e₂ ds₂) (hready₁ : e₁.isReady) (hready₂ : e₂.isReady)
    (hterms : e₁.terms = e₂.terms) (hsettings : e₁.config.search = e₂.config.search)
    (hp : ds₁.reduceOption.Perm ds₂.reduceOption) {text : String} {o : SearchOptions}
    (hord : Score.Ordered ((e₁.allHits S text o).map Hit.score)) :
    e₁.search (S := S) text o = e₂.search text o := by
  rw [search, search, hready₁, hready₂, ← hterms, ← hsettings,
    searchTerms_eq_of_perm h₁.index h₂.index h₁.distinctPaths h₂.distinctPaths hp o _ _ hord]

/-- Engines that stand for the same map give the same answers. -/
theorem Records.sameAnswers (h₁ : Records c₁ segmenter e₁ ds₁) (h₂ : Records c₂ segmenter e₂ ds₂)
    (hready₁ : e₁.isReady) (hready₂ : e₂.isReady) (hc : c₁.AgreeButForChunks c₂)
    (hM : Contents.ofList ds₁.reduceOption = Contents.ofList ds₂.reduceOption) :
    SameAnswers S e₁ e₂ := by
  have hp := h₁.perm_of_contents h₂ hM
  have hcounts := h₁.index.sameCounts h₂.index hp
  -- the blocks aside, the configurations are the same, so a text has the same terms
  have hsettings : e₁.config.search = e₂.config.search := by
    rw [h₁.config, h₂.config, hc]
  have htokenizer : e₁.tokenizer = e₂.tokenizer := by
    rw [h₁.tokenizer, h₂.tokenizer, hc]
    rfl
  have hterms : e₁.terms = e₂.terms := by
    funext text
    rw [Engine.terms, Engine.terms, htokenizer, hsettings]
  have hsearch : ∀ text o, Score.Ordered ((e₁.allHits S text o).map Hit.score) →
      e₁.search (S := S) text o = e₂.search text o := fun text o hord =>
    h₁.search_eq_of_perm h₂ hready₁ hready₂ hterms hsettings hp hord
  constructor
  · intro p
    rw [h₁.contains_eq, h₂.contains_eq, hM]
  · rw [h₁.size_eq, h₂.size_eq, hp.length_eq]
  · intro dir
    rw [pathsUnder, pathsUnder, h₁.keys_eq h₂ hp]
  · exact hcounts.live
  · rw [stats, stats]
    simp only [← Std.ExtTreeMap.length_keys, hcounts.keys]
  · intro path text o
    rw [matchDocument, matchDocument, hready₁, hready₂, hterms, hsettings,
      h₁.matchSlot_eq h₂ hM path o e₂.config.search (e₂.terms text)]
  · intro text o
    rw [allHits, allHits, hterms, hsettings]
    exact hits_perm_hits h₁.index h₂.index h₁.distinctPaths h₂.distinctPaths hp o _ _
  · exact hsearch
  · intro text o
    have hasserts : e₁.asserts S text o = e₂.asserts S text o := by
      rw [asserts, asserts, hterms, hsettings]
      exact Index.asserts_eq_of_perm h₁.index h₂.index hp o _ _
    rw [assertingSearch, assertingSearch, hready₁, hready₂, ← hasserts]
    cases hchecked : e₁.asserts S text o with
    | false => simp only [Bool.not_false, Bool.and_self, if_true]
    | true => rw [hsearch text o (h₁.index.ordered_of_asserts hchecked none)]

end Answers

/-- Engines made alike whose runs have led to one map give the same answers. -/
theorem Holds.sameAnswers (S : Type) [Score S] [SoundScore S] {c : Config}
    {segmenter : Option Segmenter} {e₁ e₂ : Engine} {M : Contents} (h₁ : Holds c segmenter e₁ M)
    (h₂ : Holds c segmenter e₂ M) : SameAnswers S e₁ e₂ := by
  obtain ⟨hready₁, ds₁, hds₁, hM₁⟩ := h₁.records
  obtain ⟨hready₂, ds₂, hds₂, hM₂⟩ := h₂.records
  exact hds₁.sameAnswers S hds₂ hready₁ hready₂ rfl (hM₁.trans hM₂.symm)

/-- For every text with a term, a search ranks the documents that meet its terms as
the combine mode asks, each once, and lists the first ones. -/
theorem Holds.search_meaning (S : Type) [Score S] {c : Config} {segmenter : Option Segmenter}
    {e : Engine} {M : Contents} (h : Holds c segmenter e M) (text : String) (o : SearchOptions)
    (hne : e.terms text ≠ []) :
    ∃ ranked : List (Hit S),
      e.search text o = .ok (ranked.take c.search.maxResults) ∧
      (ranked.map Hit.path).Nodup ∧
      (Score.Ordered (ranked.map Hit.score) → ranked.Pairwise Hit.Before) ∧
      (∀ p, p ∈ ranked.map Hit.path ↔ ∃ F, M p = some F ∧
        o.combineWith.Holds (e.terms text) (Analysed.Meets S e.index o c.search ⟨p, F⟩)) ∧
      ∀ hit ∈ ranked, ∃ F, M hit.path = some F ∧
        hit.queryTerms.Pairwise (· < ·) ∧
        (∀ q, q ∈ hit.queryTerms ↔
          q ∈ e.terms text ∧ Analysed.Meets S e.index o c.search ⟨hit.path, F⟩ q) ∧
        hit.matchedTerms.Pairwise (· < ·) ∧
        (∀ t, t ∈ hit.matchedTerms ↔ ∃ q ∈ e.terms text,
          Reaches S e.index o c.search q t ∧ Analysed.Has ⟨hit.path, F⟩ t) := by
  obtain ⟨hready, ds, hds, rfl⟩ := h.records
  have hperm := List.mergeSort_perm (e.allHits S text o) Hit.rankedBefore
  have hnd : ((e.allHits S text o).map Hit.path).Nodup :=
    nodup_paths_hits hds.index hds.distinctPaths o _ none _
  -- a hit is what its document amounts to
  have hmem : ∀ hit, hit ∈ (e.allHits S text o).mergeSort Hit.rankedBefore ↔
      ∃ (s : Nat) (d : Analysed), ds[s]? = some (some d) ∧
        hitOf e.index o c.search (e.terms text) d = some hit := by
    intro hit
    rw [List.mem_mergeSort, allHits, mem_hits hds.index, hds.config]
    simp only [Option.any_none, true_and]
  refine ⟨(e.allHits S text o).mergeSort Hit.rankedBefore, ?_, ?_, ?_, ?_, ?_⟩
  · rw [search_eq hready, hds.config]
  · exact ((hperm.map Hit.path).nodup_iff).mpr hnd
  · intro hord
    exact Hit.pairwise_before_mergeSort
      (hord.mono fun x hx => ((hperm.map Hit.score).mem_iff).mpr hx) hnd
  · intro p
    simp only [List.mem_map, hmem, hds.ofList_eq_some]
    constructor
    · rintro ⟨hit, ⟨s, d, hs, hhit⟩, rfl⟩
      rw [path_of_hitOf hhit]
      refine ⟨d.fields, ⟨s, hs⟩, ?_⟩
      exact (isSome_hitOf_iff hne).mp (by rw [hhit]; rfl)
    · rintro ⟨F, ⟨s, hs⟩, hholds⟩
      obtain ⟨hit, hhit⟩ := Option.isSome_iff_exists.mp ((isSome_hitOf_iff hne).mpr hholds)
      exact ⟨hit, ⟨s, _, hs, hhit⟩, path_of_hitOf hhit⟩
  · intro hit hhit
    obtain ⟨s, d, hs, hhit⟩ := (hmem hit).mp hhit
    rw [path_of_hitOf hhit]
    exact ⟨d.fields, hds.ofList_eq_some.mpr ⟨s, hs⟩,
      hitOf_eq_some hne (e.pairwise_terms text) hhit⟩

/-- A search for one word. -/
theorem search_meaning_apple :
    let e := ((Engine.new {} none).add [Document.ofPath "a.md" (some "apple pie") none]).1
    ∃ ranked : List (Hit Float),
      e.search "apple" ⟨true, false, .and⟩ = .ok (ranked.take 50) ∧
      (ranked.map Hit.path).Nodup := by
  have hrun := (Holds.new {} none).add [Document.ofPath "a.md" (some "apple pie") none]
  obtain ⟨ranked, hsearch, hnd, -⟩ := Holds.search_meaning Float hrun "apple"
    ⟨true, false, .and⟩ (by rw [hrun.terms_eq]; decide +kernel)
  exact ⟨ranked, hsearch, hnd⟩

end Engine

end VaultSearch
