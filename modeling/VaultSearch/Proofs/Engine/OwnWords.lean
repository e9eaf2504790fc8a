import VaultSearch.Proofs.Engine.SingleDocument
import VaultSearch.Proofs.Engine.Transfer
import VaultSearch.Proofs.Tokenizer.Segments

/-!
# A document is found by its own words

A text taken out of a field of a document, between separators, has no term
that the field does not have, and each term reaches itself. So a search for
such a text under `and`, with whatever prefix and fuzzy matching besides, has
the document among its hits (`Stocks.found_by_own_words`).
-/

namespace VaultSearch

variable {S : Type} [Score S] {ix : Index} {o : SearchOptions} {s : SearchSettings}

/-- An indexed term reaches itself, whatever the options. -/
theorem reaches_self {q : String} (hq : q ∈ ix.postings.keys) : Reaches S ix o s q q :=
  exists_mem_expand_iff.mpr ⟨.exact, mem_ways.mpr ⟨hq, .exact rfl⟩⟩

/-- A live document meets each term that it has. -/
theorem Index.Records.meets_of_has {ds : List (Option Analysed)} (h : ix.Records ds)
    {d : Analysed} (hd : d ∈ ds.reduceOption) {q : String} (hq : d.Has q) :
    d.Meets S ix o s q :=
  ⟨q, reaches_self ((h.mem_keys q).mpr ⟨d, hd, hq⟩), hq⟩

namespace Engine

variable {c : Config} {segmenter : Option Segmenter} {e : Engine} {docs : List Document}

/-- What becomes of a token before it is indexed or looked up. -/
theorem mem_terms {text term : String} : term ∈ e.terms text ↔
    ∃ token ∈ e.tokenizer.tokenize text,
      (if e.config.search.caseSensitive then token else Text.lowercase token) = term := by
  unfold terms
  split
  · simp
  · rw [Text.mem_distinctSorted, List.mem_map]

theorem mem_terms_of_isSlice {slice text : String}
    (h : Tokenizer.IsSlice slice.toList text.toList) {term : String}
    (hterm : term ∈ e.terms slice) : term ∈ e.terms text := by
  obtain ⟨token, htoken, rfl⟩ := mem_terms.mp hterm
  exact mem_terms.mpr ⟨token, Tokenizer.mem_tokenize_of_isSlice h htoken, rfl⟩

theorem Stocks.isReady (h : Stocks segmenter c e docs) : e.isReady := by
  induction h with
  | new c => rfl
  | add h more ih => exact isReady_add ih more
  | delete h paths ih =>
      rw [Engine.isReady] at ih ⊢
      exact (phase_delete _ paths).symm ▸ ih
  | reindex h more ih =>
      rw [Engine.isReady, phase_reindex]
      rfl
  | load h h' ih ih' =>
      rw [Engine.isReady, phase_load]
      rfl
  | refuse h hblob ih =>
      rw [Engine.isReady, phase_load]
      rfl

/-- Each document of a run is live, with the terms of its fields. -/
theorem Stocks.mem_live (h : Stocks segmenter c e docs) :
    e.isReady ∧ ∃ ds, Records c segmenter e ds ∧ ∀ d ∈ docs, e.analyse d ∈ ds.reduceOption := by
  obtain ⟨hnd, ds, hds, hM⟩ := h.records
  refine ⟨h.isReady, ds, hds, fun d hd => ?_⟩
  have hanalyse : e.analyse = (Engine.new c segmenter).analyse :=
    hds.madeWith.analyse_eq ⟨rfl, rfl⟩ ⟨rfl, rfl, rfl⟩
  have hpaths : ((docs.map e.analyse).map Analysed.path).Nodup := by
    rw [List.map_map]
    exact hnd
  have hmap : Contents.ofList ds.reduceOption d.path = some (e.analyse d).fields := by
    rw [hM, contentsOf, ← hanalyse, Contents.ofList_eq_some hpaths]
    exact List.mem_map_of_mem hd
  exact (Contents.ofList_eq_some hds.distinctPaths.nodup).mp hmap

/-- Every document is found by every slice of a field of it that has a token, under `and`,
whatever the other options, as long as all hits are listed. -/
theorem Stocks.found_by_own_words (S : Type) [Score S] (h : Stocks segmenter c e docs)
    (hmax : e.index.live ≤ c.search.maxResults) {o : SearchOptions} (hand : o.combineWith = .and)
    {d : Document} (hd : d ∈ docs) {f : Field} {text : String} (htext : d.text? f = some text)
    {slice : String} (hslice : Tokenizer.IsSlice slice.toList text.toList)
    (htoken : e.tokenizer.tokenize slice ≠ []) :
    ∃ hits : List (Hit S), e.search slice o = .ok hits ∧ d.path ∈ hits.map Hit.path := by
  obtain ⟨hready, ds, hds, hlive⟩ := h.mem_live
  have hmax' : e.index.live ≤ e.config.search.maxResults := hds.config.symm ▸ hmax
  obtain ⟨hits, hsearch, hmem⟩ := hds.mem_search (S := S) hready hmax' slice o
  -- all terms of the slice are terms of the field, and the document meets them
  have hfield : (e.analyse d).fields.get f = e.terms text := by
    rw [analyse, PerField.get_of, htext]
    rfl
  have hmeets : ∀ q ∈ e.terms slice, (e.analyse d).Meets S e.index o e.config.search q := by
    intro q hq
    refine hds.index.meets_of_has (hlive d hd) ⟨f, ?_⟩
    rw [hfield]
    exact mem_terms_of_isSlice hslice hq
  have hne : e.terms slice ≠ [] := by
    obtain ⟨token, htoken⟩ := List.exists_mem_of_ne_nil _ htoken
    exact List.ne_nil_of_mem (mem_terms.mpr ⟨token, htoken, rfl⟩)
  have hhit : (hitOf (S := S) e.index o e.config.search (e.terms slice) (e.analyse d)).isSome := by
    rw [isSome_hitOf_iff hne, hand]
    exact hmeets
  obtain ⟨hit, hhit⟩ := Option.isSome_iff_exists.mp hhit
  obtain ⟨slot, hslot⟩ := Index.Records.exists_slot_of_mem_live (hlive d hd)
  refine ⟨hits, hsearch, List.mem_map.mpr ⟨hit, ?_, path_of_hitOf hhit⟩⟩
  exact (hmem hit).mpr (hds.mem_allHits.mpr ⟨slot, _, hslot, hhit⟩)

/-- A word in brackets finds its document. -/
theorem found_by_word_in_brackets :
    let pie := Document.ofPath "pie.md" (some "apple (Pie) crust") none
    let docs := [Document.ofPath "b.md" (some "apple") none, pie]
    let e := ((Engine.new {} none).add docs).1
    let o : SearchOptions := ⟨false, false, .and⟩
    e.index.live ≤ ({} : Config).search.maxResults ∧ o.combineWith = .and ∧ pie ∈ docs ∧
      pie.text? .content = some "apple (Pie) crust" ∧
      Tokenizer.IsSlice "Pie".toList "apple (Pie) crust".toList ∧
      e.tokenizer.tokenize "Pie" ≠ [] ∧
      ∃ hits : List (Hit Float), e.search "Pie" o = .ok hits ∧ "pie.md" ∈ hits.map Hit.path := by
  intro pie docs e o
  have hrun : Stocks none {} e docs := by
    have hdocs : docs = [] ++ freshDocuments (fun p => decide (p ∈ [])) docs := by
      simp [docs, pie, freshDocuments, Document.ofPath]
    exact hdocs ▸ Stocks.add (.new {}) docs
  have hlive : e.index.live ≤ ({} : Config).search.maxResults := by decide +kernel
  have hd : pie ∈ docs := List.mem_cons_of_mem _ (List.mem_singleton_self _)
  have htext : pie.text? .content = some "apple (Pie) crust" := rfl
  have hslice : Tokenizer.IsSlice "Pie".toList "apple (Pie) crust".toList :=
    ⟨"apple (".toList, ") crust".toList, by decide +kernel,
      Or.inr (Or.inr (Or.inl ⟨'(', by decide +kernel, by decide +kernel⟩)),
      Or.inr (Or.inr (Or.inr ⟨')', by decide +kernel, by decide +kernel⟩))⟩
  have htoken : e.tokenizer.tokenize "Pie" ≠ [] := by decide +kernel
  exact ⟨hlive, rfl, hd, htext, hslice, htoken,
    hrun.found_by_own_words Float hlive rfl hd htext hslice htoken⟩

end Engine

end VaultSearch
