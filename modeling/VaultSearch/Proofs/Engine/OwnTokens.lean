import VaultSearch.Proofs.Engine.OwnWords
import VaultSearch.Proofs.Tokenizer.Recutting

/-!
# A document is found by its own tokens

A search is cut into tokens as the documents are. Where no dictionary cuts
words, a token of a field has no tokens that the field does not have, and it is
one of its own tokens, so that a search for it under `and` has the document
among its hits (`single_tokens_agree`).
-/

namespace VaultSearch.Engine

open Tokenizer (camelParts)

variable {c : Config} {segmenter : Option Segmenter} {e : Engine} {docs : List Document}
  {o : SearchOptions} {d : Document} {f : Field} {text : String}

/-- Under `and` a document is found if each term of the search reaches a term of one of its
fields, as long as all hits are listed. -/
theorem Stocks.found_of_reached (S : Type) [Score S] (h : Stocks segmenter c e docs)
    (hmax : e.index.live ≤ c.search.maxResults) (hand : o.combineWith = .and) (hd : d ∈ docs)
    (htext : d.text? f = some text) {query : String} (hquery : e.tokenizer.tokenize query ≠ [])
    (hreached : ∀ q ∈ e.terms query, ∃ t ∈ e.terms text, ∃ way, ReachesBy o c.search q t way) :
    ∃ hits : List (Hit S), e.search query o = .ok hits ∧ d.path ∈ hits.map Hit.path := by
  obtain ⟨hready, ds, hds, hlive⟩ := h.mem_live
  have hconfig := hds.config
  obtain ⟨hits, hsearch, hmem⟩ := hds.mem_search (S := S) hready (hconfig.symm ▸ hmax) query o
  have hfield : (e.analyse d).fields.get f = e.terms text := by
    rw [analyse, PerField.get_of, htext]
    rfl
  have hmeets : ∀ q ∈ e.terms query, (e.analyse d).Meets S e.index o e.config.search q := by
    intro q hq
    obtain ⟨t, ht, way, hway⟩ := hreached q hq
    have hhas : (e.analyse d).Has t := ⟨f, hfield ▸ ht⟩
    have hkey := (hds.index.mem_keys t).mpr ⟨_, hlive d hd, hhas⟩
    exact ⟨t, exists_mem_expand_iff.mpr ⟨way, mem_ways.mpr ⟨hkey, hconfig.symm ▸ hway⟩⟩, hhas⟩
  have hne : e.terms query ≠ [] := by
    obtain ⟨token, htoken⟩ := List.exists_mem_of_ne_nil _ hquery
    exact List.ne_nil_of_mem (mem_terms.mpr ⟨token, htoken, rfl⟩)
  have hhit : (hitOf (S := S) e.index o e.config.search (e.terms query) (e.analyse d)).isSome := by
    rw [isSome_hitOf_iff hne, hand]
    exact hmeets
  obtain ⟨hit, hhit⟩ := Option.isSome_iff_exists.mp hhit
  obtain ⟨slot, hslot⟩ := Index.Records.exists_slot_of_mem_live (hlive d hd)
  refine ⟨hits, hsearch, List.mem_map.mpr ⟨hit, ?_, path_of_hitOf hhit⟩⟩
  exact (hmem hit).mpr (hds.mem_allHits.mpr ⟨slot, _, hslot, hhit⟩)

/-- Without a dictionary a token is one of its own tokens, and these are tokens of each text that
has it. A word in camel case falls into parts that are not cut further, none of them empty unless
the word is. So a document is found under `and` by each token of its fields, in any spelling that
they have, whatever the other options, as long as all hits are listed. -/
theorem single_tokens_agree (S : Type) [Score S] {k : Tokenizer} (hk : k.Unsegmented) :
    (∀ text, ∀ t ∈ k.tokenize text,
      t ∈ k.tokenize t ∧ ∀ u ∈ k.tokenize t, u ∈ k.tokenize text) ∧
    (∀ w : List Char, (camelParts w).flatten = w ∧
      ∀ part ∈ camelParts w, (w ≠ [] → part ≠ []) ∧ camelParts part = [part]) ∧
    ∀ {c : Config} {segmenter : Option Segmenter} {e : Engine} {docs : List Document},
      Stocks segmenter c e docs → e.tokenizer = k → e.index.live ≤ c.search.maxResults →
      ∀ o : SearchOptions, o.combineWith = .and → ∀ d ∈ docs, ∀ (f : Field) (text : String),
        d.text? f = some text → ∀ t ∈ k.tokenize text,
          ∃ hits : List (Hit S), e.search t o = .ok hits ∧ d.path ∈ hits.map Hit.path := by
  refine ⟨fun text t ht => (hk.tokens_of_token ht).2, fun w => ⟨Tokenizer.flatten_camelParts w,
    fun part hpart => ⟨fun hw => Tokenizer.ne_nil_of_mem_camelParts hw part hpart,
      Tokenizer.camelParts_part w part hpart⟩⟩, ?_⟩
  rintro c segmenter e docs h rfl hmax o hand d hd f text htext t ht
  obtain ⟨-, hself, hsubset⟩ := hk.tokens_of_token ht
  refine h.found_of_reached S hmax hand hd htext (List.ne_nil_of_mem hself) fun q hq => ?_
  obtain ⟨token, htoken, rfl⟩ := mem_terms.mp hq
  exact ⟨_, mem_terms.mpr ⟨token, hsubset token htoken, rfl⟩, .exact, .exact rfl⟩

/-- A word in camel case and one in CJK letters, with a segmenter that was never made ready. -/
theorem single_tokens_agree_in_camel_case :
    let doc := Document.ofPath "a.md" (some "(HTMLParser) 検索-エンジン") none
    let e := ((Engine.new {} (some .cold)).add [doc]).1
    let o : SearchOptions := ⟨true, false, .and⟩
    e.tokenizer.Unsegmented ∧ "Parser" ∈ e.tokenizer.tokenize "(HTMLParser) 検索-エンジン" ∧
      e.index.live ≤ ({} : Config).search.maxResults ∧ o.combineWith = .and ∧ doc ∈ [doc] ∧
      doc.text? .content = some "(HTMLParser) 検索-エンジン" ∧
      camelParts "Parser".toList = ["Parser".toList] ∧
      "Parser" ∈ e.tokenizer.tokenize "Parser" ∧
      ∃ hits : List (Hit Float), e.search "Parser" o = .ok hits ∧ "a.md" ∈ hits.map Hit.path := by
  intro doc e o
  have hrun : Stocks (some .cold) {} e [doc] := by
    have hdocs : [doc] = [] ++ freshDocuments (fun p => decide (p ∈ [])) [doc] := by
      simp [freshDocuments]
    exact hdocs ▸ Stocks.add (.new {}) [doc]
  have hk : e.tokenizer.Unsegmented := by
    obtain ⟨-, ds, hds, -⟩ := hrun.records
    rw [hds.tokenizer]
    refine Or.inr fun s hs hmm text => ?_
    obtain rfl := Option.some.inj hs
    exact ⟨.segmenterUnavailable, rfl⟩
  have hlive : e.index.live ≤ ({} : Config).search.maxResults := by decide +kernel
  have htoken : "Parser" ∈ e.tokenizer.tokenize "(HTMLParser) 検索-エンジン" := by decide +kernel
  have hpart : "Parser".toList ∈ camelParts "HTMLParser".toList := by decide +kernel
  obtain ⟨hself, hparts, hfound⟩ := single_tokens_agree Float hk
  exact ⟨hk, htoken, hlive, rfl, List.mem_singleton_self doc, rfl, ((hparts _).2 _ hpart).2,
    (hself _ _ htoken).1, hfound hrun rfl hlive o rfl doc (List.mem_singleton_self doc) .content
      _ rfl _ htoken⟩

end VaultSearch.Engine
