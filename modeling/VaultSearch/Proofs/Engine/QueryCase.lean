import VaultSearch.Proofs.Engine.OwnWords
import VaultSearch.Proofs.Tokenizer.Humps

/-!
# The letter case of a search

Where letter case does not count, it still decides at which places a search
text in camel case is cut, and each part is a term that a document has to
meet. Texts with the same letters and the same humps get the same answer
(`Holds.search_of_same_letters`). A text with other humps may get another one
(`camel_case_narrows_a_search`).
-/

namespace VaultSearch.Engine

variable {c : Config} {segmenter : Option Segmenter} {e : Engine}

/-- The terms of a text are its tokens with the case folded away. -/
theorem mem_terms_folded (hcase : e.config.search.caseSensitive = false) {text term : String} :
    term ∈ e.terms text ↔ ∃ token ∈
      (Tokenizer.segments text.toList).flatMap e.tokenizer.segmentTokens,
        Text.lowercase (String.ofList token) = term := by
  rw [mem_terms]
  simp only [hcase, Bool.false_eq_true, if_false, Tokenizer.mem_tokenize, List.mem_flatMap]
  constructor
  · rintro ⟨_, ⟨segment, hsegment, token, htoken, rfl⟩, rfl⟩
    exact ⟨token, ⟨segment, hsegment, htoken⟩, rfl⟩
  · rintro ⟨token, ⟨segment, hsegment, htoken⟩, rfl⟩
    exact ⟨_, ⟨segment, hsegment, token, htoken, rfl⟩, rfl⟩

theorem terms_subset_of_same_letters (hcase : e.config.search.caseSensitive = false)
    {a b : String} (ha : Text.IsAscii a.toList) (hb : Text.IsAscii b.toList)
    (hletters : Text.asciiLower a.toList = Text.asciiLower b.toList)
    (hhumps : Tokenizer.humps a.toList = Tokenizer.humps b.toList) {term : String}
    (hterm : term ∈ e.terms a) : term ∈ e.terms b := by
  obtain ⟨token, htoken, rfl⟩ := (mem_terms_folded hcase).mp hterm
  have hlower := List.mem_map_of_mem (f := Text.asciiLower) htoken
  rw [Tokenizer.tokens_alike ha hb hletters hhumps] at hlower
  obtain ⟨token', htoken', hsame⟩ := List.mem_map.mp hlower
  exact (mem_terms_folded hcase).mpr ⟨token', htoken', Text.lowercase_eq_of_asciiLower hsame⟩

/-- Where case does not count, texts that differ in the case of letters only and have the same
humps of camel case get the same answer, whatever the options. -/
theorem Holds.search_of_same_letters (S : Type) [Score S] {M : Contents}
    (h : Holds c segmenter e M) (hcase : c.search.caseSensitive = false) {a b : String}
    (ha : Text.IsAscii a.toList) (hb : Text.IsAscii b.toList)
    (hletters : Text.asciiLower a.toList = Text.asciiLower b.toList)
    (hhumps : Tokenizer.humps a.toList = Tokenizer.humps b.toList) (o : SearchOptions) :
    ∃ hits : List (Hit S), e.search a o = .ok hits ∧ e.search b o = .ok hits := by
  obtain ⟨hready, ds, hds, -⟩ := h.records
  rw [← hds.config] at hcase
  have hterms : e.terms a = e.terms b := by
    refine List.Pairwise.eq_of_mem_iff (r := (· < ·)) (e.pairwise_terms a) (e.pairwise_terms b) ?_
    intro term
    exact ⟨terms_subset_of_same_letters hcase ha hb hletters hhumps,
      terms_subset_of_same_letters hcase hb ha hletters.symm hhumps.symm⟩
  refine ⟨_, search_eq hready a o, ?_⟩
  rw [search_eq hready b o, allHits, allHits, hterms]

/-- Both texts are cut into three words, at the same places. -/
theorem search_of_same_letters_in_camel_case :
    let e := ((Engine.new {} none).add [Document.ofPath "a.md" (some "An HTTP request") none]).1
    let o : SearchOptions := ⟨true, true, .or⟩
    ({} : Config).search.caseSensitive = false ∧
      Text.IsAscii "parseHTTPRequest".toList ∧ Text.IsAscii "PARSEHttpREQUEST".toList ∧
      Text.asciiLower "parseHTTPRequest".toList = Text.asciiLower "PARSEHttpREQUEST".toList ∧
      Tokenizer.humps "parseHTTPRequest".toList = Tokenizer.humps "PARSEHttpREQUEST".toList ∧
      ∃ hits : List (Hit Float),
        e.search "parseHTTPRequest" o = .ok hits ∧ e.search "PARSEHttpREQUEST" o = .ok hits := by
  intro e o
  have hrun := (Holds.new {} none).add [Document.ofPath "a.md" (some "An HTTP request") none]
  have ha : Text.IsAscii "parseHTTPRequest".toList := by decide
  have hb : Text.IsAscii "PARSEHttpREQUEST".toList := by decide
  have hletters : Text.asciiLower "parseHTTPRequest".toList =
      Text.asciiLower "PARSEHttpREQUEST".toList := by decide +kernel
  have hhumps : Tokenizer.humps "parseHTTPRequest".toList =
      Tokenizer.humps "PARSEHttpREQUEST".toList := by decide +kernel
  exact ⟨rfl, ha, hb, hletters, hhumps,
    hrun.search_of_same_letters Float rfl ha hb hletters hhumps o⟩

/-- The document has no word `bar`, so `fooBar` does not find what `foobar` finds. -/
theorem camel_case_narrows_a_search :
    let e := ((Engine.new {} none).add [Document.ofPath "a.md" (some "foobar") none]).1
    let o : SearchOptions := ⟨true, false, .and⟩
    ({} : Config).search.caseSensitive = false ∧
      Text.IsAscii "foobar".toList ∧ Text.IsAscii "fooBar".toList ∧
      Text.asciiLower "foobar".toList = Text.asciiLower "fooBar".toList ∧
      (∃ hits : List (Hit Float), e.search "foobar" o = .ok hits ∧ "a.md" ∈ hits.map Hit.path) ∧
      e.search (S := Float) "fooBar" o = .ok [] := by
  intro e o
  obtain ⟨hready, ds, hds, -⟩ :=
    ((Holds.new {} none).add [Document.ofPath "a.md" (some "foobar") none]).records
  have hmax : e.index.live ≤ e.config.search.maxResults := by decide +kernel
  refine ⟨rfl, by decide, by decide, by decide +kernel, ?_, ?_⟩
  · obtain ⟨hits, hsearch, hmem⟩ := hds.mem_search (S := Float) hready hmax "foobar" o
    have hterms : e.terms "foobar" = ["foobar"] := by decide +kernel
    obtain ⟨d, hd, hpath⟩ := (hds.slots "a.md" 0).mp (by decide +kernel)
    have hhas : d.Has "foobar" :=
      ⟨.content, (hds.index.mem_postings_slot hd "foobar" .content).mp (by decide +kernel)⟩
    have hmeets : o.combineWith.Holds ["foobar"] (d.Meets Float e.index o e.config.search) := by
      intro q hq
      rw [List.mem_singleton.mp hq]
      exact hds.index.meets_of_has (Index.Records.mem_live_of_slot hd) hhas
    have hsome := (isSome_hitOf_iff (List.cons_ne_nil "foobar" [])).mpr hmeets
    obtain ⟨hit, hhit⟩ := Option.isSome_iff_exists.mp hsome
    refine ⟨hits, hsearch, List.mem_map.mpr ⟨hit, ?_, (path_of_hitOf hhit).trans hpath⟩⟩
    exact (hmem hit).mpr (hds.mem_allHits.mpr ⟨0, d, hd, by rw [hterms]; exact hhit⟩)
  · obtain ⟨hits, hsearch, hmem⟩ := hds.mem_search (S := Float) hready hmax "fooBar" o
    have hterms : e.terms "fooBar" = ["bar", "foo", "foobar"] := by decide +kernel
    have hnone : hits = [] := by
      refine List.eq_nil_iff_forall_not_mem.mpr fun hit hhit => ?_
      obtain ⟨slot, d, -, hsome⟩ := hds.mem_allHits.mp ((hmem hit).mp hhit)
      rw [hterms] at hsome
      -- a document would have to meet `bar`, which reaches no indexed term
      have hholds := (isSome_hitOf_iff (List.cons_ne_nil "bar" _)).mp (by rw [hsome]; rfl)
      obtain ⟨t, ht, -⟩ := hholds "bar" List.mem_cons_self
      obtain ⟨way, hway⟩ := exists_mem_expand_iff.mp ht
      have hways : ways e.index o e.config.search "bar" = [] := by decide +kernel
      rw [hways] at hway
      cases hway
    rw [hsearch, hnone]

end VaultSearch.Engine
