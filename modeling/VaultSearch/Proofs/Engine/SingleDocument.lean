import VaultSearch.Proofs.Engine.Answers

/-!
# A search of one document

The search within one document finds what a search of the whole vault finds
for it, with the same terms and the same score, as long as the answer of the
latter is not cut short (`Holds.matchDocument_iff`). Both come down to
`hitOf`, which reads nothing but the document and the counts of the index.
-/

namespace VaultSearch.Engine

variable {S : Type} [Score S] {c : Config} {segmenter : Option Segmenter} {e : Engine}
  {ds : List (Option Analysed)}

/-- The engine with another bound on the number of hits that a search lists. -/
def withMaxResults (e : Engine) (n : Nat) : Engine :=
  { e with config := { e.config with search := { e.config.search with maxResults := n } } }

theorem Records.length_allHits_le (h : Records c segmenter e ds) (text : String)
    (o : SearchOptions) : (e.allHits S text o).length ≤ e.index.live := by
  have hperm : (e.allHits S text o).Perm _ :=
    hits_perm h.index h.distinctPaths o e.config.search (e.terms text)
  rw [hperm.length_eq, h.index.live]
  exact List.length_filterMap_le _ _

theorem Records.mem_allHits (h : Records c segmenter e ds) {text : String} {o : SearchOptions}
    {hit : Hit S} : hit ∈ e.allHits S text o ↔ ∃ (slot : Nat) (d : Analysed),
      ds[slot]? = some (some d) ∧ hitOf e.index o e.config.search (e.terms text) d = some hit := by
  rw [allHits, mem_hits h.index]
  simp only [Option.any_none, true_and]

/-- A search that may list as many hits as there are documents lists all hits. -/
theorem Records.mem_search (h : Records c segmenter e ds) (hready : e.isReady)
    (hmax : e.index.live ≤ e.config.search.maxResults) (text : String) (o : SearchOptions) :
    ∃ hits : List (Hit S), e.search text o = .ok hits ∧
      ∀ hit, hit ∈ hits ↔ hit ∈ e.allHits S text o := by
  refine ⟨_, search_eq hready text o, fun hit => ?_⟩
  have hlen : ((e.allHits S text o).mergeSort Hit.rankedBefore).length ≤
      e.config.search.maxResults := by
    rw [List.length_mergeSort]
    exact (h.length_allHits_le text o).trans hmax
  rw [List.take_of_length_le hlen, List.mem_mergeSort]

theorem Records.withMaxResults (h : Records c segmenter e ds) (n : Nat) :
    Records (e.withMaxResults n).config segmenter (e.withMaxResults n) ds where
  config := rfl
  tokenizer := by
    have htokenizer := h.tokenizer
    rw [← h.config] at htokenizer
    exact htokenizer
  index := h.index
  slots := h.slots

/-- The search within a path finds the hit of the document with this path. -/
theorem Records.matchDocument_eq_some (h : Records c segmenter e ds) (hready : e.isReady)
    (hmax : 1 ≤ e.config.search.maxResults) (path text : String) (o : SearchOptions) :
    ∃ found : Option (Hit S), e.matchDocument path text o = .ok found ∧
      ∀ hit, found = some hit ↔ hit ∈ e.allHits S text o ∧ hit.path = path := by
  refine ⟨_, by rw [matchDocument, hready]; rfl, fun hit => ?_⟩
  rw [h.mem_allHits, Option.bind_eq_some_iff]
  constructor
  · rintro ⟨slot, hslot, hhead⟩
    obtain ⟨d, hd, rfl⟩ := (h.slots path slot).mp hslot
    have hhit : hitOf e.index o e.config.search (e.terms text) d = some hit := by
      have hmem := List.mem_of_mem_take (List.mem_of_head? hhead)
      rw [List.mem_mergeSort, hits_of_slot h.index h.distinctPaths, hd] at hmem
      simpa using hmem
    exact ⟨⟨slot, d, hd, hhit⟩, path_of_hitOf hhit⟩
  · rintro ⟨⟨slot, d, hd, hhit⟩, rfl⟩
    refine ⟨slot, (h.slots _ slot).mpr ⟨d, hd, (path_of_hitOf hhit).symm⟩, ?_⟩
    have hone : hits e.index o e.config.search (some slot) (e.terms text) = [hit] := by
      rw [hits_of_slot h.index h.distinctPaths, hd]
      simp [hhit]
    rw [searchTerms, hone, List.mergeSort_singleton, List.take_of_length_le hmax]
    rfl

/-- The search within a path finds a hit exactly if a search of all documents, bounded by no
less than their number, has a hit for the path, and then it finds that very hit. What a search
lists under any bound is found unchanged. -/
theorem Holds.matchDocument_iff (S : Type) [Score S] {M : Contents} (h : Holds c segmenter e M)
    (hmax : 1 ≤ c.search.maxResults) (text : String) (o : SearchOptions) :
    (∀ path n, e.index.live ≤ n → ∃ (hits : List (Hit S)) (found : Option (Hit S)),
      (e.withMaxResults n).search text o = .ok hits ∧
      e.matchDocument path text o = .ok found ∧
      ∀ hit, found = some hit ↔ hit ∈ hits ∧ hit.path = path) ∧
    ∃ hits : List (Hit S), e.search text o = .ok hits ∧
      ∀ hit ∈ hits, e.matchDocument hit.path text o = .ok (some hit) := by
  obtain ⟨hready, ds, hds, -⟩ := h.records
  rw [← hds.config] at hmax
  constructor
  · intro path n hn
    obtain ⟨hits, hsearch, hmem⟩ := (hds.withMaxResults n).mem_search (S := S) hready hn text o
    obtain ⟨found, hmatch, hiff⟩ := hds.matchDocument_eq_some (S := S) hready hmax path text o
    -- the hits do not depend on how many of them are listed
    have hall : (e.withMaxResults n).allHits S text o = e.allHits S text o := rfl
    refine ⟨hits, found, hsearch, hmatch, fun hit => ?_⟩
    rw [hiff, hmem, hall]
  · refine ⟨_, search_eq hready text o, fun hit hhit => ?_⟩
    obtain ⟨found, hmatch, hiff⟩ := hds.matchDocument_eq_some (S := S) hready hmax hit.path text o
    have hall := List.mem_mergeSort.mp (List.mem_of_mem_take hhit)
    rw [hmatch, (hiff hit).mpr ⟨hall, rfl⟩]

/-- Two documents match a text, and the bound leaves room for one of them. -/
theorem matchDocument_beyond_bound :
    let c : Config := { search := { maxResults := 1 } }
    let docs := [Document.ofPath "a.md" (some "apple pie") none,
      Document.ofPath "b.md" (some "apple") none]
    let e := ((Engine.new c none).add docs).1
    let o : SearchOptions := ⟨true, false, .and⟩
    1 ≤ c.search.maxResults ∧ e.index.live ≤ 2 ∧
      ∃ (hits : List (Hit Float)) (found : Option (Hit Float)),
        (e.withMaxResults 2).search "apple" o = .ok hits ∧
        e.matchDocument "b.md" "apple" o = .ok found ∧
        ∀ hit, found = some hit ↔ hit ∈ hits ∧ hit.path = "b.md" := by
  intro c docs e o
  have hmax : 1 ≤ c.search.maxResults := by decide
  have hlive : e.index.live ≤ 2 := by decide +kernel
  have hrun := (Holds.new c none).add docs
  exact ⟨hmax, hlive, (Holds.matchDocument_iff Float hrun hmax "apple" o).1 "b.md" 2 hlive⟩

end VaultSearch.Engine
