import Mathlib.Algebra.BigOperators.Group.List.Basic
import VaultSearch.Proofs.Search.Expansion
import VaultSearch.Proofs.Search.Ranking
import VaultSearch.Proofs.Search.Tally

/-!
# A search sees only the live documents

The ranking reads four things off an index: its terms, how many documents
it has, how many of them have a term, and the field totals. All of them
are facts about the live documents in whatever order (`Index.SameCounts`),
so two indexes with the same live documents give the same hits, whatever
their slots (`hits_perm_hits`, `searchTerms_eq_of_perm`,
`searchTerms_slot_eq`).
-/

namespace VaultSearch

/-- Two indexes agree in all that the ranking reads. -/
structure Index.SameCounts (ix₁ ix₂ : Index) : Prop where
  keys : ix₁.postings.keys = ix₂.postings.keys
  live : ix₁.live = ix₂.live
  totals : ∀ f, ix₁.totals.get f = ix₂.totals.get f
  docFreq : ∀ t, ix₁.docFreq t = ix₂.docFreq t

variable {ix₁ ix₂ : Index} {ds₁ ds₂ : List (Option Analysed)}

/-- Indexes of the same documents agree in all that the ranking reads. -/
theorem Index.Records.sameCounts (h₁ : ix₁.Records ds₁) (h₂ : ix₂.Records ds₂)
    (hp : ds₁.reduceOption.Perm ds₂.reduceOption) : ix₁.SameCounts ix₂ where
  keys := by
    refine List.Pairwise.eq_of_mem_iff (r := (· < ·)) ix₁.pairwise_keys ix₂.pairwise_keys
      fun t => ?_
    rw [h₁.mem_keys, h₂.mem_keys]
    simp only [hp.mem_iff]
  live := by rw [h₁.live, h₂.live, hp.length_eq]
  totals f := by rw [h₁.totals, h₂.totals, (hp.map _).sum_eq]
  docFreq t := by rw [h₁.docFreq_eq, h₂.docFreq_eq, (hp.filter _).length_eq]

variable {S : Type} [Score S]

theorem Index.SameCounts.expand_eq (h : ix₁.SameCounts ix₂) (o : SearchOptions)
    (s : SearchSettings) (q : String) : expand (S := S) ix₁ o s q = expand ix₂ o s q := by
  rw [expand, expand, ways_congr h.keys]

theorem Index.SameCounts.postingScore_eq (h : ix₁.SameCounts ix₂) (s : SearchSettings)
    (weight rarity : S) (e : Entry) (f : Field) :
    postingScore ix₁ s weight rarity e f = postingScore ix₂ s weight rarity e f := by
  rw [postingScore, postingScore, averageLength, averageLength, h.live, h.totals]

/-- The hit of a document depends on the counts of the index alone. -/
theorem Index.SameCounts.hitOf_eq (h : ix₁.SameCounts ix₂) (o : SearchOptions)
    (s : SearchSettings) (terms : List String) (d : Analysed) :
    hitOf (S := S) ix₁ o s terms d = hitOf ix₂ o s terms d := by
  have hcount : ∀ q, countTerm (S := S) ix₁ s q d = countTerm ix₂ s q d := by
    intro q
    funext tally reached
    simp only [countTerm, h.postingScore_eq, h.live, h.docFreq]
  simp only [hitOf, tallyOf, hcount, h.expand_eq]

/-- Two indexes of the same documents give the same hits. -/
theorem hits_perm_hits (h₁ : ix₁.Records ds₁) (h₂ : ix₂.Records ds₂) (hd₁ : DistinctPaths ds₁)
    (hd₂ : DistinctPaths ds₂) (hp : ds₁.reduceOption.Perm ds₂.reduceOption) (o : SearchOptions)
    (s : SearchSettings) (terms : List String) :
    (hits (S := S) ix₁ o s none terms).Perm (hits ix₂ o s none terms) := by
  have hcongr : hitOf (S := S) ix₁ o s terms = hitOf ix₂ o s terms :=
    funext fun d => (h₁.sameCounts h₂ hp).hitOf_eq o s terms d
  refine (hits_perm h₁ hd₁ o s terms).trans ?_
  rw [hcongr]
  exact (hp.filterMap _).trans (hits_perm h₂ hd₂ o s terms).symm

/-- Two indexes of the same documents give the same ranked answer. -/
theorem searchTerms_eq_of_perm (h₁ : ix₁.Records ds₁) (h₂ : ix₂.Records ds₂)
    (hd₁ : DistinctPaths ds₁) (hd₂ : DistinctPaths ds₂)
    (hp : ds₁.reduceOption.Perm ds₂.reduceOption) (o : SearchOptions) (s : SearchSettings)
    (terms : List String)
    (hord : Score.Ordered ((hits (S := S) ix₁ o s none terms).map Hit.score)) :
    searchTerms (S := S) ix₁ o s none terms = searchTerms ix₂ o s none terms := by
  rw [searchTerms, searchTerms, Hit.mergeSort_eq_of_perm
    (hits_perm_hits h₁ h₂ hd₁ hd₂ hp o s terms) hord (nodup_paths_hits h₁ hd₁ o s none terms)]

/-- Two indexes of the same documents give the same answer for one of them. -/
theorem searchTerms_slot_eq (h₁ : ix₁.Records ds₁) (h₂ : ix₂.Records ds₂)
    (hd₁ : DistinctPaths ds₁) (hd₂ : DistinctPaths ds₂)
    (hp : ds₁.reduceOption.Perm ds₂.reduceOption) (o : SearchOptions) (s : SearchSettings)
    (terms : List String) {slot₁ slot₂ : Nat} {d : Analysed}
    (hs₁ : ds₁[slot₁]? = some (some d)) (hs₂ : ds₂[slot₂]? = some (some d)) :
    searchTerms (S := S) ix₁ o s (some slot₁) terms =
      searchTerms ix₂ o s (some slot₂) terms := by
  rw [searchTerms, searchTerms, hits_of_slot h₁ hd₁, hits_of_slot h₂ hd₂, hs₁, hs₂]
  simp only [Option.join_some, Option.bind_some, (h₁.sameCounts h₂ hp).hitOf_eq]

end VaultSearch
