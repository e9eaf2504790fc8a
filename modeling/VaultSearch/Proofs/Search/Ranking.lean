import Mathlib.Data.List.Sort
import Mathlib.Data.Prod.Lex
import Mathlib.Data.String.Basic
import VaultSearch.Search

/-!
# The order of hits

Hits are listed by score, a better one first, and hits of equal score by
path. This order is total only where the scores are: `Score.Ordered`
says so of a list of scores, and `Score.ordered_of_no_nan` that binary
floating point satisfies it as long as no score is NaN. Under it the
ranked list is sorted (`pairwise_before_mergeSort`) and does not depend
on the order in which the hits come (`mergeSort_eq_of_perm`).
-/

namespace VaultSearch

section

variable {S : Type} [Score S]

/-- `lt` compares the scores of a list as a total order does, equal ranks
allowed. -/
structure Score.Ordered (scores : List S) : Prop where
  irrefl : ∀ a ∈ scores, Score.lt a a = false
  trans : ∀ a ∈ scores, ∀ b ∈ scores, ∀ c ∈ scores,
    Score.lt a b = true → Score.lt b c = true → Score.lt a c = true
  total : ∀ a ∈ scores, ∀ b ∈ scores, ∀ c ∈ scores,
    Score.lt a b = false → Score.lt b c = false → Score.lt a c = false

theorem Score.Ordered.asymm {scores : List S} (h : Score.Ordered scores) {a b : S}
    (ha : a ∈ scores) (hb : b ∈ scores) (hab : Score.lt a b = true) : Score.lt b a = false := by
  by_contra hba
  have haa := h.trans a ha b hb a ha hab (by simpa using hba)
  rw [h.irrefl a ha] at haa
  cases haa

theorem Score.Ordered.mono {l m : List S} (h : Score.Ordered l) (hsub : ∀ a ∈ m, a ∈ l) :
    Score.Ordered m where
  irrefl a ha := h.irrefl a (hsub a ha)
  trans a ha b hb c hc := h.trans a (hsub a ha) b (hsub b hb) c (hsub c hc)
  total a ha b hb c hc := h.total a (hsub a ha) b (hsub b hb) c (hsub c hc)

/-- To come before by score, or by something else where no score is better, is transitive. -/
theorem Score.Ordered.lex_trans {scores : List S} (h : Score.Ordered scores) {x y z : S}
    {p q r : Prop} (hx : x ∈ scores) (hy : y ∈ scores) (hz : z ∈ scores) (hpqr : p → q → r)
    (hxy : Score.lt y x = true ∨ (Score.lt x y = false ∧ p))
    (hyz : Score.lt z y = true ∨ (Score.lt y z = false ∧ q)) :
    Score.lt z x = true ∨ (Score.lt x z = false ∧ r) := by
  cases hzx : Score.lt z x with
  | true => exact Or.inl rfl
  | false =>
      rcases hxy with hyx | ⟨hxy, hp⟩ <;> rcases hyz with hzy | ⟨hyz, hq⟩
      · rw [h.trans _ hz _ hy _ hx hzy hyx] at hzx
        cases hzx
      · rw [h.total _ hy _ hz _ hx hyz hzx] at hyx
        cases hyx
      · rw [h.total _ hz _ hx _ hy hzx hxy] at hzy
        cases hzy
      · exact Or.inr ⟨h.total _ hx _ hy _ hz hxy hyz, hpqr hp hq⟩

theorem Score.Ordered.not_lex_both {scores : List S} (h : Score.Ordered scores) {x y : S}
    {p q : Prop} (hx : x ∈ scores) (hy : y ∈ scores) (hpq : p → ¬q)
    (hxy : Score.lt y x = true ∨ (Score.lt y x = false ∧ Score.lt x y = false ∧ p))
    (hyx : Score.lt x y = true ∨ (Score.lt x y = false ∧ Score.lt y x = false ∧ q)) : False := by
  rcases hxy with hxy | ⟨hxy, hxy', hp⟩ <;> rcases hyx with hyx | ⟨hyx, hyx', hq⟩
  · rw [h.asymm hx hy hyx] at hxy; cases hxy
  · rw [hyx'] at hxy; cases hxy
  · rw [hxy'] at hyx; cases hyx
  · exact hpq hp hq

namespace Hit

/-- Hit `a` stands before hit `b`: it has the better score, or the same rank and
the smaller path. -/
def Before (a b : Hit S) : Prop :=
  Score.lt b.score a.score = true ∨
    (Score.lt b.score a.score = false ∧ Score.lt a.score b.score = false ∧ a.path < b.path)

theorem rankedBefore_iff {a b : Hit S} : a.rankedBefore b = true ↔
    Score.lt b.score a.score = true ∨
      (Score.lt a.score b.score = false ∧ ¬b.path < a.path) := by
  rw [rankedBefore]
  cases Score.lt b.score a.score <;> cases Score.lt a.score b.score <;> simp

theorem rankedBefore_total (a b : Hit S) : (a.rankedBefore b || b.rankedBefore a) = true := by
  rw [Bool.or_eq_true, rankedBefore_iff, rankedBefore_iff]
  cases Score.lt b.score a.score with
  | true => exact Or.inl (Or.inl rfl)
  | false =>
      cases Score.lt a.score b.score with
      | true => exact Or.inr (Or.inl rfl)
      | false =>
          rcases lt_or_ge b.path a.path with h | h
          · exact Or.inr (Or.inr ⟨rfl, not_lt.mpr h.le⟩)
          · exact Or.inl (Or.inr ⟨rfl, not_lt.mpr h⟩)

theorem rankedBefore_trans {l : List (Hit S)} (h : Score.Ordered (l.map Hit.score))
    {a b c : Hit S} (ha : a ∈ l) (hb : b ∈ l) (hc : c ∈ l) (hab : a.rankedBefore b = true)
    (hbc : b.rankedBefore c = true) : a.rankedBefore c = true := by
  rw [rankedBefore_iff] at hab hbc ⊢
  refine h.lex_trans (List.mem_map_of_mem ha) (List.mem_map_of_mem hb) (List.mem_map_of_mem hc)
    (fun hpab hpbc => ?_) hab hbc
  exact not_lt.mpr (le_trans (not_lt.mp hpab) (not_lt.mp hpbc))

theorem before_of_rankedBefore {a b : Hit S} (hne : a.path ≠ b.path)
    (h : a.rankedBefore b = true) : a.Before b := by
  rw [rankedBefore_iff] at h
  cases hlt : Score.lt b.score a.score with
  | true => exact Or.inl hlt
  | false =>
      rcases h with h | ⟨h, hp⟩
      · rw [hlt] at h; cases h
      · exact Or.inr ⟨hlt, h, lt_of_le_of_ne (not_lt.mp hp) hne⟩

theorem not_before_both {l : List (Hit S)} (h : Score.Ordered (l.map Hit.score)) {a b : Hit S}
    (ha : a ∈ l) (hb : b ∈ l) (hab : a.Before b) (hba : b.Before a) : False :=
  h.not_lex_both (List.mem_map_of_mem ha) (List.mem_map_of_mem hb) lt_asymm hab hba

/-- Sorting needs the order to be total on the members of the list only. -/
theorem pairwise_rankedBefore_mergeSort {l : List (Hit S)}
    (h : Score.Ordered (l.map Hit.score)) :
    (l.mergeSort rankedBefore).Pairwise fun a b => a.rankedBefore b = true := by
  let le : {a // a ∈ l} → {a // a ∈ l} → Bool := fun a b => a.1.rankedBefore b.1
  have hsort : (l.attach.mergeSort le).map Subtype.val = l.mergeSort rankedBefore := by
    rw [List.map_mergeSort (s := rankedBefore) fun a _ b _ => rfl, List.attach_map_subtype_val]
  rw [← hsort, List.pairwise_map]
  refine List.pairwise_mergeSort (fun a b c hab hbc => ?_)
    (fun a b => rankedBefore_total a.1 b.1) l.attach
  exact rankedBefore_trans h a.2 b.2 c.2 hab hbc

/-- Ranked hits of different documents stand by score, then by path. -/
theorem pairwise_before_mergeSort {l : List (Hit S)} (h : Score.Ordered (l.map Hit.score))
    (hnd : (l.map Hit.path).Nodup) : (l.mergeSort rankedBefore).Pairwise Before := by
  have hnd' : ((l.mergeSort rankedBefore).map Hit.path).Nodup :=
    (((List.mergeSort_perm l rankedBefore).map Hit.path).nodup_iff).mpr hnd
  exact ((pairwise_rankedBefore_mergeSort h).and (List.pairwise_map.mp hnd')).imp
    fun hab => before_of_rankedBefore hab.2 hab.1

/-- The ranked list does not depend on the order in which the hits come. -/
theorem mergeSort_eq_of_perm {l₁ l₂ : List (Hit S)} (hp : l₁.Perm l₂)
    (h : Score.Ordered (l₁.map Hit.score)) (hnd : (l₁.map Hit.path).Nodup) :
    l₁.mergeSort rankedBefore = l₂.mergeSort rankedBefore := by
  have h₂ : Score.Ordered (l₂.map Hit.score) :=
    h.mono fun a ha => (hp.map Hit.score).mem_iff.mpr ha
  have hnd₂ : (l₂.map Hit.path).Nodup := ((hp.map Hit.path).nodup_iff).mp hnd
  refine List.Perm.eq_of_pairwise (fun a b ha hb hab hba => ?_)
    (pairwise_before_mergeSort h hnd) (pairwise_before_mergeSort h₂ hnd₂)
    (((List.mergeSort_perm l₁ _).trans hp).trans (List.mergeSort_perm l₂ _).symm)
  have ha' : a ∈ l₁ := List.mem_mergeSort.mp ha
  have hb' : b ∈ l₁ := hp.mem_iff.mpr (List.mem_mergeSort.mp hb)
  exact (not_before_both h ha' hb' hab hba).elim

end Hit

end

end VaultSearch
