import Mathlib.Data.Finset.Max
import VaultSearch.Lines.Excerpt

/-!
# The shown terms are the longest ones

Of the terms that a reduction starts from, those are shown that stand in no
other one. Nothing is lost: a term stands in a longest term that it stands in,
and that one is shown (`exists_shown_of_mem`). The shown terms keep the order
in which they first occur, and a list of terms that is reduced already stays
as it is (`shownTerms_maximal`).
-/

namespace VaultSearch

/-! ## Blocks of a text -/

theorem Text.contains_iff_infix {part : List Char} :
    ∀ {cs : List Char}, Text.contains part cs = true ↔ part <:+: cs
  | [] => by rw [Text.contains, List.isEmpty_iff, List.infix_nil]
  | c :: cs => by
      rw [Text.contains, Bool.or_eq_true, List.isPrefixOf_iff_prefix, contains_iff_infix,
        List.infix_cons_iff]

/-! ## Order of first occurrence -/

section FirstOccurrence

variable {α : Type} [BEq α] [LawfulBEq α] {a b : α}

/-- What stands first among some elements of a list stands first in the list. -/
theorem idxOf_lt_of_filter {p : α → Bool} (ha : p a = true) (hb : p b = true) :
    ∀ {l : List α}, (l.filter p).idxOf a < (l.filter p).idxOf b → l.idxOf a < l.idxOf b
  | [], h => h
  | x :: l, h => by
      by_cases hx : p x = true
      · rw [List.filter_cons_of_pos hx, List.idxOf_cons, List.idxOf_cons] at h
        rw [List.idxOf_cons, List.idxOf_cons]
        cases hxa : x == a <;> cases hxb : x == b <;> simp only [hxa, hxb, cond] at h ⊢
        · exact Nat.succ_lt_succ (idxOf_lt_of_filter ha hb (Nat.lt_of_succ_lt_succ h))
        · exact absurd h (Nat.not_lt_zero _)
        · exact Nat.zero_lt_succ _
        · exact h
      · have hne : ∀ {y}, p y = true → (x == y) = false := fun hy =>
          beq_eq_false_iff_ne.mpr fun heq => hx (heq ▸ hy)
        rw [List.filter_cons_of_neg hx] at h
        rw [List.idxOf_cons, List.idxOf_cons, hne ha, hne hb]
        exact Nat.succ_lt_succ (idxOf_lt_of_filter ha hb h)

theorem pairwise_idxOf_eraseDups : ∀ l : List α,
    l.eraseDups.Pairwise fun a b => l.idxOf a < l.idxOf b
  | [] => List.Pairwise.nil
  | x :: l => by
      have hother : ∀ {y}, y ∈ (l.filter fun y => !y == x).eraseDups → (!y == x) = true :=
        fun hy => (List.mem_filter.mp (List.mem_eraseDups.mp hy)).2
      have hnext : ∀ {y}, (!y == x) = true → (x :: l).idxOf y = l.idxOf y + 1 := fun {y} hy => by
        have hne : (x == y) = false :=
          beq_eq_false_iff_ne.mpr fun heq => by simp [heq] at hy
        rw [List.idxOf_cons, hne, cond_false]
      rw [List.eraseDups_cons, List.pairwise_cons]
      constructor
      · intro y hy
        rw [List.idxOf_cons_self, hnext (hother hy)]
        exact Nat.zero_lt_succ _
      · refine (pairwise_idxOf_eraseDups (l.filter fun y => !y == x)).imp_of_mem
          fun hy hz hlt => ?_
        rw [hnext (hother hy), hnext (hother hz)]
        exact Nat.succ_lt_succ
          (idxOf_lt_of_filter (p := fun y => !y == x) (hother hy) (hother hz) hlt)
termination_by l => l.length
decreasing_by
  exact Nat.lt_succ_of_le (List.length_filter_le _ _)

omit [LawfulBEq α] in
theorem eraseDups_sublist : ∀ l : List α, l.eraseDups.Sublist l
  | [] => List.Sublist.slnil
  | x :: l => by
      rw [List.eraseDups_cons]
      exact ((eraseDups_sublist _).trans List.filter_sublist).cons_cons x
termination_by l => l.length
decreasing_by
  exact Nat.lt_succ_of_le (List.length_filter_le _ _)

theorem eraseDups_eq_self : ∀ {l : List α}, l.Nodup → l.eraseDups = l
  | [], _ => rfl
  | x :: l, h => by
      obtain ⟨hx, hl⟩ := List.nodup_cons.mp h
      have hfilter : l.filter (fun y => !y == x) = l := by
        refine List.filter_eq_self.mpr fun y hy => ?_
        rw [Bool.not_eq_true', beq_eq_false_iff_ne]
        rintro rfl
        exact hx hy
      rw [List.eraseDups_cons, hfilter, eraseDups_eq_self hl]

end FirstOccurrence

/-! ## The reduction -/

variable {queryTerms matchedTerms source : List String} {t u : String}

theorem sourceTerms_eq_ite : sourceTerms queryTerms matchedTerms =
    if ∃ t ∈ queryTerms, t ∈ matchedTerms then queryTerms.filter fun t => decide (t ∈ matchedTerms)
    else matchedTerms := by
  have hkept : queryTerms.filter matchedTerms.contains =
      queryTerms.filter fun t => decide (t ∈ matchedTerms) :=
    List.filter_congr fun t _ => List.contains_eq_mem t matchedTerms
  rw [sourceTerms, hkept]
  simp only [List.isEmpty_iff, List.filter_eq_nil_iff, decide_eq_true_eq]
  by_cases hany : ∃ t ∈ queryTerms, t ∈ matchedTerms
  · rw [if_pos hany, if_neg fun hnone => hany.elim fun t ht => hnone t ht.1 ht.2]
  · rw [if_neg hany, if_pos fun t hq hm => hany ⟨t, hq, hm⟩]

/-- A term is covered where another term of the source has it as a block. -/
theorem isCovered_eq_false_iff : isCovered source t = false ↔
    ∀ u ∈ source, t.toList <:+: u.toList → u = t := by
  rw [isCovered, List.any_eq_false]
  simp only [Bool.and_eq_true, decide_eq_true_eq, Text.contains_iff_infix, not_and]
  exact forall₂_congr fun u _ => not_imp_comm.trans (by rw [not_not])

theorem mem_shownTerms : t ∈ shownTerms queryTerms matchedTerms ↔
    t ∈ sourceTerms queryTerms matchedTerms ∧ t ≠ "" ∧
      ∀ u ∈ sourceTerms queryTerms matchedTerms, t.toList <:+: u.toList → u = t := by
  rw [shownTerms, List.mem_filter, List.mem_eraseDups, Bool.and_eq_true, decide_eq_true_eq,
    Bool.not_eq_true', isCovered_eq_false_iff]

theorem shownTerms_sublist_eraseDups : (shownTerms queryTerms matchedTerms).Sublist
    (sourceTerms queryTerms matchedTerms).eraseDups :=
  List.filter_sublist

/-- Every term of the source stands in a shown term, namely in a longest one that it stands in. -/
theorem exists_shown_of_mem (ht : t ∈ sourceTerms queryTerms matchedTerms) (hne : t ≠ "") :
    ∃ u ∈ shownTerms queryTerms matchedTerms, t.toList <:+: u.toList := by
  let above := (sourceTerms queryTerms matchedTerms).toFinset.filter fun u =>
    t.toList <:+: u.toList
  have hmem : ∀ {u}, u ∈ above ↔
      u ∈ sourceTerms queryTerms matchedTerms ∧ t.toList <:+: u.toList := fun {u} => by
    rw [Finset.mem_filter, List.mem_toFinset]
  obtain ⟨u, hu, hlongest⟩ := above.exists_max_image (fun u => u.toList.length)
    ⟨t, hmem.mpr ⟨ht, List.infix_refl _⟩⟩
  obtain ⟨husource, htu⟩ := hmem.mp hu
  refine ⟨u, mem_shownTerms.mpr ⟨husource, ?_, fun v hv huv => ?_⟩, htu⟩
  · rintro rfl
    exact hne (String.toList_eq_nil_iff.mp (List.infix_nil.mp htu))
  · have hle := hlongest v (hmem.mpr ⟨hv, htu.trans huv⟩)
    exact (String.toList_inj.mp (huv.eq_of_length (huv.length_le.antisymm hle))).symm

/-- A source is shown as it is if it has no term twice and none that stands in another one. -/
theorem shownTerms_eq_source (hnd : (sourceTerms queryTerms matchedTerms).Nodup)
    (hne : "" ∉ sourceTerms queryTerms matchedTerms)
    (hfree : ∀ t ∈ sourceTerms queryTerms matchedTerms,
      ∀ u ∈ sourceTerms queryTerms matchedTerms, t.toList <:+: u.toList → u = t) :
    shownTerms queryTerms matchedTerms = sourceTerms queryTerms matchedTerms := by
  rw [shownTerms, eraseDups_eq_self hnd, List.filter_eq_self]
  intro t ht
  rw [Bool.and_eq_true, decide_eq_true_eq, Bool.not_eq_true', isCovered_eq_false_iff]
  exact ⟨ne_of_mem_of_not_mem ht hne, hfree t ht⟩

/-- The source is what the query terms and the matched ones have in common, or else all matched
ones. It is reduced to its non-empty terms that stand in no other one, each once and in the order
in which they first occur. So no shown term stands in another one, every term that is not empty
stands in a shown one, and what is reduced is not reduced further. -/
theorem shownTerms_maximal (queryTerms matchedTerms : List String) :
    (sourceTerms queryTerms matchedTerms =
      if ∃ t ∈ queryTerms, t ∈ matchedTerms
      then queryTerms.filter fun t => decide (t ∈ matchedTerms)
      else matchedTerms) ∧
    let source := sourceTerms queryTerms matchedTerms
    let shown := shownTerms queryTerms matchedTerms
    (shown.Nodup ∧ shown.Sublist source ∧
      shown.Pairwise fun t u => source.idxOf t < source.idxOf u) ∧
    (∀ t, t ∈ shown ↔ t ∈ source ∧ t ≠ "" ∧ ¬∃ u ∈ source, u ≠ t ∧ t.toList <:+: u.toList) ∧
    (∀ t ∈ shown, ∀ u ∈ shown, t.toList <:+: u.toList → t = u) ∧
    (∀ t ∈ source, t ≠ "" → ∃ u ∈ shown, t.toList <:+: u.toList) ∧
    (shown = [] ↔ ∀ t ∈ source, t = "") ∧
    shownTerms shown shown = shown ∧ shownTerms [] shown = shown := by
  refine ⟨sourceTerms_eq_ite, ?_⟩
  intro source shown
  have horder : shown.Pairwise fun t u => source.idxOf t < source.idxOf u :=
    (pairwise_idxOf_eraseDups source).sublist shownTerms_sublist_eraseDups
  have hnodup : shown.Nodup := horder.imp fun hlt heq => hlt.ne (congrArg source.idxOf heq)
  have hmem : ∀ {t}, t ∈ shown ↔
      t ∈ source ∧ t ≠ "" ∧ ∀ u ∈ source, t.toList <:+: u.toList → u = t :=
    mem_shownTerms
  have hcovers : ∀ t ∈ source, t ≠ "" → ∃ u ∈ shown, t.toList <:+: u.toList :=
    fun t => exists_shown_of_mem
  have hfree : ∀ t ∈ shown, ∀ u ∈ shown, t.toList <:+: u.toList → u = t :=
    fun t ht u hu => (hmem.mp ht).2.2 u (hmem.mp hu).1
  -- a reduced list is a source of its own, whether it is asked for or fallen back to
  have hagain : ∀ asked, sourceTerms asked shown = shown → shownTerms asked shown = shown := by
    intro asked hself
    have hkeep := @shownTerms_eq_source asked shown
    rw [hself] at hkeep
    exact hkeep hnodup (fun hempty => (hmem.mp hempty).2.1 rfl) hfree
  refine ⟨⟨hnodup, ?_, horder⟩, fun t => ?_, fun t ht u hu htu => (hfree t ht u hu htu).symm,
    hcovers, ⟨fun hnil t ht => ?_, fun hempty => ?_⟩, hagain shown ?_, hagain [] rfl⟩
  · exact shownTerms_sublist_eraseDups.trans (eraseDups_sublist _)
  · rw [hmem]
    simp only [not_exists, not_and]
    exact and_congr_right' (and_congr_right' (forall₂_congr fun u _ => not_imp_not.symm))
  · by_contra hne
    obtain ⟨u, hu, -⟩ := hcovers t ht hne
    rw [hnil] at hu
    exact List.not_mem_nil hu
  · refine List.eq_nil_iff_forall_not_mem.mpr fun t ht => ?_
    exact (hmem.mp ht).2.1 (hempty t (hmem.mp ht).1)
  · have hall : shown.filter shown.contains = shown :=
      List.filter_eq_self.mpr fun t ht => List.contains_iff_mem.mpr ht
    rw [sourceTerms, hall]
    exact ite_self _

end VaultSearch
