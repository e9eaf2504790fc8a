import Mathlib
import VaultSearch.Lines.Excerpt
import VaultSearch.Proofs.Search.ExactWeights
import VaultSearch.Proofs.Search.Scores

/-!
# The score of a line

The score of a line adds up one summand for each occurrence: the length of
each term that occurs, once, and the bonus for all other occurrences
(`lineScore_sum`). Over the real numbers that is a formula
(`lineScore_real`), and in binary floating point it is never NaN, so that
the scores of lines are always ordered (`ordered_lineScores`).
-/

namespace VaultSearch

/-- The terms of some occurrences, each once. -/
def termsOf (os : List Occurrence) : List Nat := (os.map (·.term)).dedup

namespace LinesMatcher

section

variable {S : Type} [Score S] {patterns : List TermPattern}

/-- The summands of a score for occurrences of which those of the terms in `found` are first ones:
the lengths of these terms, and bonuses for all other occurrences. -/
def summands (S : Type) [Score S] (patterns : List TermPattern) (found : List Nat)
    (os : List Occurrence) : List S :=
  found.map (fun i => Score.ofNat (termLength patterns i)) ++
    List.replicate (os.length - found.length) repeatBonus

/-- The terms that occur and have not been seen before, each once. -/
def newTerms (seen : List Nat) (os : List Occurrence) : List Nat :=
  ((os.map (·.term)).filter fun i => i ∉ seen).dedup

theorem mem_newTerms {seen : List Nat} {os : List Occurrence} {i : Nat} :
    i ∈ newTerms seen os ↔ (∃ o ∈ os, o.term = i) ∧ i ∉ seen := by
  rw [newTerms, List.mem_dedup, List.mem_filter, List.mem_map, decide_eq_true_eq]

theorem nodup_newTerms (seen : List Nat) (os : List Occurrence) : (newTerms seen os).Nodup :=
  List.nodup_dedup _

theorem length_newTerms_le (seen : List Nat) (os : List Occurrence) :
    (newTerms seen os).length ≤ os.length := by
  have hdedup := (List.dedup_sublist ((os.map (·.term)).filter fun i => i ∉ seen)).length_le
  have hfilter := List.length_filter_le (fun i => decide (i ∉ seen)) (os.map (·.term))
  rw [List.length_map] at hfilter
  exact hdedup.trans hfilter

theorem newTerms_cons_of_mem {seen : List Nat} {o : Occurrence} (h : o.term ∈ seen)
    (os : List Occurrence) : newTerms seen (o :: os) = newTerms seen os := by
  rw [newTerms, List.map_cons, List.filter_cons_of_neg (by simpa using h), newTerms]

theorem newTerms_cons_of_notMem {seen : List Nat} {o : Occurrence} (h : o.term ∉ seen)
    (os : List Occurrence) :
    (newTerms seen (o :: os)).Perm (o.term :: newTerms (o.term :: seen) os) := by
  have hnew : o.term ∉ newTerms (o.term :: seen) os := fun hmem =>
    (mem_newTerms.mp hmem).2 List.mem_cons_self
  refine (List.perm_ext_iff_of_nodup (nodup_newTerms seen (o :: os))
    (List.nodup_cons.mpr ⟨hnew, nodup_newTerms (o.term :: seen) os⟩)).mpr fun i => ?_
  rw [List.mem_cons, mem_newTerms, mem_newTerms, List.mem_cons, not_or]
  constructor
  · rintro ⟨⟨o', ho', rfl⟩, hseen⟩
    rcases List.mem_cons.mp ho' with rfl | ho'
    · exact Or.inl rfl
    · by_cases heq : o'.term = o.term
      · exact Or.inl heq
      · exact Or.inr ⟨⟨o', ho', rfl⟩, heq, hseen⟩
  · rintro (rfl | ⟨⟨o', ho', rfl⟩, -, hseen⟩)
    · exact ⟨⟨o, List.mem_cons_self, rfl⟩, h⟩
    · exact ⟨⟨o', List.mem_cons_of_mem o ho', rfl⟩, hseen⟩

/-- Each occurrence adds its summand. -/
theorem foldl_addOccurrence : ∀ (os : List Occurrence) (seen : List Nat) (x : S),
    ∃ xs : List S, (os.foldl (addOccurrence patterns) (seen, x)).2 = xs.foldl (· + ·) x ∧
      xs.Perm (summands S patterns (newTerms seen os) os)
  | [], _, _ => ⟨[], rfl, .nil⟩
  | o :: os, seen, x => by
      rw [List.foldl_cons, addOccurrence]
      split
      · -- the term has been seen
        rename_i hseen
        have hmem : o.term ∈ seen := List.contains_iff_mem.mp hseen
        obtain ⟨xs, hxs, hperm⟩ := foldl_addOccurrence os seen (x + repeatBonus)
        refine ⟨repeatBonus :: xs, hxs, ?_⟩
        have hlen := length_newTerms_le seen os
        rw [newTerms_cons_of_mem hmem, summands, List.length_cons, Nat.succ_sub hlen,
          List.replicate_succ]
        exact (hperm.cons repeatBonus).trans List.perm_middle.symm
      · rename_i hseen
        have hmem : o.term ∉ seen := fun h => hseen (List.contains_iff_mem.mpr h)
        obtain ⟨xs, hxs, hperm⟩ := foldl_addOccurrence os (o.term :: seen)
          (x + Score.ofNat (termLength patterns o.term))
        refine ⟨Score.ofNat (termLength patterns o.term) :: xs, hxs, ?_⟩
        have hnew := newTerms_cons_of_notMem hmem os
        refine (hperm.cons _).trans ?_
        rw [summands, summands, hnew.length_eq, List.length_cons, List.length_cons,
          Nat.add_sub_add_right]
        exact (hnew.map fun i => (Score.ofNat (termLength patterns i) : S)).symm.append_right _

/-- The score is the sum, in some order, of the lengths of the terms that occur and of the bonuses
for all further occurrences. -/
theorem lineScore_sum (S : Type) [Score S] (patterns : List TermPattern) (os : List Occurrence) :
    ∃ xs : List S, lineScore patterns os = xs.foldl (· + ·) 0.0 ∧
      xs.Perm (summands S patterns (termsOf os) os) := by
  have hterms : newTerms [] os = termsOf os := by
    rw [newTerms, termsOf, List.filter_eq_self.mpr fun i _ => decide_eq_true List.not_mem_nil]
  rw [← hterms]
  exact foldl_addOccurrence os [] 0.0

end

/-- Without rounding the score is the length of the terms that occur, and a hundredth for each
further occurrence. -/
theorem lineScore_real (patterns : List TermPattern) (os : List Occurrence) :
    (lineScore patterns os : ℝ) = ((termsOf os).map (termLength patterns)).sum +
      0.01 * ((os.length - (termsOf os).length : Nat) : ℝ) := by
  obtain ⟨xs, hscore, hperm⟩ := lineScore_sum ℝ patterns os
  have hbonus : (repeatBonus : ℝ) = 0.01 := rfl
  have hzero : (0.0 : ℝ) = 0 := by norm_num
  rw [hscore, hzero, ← List.sum_eq_foldl, hperm.sum_eq, summands, List.sum_append,
    List.sum_replicate, nsmul_eq_mul, hbonus, mul_comm, Nat.cast_list_sum, List.map_map]
  rfl

/-! ## Line scores are ordered -/

theorem sound_repeatBonus : SoundScore.Sound (repeatBonus : Float) := by
  show (0.0 : Float) ≤ 0.01
  decide

theorem sound_lineScore (patterns : List TermPattern) (os : List Occurrence) :
    SoundScore.Sound (lineScore patterns os : Float) := by
  obtain ⟨xs, hscore, hperm⟩ := lineScore_sum Float patterns os
  rw [hscore]
  refine List.foldlRecOn xs _ SoundScore.sound_zero fun x hx y hy => SoundScore.sound_add hx ?_
  rcases List.mem_append.mp (hperm.mem_iff.mp hy) with hlength | hbonus
  · obtain ⟨i, -, rfl⟩ := List.mem_map.mp hlength
    exact Score.zero_le_ofNat _
  · rw [List.eq_of_mem_replicate hbonus]
    exact sound_repeatBonus

/-- Binary floating point orders the scores of all lines. -/
theorem ordered_lineScores (patterns : List TermPattern) (lines : List (List Occurrence)) :
    Score.Ordered (lines.map fun os => (lineScore patterns os : Float)) := by
  refine SoundScore.ordered fun x hx => ?_
  obtain ⟨os, -, rfl⟩ := List.mem_map.mp hx
  exact sound_lineScore patterns os

end LinesMatcher

end VaultSearch
