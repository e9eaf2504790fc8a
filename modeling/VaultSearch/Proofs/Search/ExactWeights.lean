import Mathlib.Analysis.SpecialFunctions.Log.Basic
import VaultSearch.Proofs.Search.Expansion

/-!
# The weights of an expansion

Over the real numbers, where nothing is rounded, an expansion has each term
that is reached once, ascending, and with it the greatest weight of the ways
to it (`expand_exact`). Each offer keeps it so (`Best.offer`).
-/

namespace VaultSearch

/-- The real number that a float stands for, 0 if it stands for none. -/
noncomputable def realOfFloat (a : Float) : ℝ :=
  match a.toModel.unpack with
  | .finite .positive m e _ => m * (2 : ℝ) ^ e
  | .finite .negative m e _ => -(m * (2 : ℝ) ^ e)
  | _ => 0

noncomputable instance : Score ℝ where
  ofNat n := n
  ofFloat := realOfFloat
  ln := Real.log
  lt a b := decide (a < b)

/-- The weight of a way, as a real number. -/
noncomputable def Reach.exactWeight : Reach → ℝ
  | exact => 1
  | extension => 0.375
  | near d limit => 0.45 * (1 - d / (limit + 1))

theorem ofNat_real (n : Nat) : (Score.ofNat n : ℝ) = n := rfl

theorem scoreMax_real (a b : ℝ) : Score.max a b = max a b := by
  by_cases h : a < b
  · rw [max_eq_right h.le]
    exact if_pos (decide_eq_true h)
  · rw [max_eq_left (not_lt.mp h)]
    exact if_neg (by simpa [Score.lt] using h)

namespace Reach

theorem weight_real (way : Reach) : (way.weight : ℝ) = way.exactWeight := by
  cases way with
  | exact => rw [weight, exactWeight]; norm_num
  | extension => rw [weight, exactWeight]
  | near d limit => rw [weight, exactWeight, ofNat_real, ofNat_real]; norm_num

end Reach

variable {ix : Index} {o : SearchOptions} {s : SearchSettings} {q t : String}

theorem ReachesBy.exactWeight_nonneg {way : Reach} (h : ReachesBy o s q t way) :
    0 ≤ way.exactWeight := by
  cases h with
  | exact _ => rw [Reach.exactWeight]; norm_num
  | extension => rw [Reach.exactWeight]; norm_num
  | @near d _ _ _ _ hle =>
      have hd : (d : ℝ) ≤ fuzzyDistance q.toList.length s.fuzzyProportion := by exact_mod_cast hle
      have hshare : (d : ℝ) / (fuzzyDistance q.toList.length s.fuzzyProportion + 1) ≤ 1 :=
        (div_le_one (by positivity)).mpr (by linarith)
      rw [Reach.exactWeight]
      exact mul_nonneg (by norm_num) (by linarith)

/-! ## The greatest weight -/

/-- `best` is the greatest of the weights, if there is one. -/
def Best (best : Option ℝ) (weights : Set ℝ) : Prop :=
  (best = none ∧ weights = ∅) ∨ ∃ w, best = some w ∧ IsGreatest weights w

theorem Best.offer {best : Option ℝ} {weights : Set ℝ} (h : Best best weights) {x : ℝ}
    (hx : 0 ≤ x) : Best (some (Score.max (best.getD 0.0) x)) (insert x weights) := by
  right
  rcases h with ⟨rfl, rfl⟩ | ⟨w, rfl, hw⟩
  · refine ⟨x, ?_, by simp⟩
    have hzero : (none : Option ℝ).getD 0.0 = 0 := by norm_num
    rw [hzero, scoreMax_real, max_eq_right hx]
  · refine ⟨max x w, ?_, hw.insert x⟩
    rw [Option.getD_some, scoreMax_real, max_comm]

/-- The weights at which a term was reached. -/
def weightsOf (found : List (String × Reach)) (t : String) : Set ℝ :=
  {x | ∃ way, (t, way) ∈ found ∧ way.exactWeight = x}

theorem weightsOf_concat_self (found : List (String × Reach)) (t : String) (way : Reach) :
    weightsOf (found ++ [(t, way)]) t = insert way.exactWeight (weightsOf found t) := by
  ext x
  constructor
  · rintro ⟨way', hmem, rfl⟩
    rcases List.mem_append.mp hmem with hmem | hmem
    · exact .inr ⟨way', hmem, rfl⟩
    · obtain ⟨-, rfl⟩ := Prod.mk.inj (List.mem_singleton.mp hmem)
      exact .inl rfl
  · rintro (rfl | ⟨way', hmem, rfl⟩)
    · exact ⟨way, List.mem_append_right _ (List.mem_singleton_self _), rfl⟩
    · exact ⟨way', List.mem_append_left _ hmem, rfl⟩

theorem weightsOf_concat_of_ne {found : List (String × Reach)} {p : String × Reach}
    (h : p.1 ≠ t) : weightsOf (found ++ [p]) t = weightsOf found t := by
  have hmem : ∀ way, (t, way) ∈ found ++ [p] ↔ (t, way) ∈ found := by
    intro way
    rw [List.mem_append, List.mem_singleton, or_iff_left]
    rintro rfl
    exact h rfl
  simp only [weightsOf, hmem]

/-- After any ways were offered, each term has the greatest of its weights. -/
theorem best_foldl_offer (found : List (String × Reach))
    (hfound : ∀ p ∈ found, 0 ≤ p.2.exactWeight) (t : String) :
    Best ((found.foldl offer ({} : Std.TreeMap String ℝ))[t]?) (weightsOf found t) := by
  induction found using List.reverseRecOn with
  | nil => exact .inl ⟨by simp, by simp [weightsOf]⟩
  | append_singleton found p ih =>
      have hold := ih fun p hp => hfound p (List.mem_append_left _ hp)
      rw [List.foldl_append, List.foldl_cons, List.foldl_nil, getElem?_offer]
      by_cases hp : p.1 = t
      · subst hp
        rw [if_pos rfl, weightsOf_concat_self, Reach.weight_real]
        exact hold.offer (hfound p (List.mem_append_right _ (List.mem_singleton_self p)))
      · rw [if_neg hp, weightsOf_concat_of_ne hp]
        exact hold

/-- An expansion has the indexed terms that are reached, ascending and each once, with the
greatest weight of the ways that reach them. -/
theorem expand_exact (ix : Index) (o : SearchOptions) (s : SearchSettings) (q : String) :
    (expand (S := ℝ) ix o s q).Pairwise (fun a b => a.1 < b.1) ∧
      (∀ t, (∃ w : ℝ, (t, w) ∈ expand ix o s q) ↔
        t ∈ ix.postings ∧ ∃ way, ReachesBy o s q t way) ∧
      ∀ t, ∀ w : ℝ, (t, w) ∈ expand ix o s q →
        IsGreatest {x | ∃ way, ReachesBy o s q t way ∧ way.exactWeight = x} w := by
  refine ⟨pairwise_expand ix o s q, fun t => ?_, fun t w hw => ?_⟩
  · simp only [exists_mem_expand_iff, mem_ways, Std.ExtTreeMap.mem_keys, exists_and_left]
  · have hpos : ∀ p ∈ ways ix o s q, 0 ≤ p.2.exactWeight :=
      fun p hp => (mem_ways.mp hp).2.exactWeight_nonneg
    rw [expand, Std.TreeMap.mem_toList_iff_getElem?_eq_some] at hw
    rcases best_foldl_offer _ hpos t with ⟨hnone, -⟩ | ⟨w', hw', hgreatest⟩
    · rw [hw] at hnone
      cases hnone
    · obtain rfl := Option.some.inj (hw.symm.trans hw')
      have hkey : t ∈ ix.postings.keys := by
        obtain ⟨way, hway, -⟩ := hgreatest.1
        exact (mem_ways.mp hway).1
      simpa only [weightsOf, mem_ways, hkey, true_and] using hgreatest

end VaultSearch
