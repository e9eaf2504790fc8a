import VaultSearch.Proofs.Text.Folding
import VaultSearch.Text.Property

/-!
# The lower case of the beginning of a text

The lower case of a letter depends on what follows it for one letter only: a
capital sigma at the end of a word has a form of its own. So the lower case of
a text goes on as the lower case of a beginning of it does, unless a capital
sigma becomes final where the beginning breaks off (`lowercase_prefix_iff`).
Whether one does is settled between the last letters before the break and the
first behind it, so that what holds of a text holds of its last word
(`KeepsSigma.of_block`).
-/

namespace VaultSearch.Text

/-! ## Cased characters -/

/-- Every code point of `r` is one of `r'`. -/
def Run.Within (r r' : Run) : Prop :=
  r'.first ≤ r.first ∧ r.last ≤ r'.last ∧ r'.step ∣ r.step ∧ r'.step ∣ r.first - r'.first

instance (r r' : Run) : Decidable (r.Within r') :=
  inferInstanceAs (Decidable (r'.first ≤ r.first ∧ r.last ≤ r'.last ∧ r'.step ∣ r.step ∧
    r'.step ∣ r.first - r'.first))

theorem Run.Within.contains {r r' : Run} (h : r.Within r') {n : Nat} (hn : r.contains n = true) :
    r'.contains n = true := by
  obtain ⟨hfirst, hlast, hstep, hstart⟩ := h
  obtain ⟨hlo, hhi⟩ := le_of_contains hn
  simp only [Run.contains, Bool.and_eq_true, beq_iff_eq] at hn
  have hdvd : r'.step ∣ n - r.first + (r.first - r'.first) :=
    Nat.dvd_add (Nat.dvd_trans hstep (Nat.dvd_of_mod_eq_zero hn.2)) hstart
  have hsum : n - r.first + (r.first - r'.first) = n - r'.first := by omega
  simp only [Run.contains, Bool.and_eq_true, decide_eq_true_eq, beq_iff_eq]
  exact ⟨⟨hfirst.trans hlo, hhi.trans hlast⟩, Nat.mod_eq_zero_of_dvd (hsum ▸ hdvd)⟩

theorem isChain_alphabeticRuns : alphabeticRuns.toList.IsChain fun r r' => r.Follows r' := by
  decide +kernel

theorem ascending_alphabeticRuns : Ascending id alphabeticRuns :=
  ascending_of_isChain isChain_alphabeticRuns

/-- The runs that are left when each of `table` in turn takes away the first ones within it. -/
def Run.uncovered (table runs : List Run) : List Run :=
  table.foldl (fun runs r' => runs.dropWhile fun r => decide (r.Within r')) runs

theorem Run.exists_within : ∀ {table runs : List Run}, uncovered table runs = [] →
    ∀ r ∈ runs, ∃ r' ∈ table, r.Within r'
  | [], runs, h, r, hr => by
      rw [show runs = [] from h] at hr
      exact absurd hr List.not_mem_nil
  | r' :: table, runs, h, r, hr => by
      rw [← List.takeWhile_append_dropWhile (p := fun r => decide (r.Within r')) (l := runs),
        List.mem_append] at hr
      rcases hr with hr | hr
      · exact ⟨r', List.mem_cons_self, by
          simpa using List.all_eq_true.mp (List.all_takeWhile ..) r hr⟩
      · obtain ⟨r'', hr'', hwithin⟩ := @exists_within table _ h r hr
        exact ⟨r'', List.mem_cons_of_mem r' hr'', hwithin⟩

theorem uncovered_casedRuns : Run.uncovered alphabeticRuns.toList casedRuns.toList = [] := by
  decide +kernel

/-- Cased characters are letters. -/
theorem isAlphanumeric_of_isCased {c : Char} (h : isCased c = true) : isAlphanumeric c = true := by
  rw [isCased, onRuns, Option.isSome_iff_exists] at h
  obtain ⟨r, hr⟩ := h
  obtain ⟨r', hr', hwithin⟩ :=
    Run.exists_within uncovered_casedRuns r (Array.mem_toList_iff.mpr (mem_of_findRun? hr))
  have hfound := findRun?_of_mem ascending_alphabeticRuns (Array.mem_toList_iff.mp hr')
    (hwithin.contains (contains_of_findRun? hr))
  rw [isAlphanumeric, isAlphabetic, onRuns, hfound, Option.isSome_some, Bool.true_or]

theorem startsCased_append {cs : List Char} (h : startsCased cs = true) (more : List Char) :
    startsCased (cs ++ more) = true := by
  unfold startsCased at h ⊢
  rw [List.find?_append]
  cases hfind : cs.find? fun c => !isCaseIgnorable c with
  | none =>
      rw [hfind] at h
      cases h
  | some c =>
      rw [hfind] at h
      rw [Option.some_or]
      exact h

theorem startsCased_of_append {cs more : List Char} (h : startsCased (cs ++ more) = true)
    (hmore : ∀ c ∈ more, isCased c = false) : startsCased cs = true := by
  unfold startsCased at h ⊢
  rw [List.find?_append] at h
  cases hfind : cs.find? fun c => !isCaseIgnorable c with
  | some c =>
      rw [hfind, Option.some_or] at h
      exact h
  | none =>
      rw [hfind, Option.none_or] at h
      cases hnext : more.find? fun c => !isCaseIgnorable c with
      | none =>
          rw [hnext] at h
          cases h
      | some c =>
          rw [hnext, Option.any_some, hmore c (List.mem_of_find?_eq_some hnext)] at h
          cases h

/-! ## Capital sigmas -/

/-- No capital sigma of `cs`, before which stands `before`, becomes final where the text breaks
off before `rest`. -/
def KeepsSigma (before cs rest : List Char) : Prop :=
  ∀ front back, cs = front ++ 'Σ' :: back → startsCased (front.reverse ++ before) = true →
    startsCased (back ++ rest) = true → startsCased back = true

theorem keepsSigma_cons {before cs rest : List Char} {c : Char} :
    KeepsSigma before (c :: cs) rest ↔
      (c = 'Σ' → startsCased before = true → startsCased (cs ++ rest) = true →
        startsCased cs = true) ∧ KeepsSigma (c :: before) cs rest := by
  have hreverse : ∀ front : List Char,
      (c :: front).reverse ++ before = front.reverse ++ c :: before := fun front => by
    rw [List.reverse_cons, List.append_assoc, List.singleton_append]
  constructor
  · intro h
    refine ⟨fun hc => h [] cs (congrArg (· :: cs) hc), fun front back hcs hbefore => ?_⟩
    exact h (c :: front) back (congrArg (c :: ·) hcs) (hreverse front ▸ hbefore)
  · rintro ⟨hhead, htail⟩ (_ | ⟨x, front⟩) back hcs hbefore
    · obtain ⟨rfl, rfl⟩ := List.cons.inj hcs
      exact hhead rfl hbefore
    · obtain ⟨rfl, rfl⟩ := List.cons.inj hcs
      exact htail front back rfl (hreverse front ▸ hbefore)

/-- Both forms of a small sigma are one letter, so the lower cases part at the first sigma whose
form the break changes. The induction is on the beginning, letter by letter. -/
theorem lowercaseAfter_prefix_iff (rest : List Char) : ∀ (cs before : List Char),
    lowercaseAfter before cs <+: lowercaseAfter before (cs ++ rest) ↔ KeepsSigma before cs rest
  | [], before => by
      refine iff_of_true List.nil_prefix fun front back hcs => ?_
      cases front <;> cases hcs
  | c :: cs, before => by
      rw [keepsSigma_cons, ← lowercaseAfter_prefix_iff rest cs (c :: before), List.cons_append,
        lowercaseAfter, lowercaseAfter]
      by_cases hc : c = 'Σ'
      · have hgrows : startsCased cs = true → startsCased (cs ++ rest) = true :=
          fun h => startsCased_append h rest
        simp only [hc, if_true, true_imp_iff]
        cases startsCased before <;> cases hcs : startsCased cs <;>
          cases hrest : startsCased (cs ++ rest) <;> simp_all
      · simp only [hc, if_false, List.prefix_append_right_inj, false_imp_iff, true_and]

theorem lowercase_prefix_iff {w rest : String} :
    (lowercase w).toList <+: (lowercase (w ++ rest)).toList ↔
      KeepsSigma [] w.toList rest.toList := by
  rw [lowercase, lowercase, String.toList_ofList, String.toList_ofList, String.toList_append]
  exact lowercaseAfter_prefix_iff rest.toList w.toList []

/-- A block of the text keeps its capital sigmas as the text does, if no letter stands between the
end of the block and the break, and a block that is longer goes on with what follows there. -/
theorem KeepsSigma.of_block {front block tail rest extra more : List Char}
    (h : KeepsSigma [] (front ++ block ++ tail) rest) (hextra : tail ++ rest = extra ++ more)
    (htail : ∀ c ∈ tail, isAlphanumeric c = false) : KeepsSigma [] block extra := by
  rintro start back rfl hbefore hafter
  have huncased : ∀ c ∈ tail, isCased c = false := fun c hc =>
    Bool.eq_false_iff.mpr fun hcased =>
      Bool.false_ne_true ((htail c hc).symm.trans (isAlphanumeric_of_isCased hcased))
  have hbefore' : startsCased ((front ++ start).reverse ++ []) = true := by
    rw [List.reverse_append, List.append_nil]
    exact startsCased_append (by simpa using hbefore) front.reverse
  have hafter' : startsCased ((back ++ tail) ++ rest) = true := by
    rw [List.append_assoc, hextra, ← List.append_assoc]
    exact startsCased_append hafter more
  exact startsCased_of_append (h (front ++ start) (back ++ tail) (by simp) hbefore' hafter')
    huncased

/-! ## Length -/

theorem lowerChar_ne_nil (c : Char) : lowerChar c ≠ [] := by
  rw [lowerChar]
  split
  · exact List.cons_ne_nil _ _
  · split <;> exact List.cons_ne_nil _ _

theorem length_le_lowercaseAfter : ∀ cs before : List Char,
    cs.length ≤ (lowercaseAfter before cs).length
  | [], _ => Nat.zero_le _
  | c :: cs, before => by
      have hletter : 0 < (if c = 'Σ' then
          if (startsCased before && !startsCased cs) = true then ['ς'] else ['σ']
          else lowerChar c).length := by
        refine List.length_pos_iff.mpr ?_
        split
        · split <;> exact List.cons_ne_nil _ _
        · exact lowerChar_ne_nil c
      have htail := length_le_lowercaseAfter cs (c :: before)
      rw [lowercaseAfter, List.length_append, List.length_cons]
      omega

/-- No text gets shorter in lower case. -/
theorem length_le_lowercase (w : String) : w.toList.length ≤ (lowercase w).toList.length := by
  rw [lowercase, String.toList_ofList]
  exact length_le_lowercaseAfter w.toList []

end VaultSearch.Text
