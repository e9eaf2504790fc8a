import VaultSearch.Proofs.Engine.OwnWords
import VaultSearch.Proofs.Text.FinalSigma
import VaultSearch.Proofs.Tokenizer.Shape

/-!
# What a term looks like

Terms are tokens, in lower case unless case counts. Lower case makes no text
shorter, makes no blank of another character and leaves CJK characters as they
are, so that a term has the shape of a token (`WellShaped.lowercase`). Neither
the text nor what a segmenter answers can make a term of a lone character that
is not CJK (`no_lone_characters`).
-/

namespace VaultSearch

namespace Text

/-! ## Lower case -/

/-- The lower case of no run of letters overlaps the blanks. -/
theorem lowerShifts_beside_blanks : ∀ s ∈ lowerShifts.toList, ∀ r ∈ blankRuns.toList,
    r.last < (s.apply s.run.first).toNat ∨ (s.apply s.run.last).toNat < r.first := by
  decide +kernel

theorem isBlank_apply {s : Shift} (hs : s ∈ lowerShifts.toList) {n : Nat}
    (hn : s.run.contains n = true) : isBlank (s.apply n) = false := by
  by_contra hblank
  rw [Bool.not_eq_false] at hblank
  obtain ⟨r, hr⟩ := Option.isSome_iff_exists.mp hblank
  obtain ⟨hfirst, hlast⟩ := Run.le_of_contains (contains_of_findRun? hr)
  have hbounds := (foldAmong_lowerShifts s hs n (Run.mem_points hn)).1
  rcases lowerShifts_beside_blanks s hs r (Array.mem_toList_iff.mpr (mem_of_findRun? hr)) with
    hbefore | hbehind
  · exact absurd (hbefore.trans_le hbounds.1) (not_lt.mpr hlast)
  · exact absurd (hbounds.2.trans_lt hbehind) (not_lt.mpr hfirst)

/-- No letter that has a lower case is CJK. -/
theorem lowerShifts_beside_cjk : ∀ s ∈ lowerShifts.toList, ∀ n ∈ s.run.points,
    isCjk (Char.ofNat n) = false := by
  decide +kernel

theorem lowerChar_of_isCjk {c : Char} (h : isCjk c = true) : lowerChar c = [c] := by
  rw [lowerChar]
  split
  · rename_i hc
    subst hc
    cases h
  · split
    · rename_i s hs
      have hpoint :=
        lowerShifts_beside_cjk s (Array.mem_toList_iff.mpr (mem_of_findRun? hs)) c.toNat
        (Run.mem_points (contains_of_findRun? hs))
      rw [Char.ofNat_toNat, h] at hpoint
      cases hpoint
    · rfl

theorem isBlank_of_mem_lowerChar {c x : Char} (hx : x ∈ lowerChar c) (hblank : isBlank x = true) :
    isBlank c = true := by
  rw [lowerChar] at hx
  split at hx
  · -- the dot above the small i is no blank either
    have hnone : ['i', '\u0307'].any isBlank = false := by decide +kernel
    exact absurd hblank (List.any_eq_false.mp hnone x hx)
  · split at hx
    · rename_i s hs
      have hsmall := isBlank_apply (Array.mem_toList_iff.mpr (mem_of_findRun? hs))
        (contains_of_findRun? hs)
      rw [List.mem_singleton.mp hx, hsmall] at hblank
      cases hblank
    · exact List.mem_singleton.mp hx ▸ hblank

/-- Each character of a text gives at least one of the lower case, and blanks come from blanks. -/
theorem lowercaseAfter_cons (before cs : List Char) (c : Char) : ∃ letter : List Char,
    lowercaseAfter before (c :: cs) = letter ++ lowercaseAfter (c :: before) cs ∧ letter ≠ [] ∧
      ∀ x ∈ letter, isBlank x = true → isBlank c = true := by
  refine ⟨_, rfl, ?_⟩
  split
  · have hsigma : ['ς', 'σ'].any isBlank = false := by decide +kernel
    refine ⟨by split <;> exact List.cons_ne_nil _ _, fun x hx hblank => ?_⟩
    refine absurd hblank (List.any_eq_false.mp hsigma x ?_)
    split at hx
    · exact List.mem_cons.mpr (.inl (List.mem_singleton.mp hx))
    · exact List.mem_cons_of_mem _ hx
  · exact ⟨lowerChar_ne_nil c, fun x => isBlank_of_mem_lowerChar⟩

theorem isBlank_of_head?_lowercaseAfter {before cs : List Char} {x : Char}
    (hx : x ∈ (lowercaseAfter before cs).head?) (hblank : isBlank x = true) :
    ∃ c ∈ cs.head?, isBlank c = true := by
  cases cs with
  | nil => cases hx
  | cons c cs =>
      obtain ⟨letter, hletter, hne, hfrom⟩ := lowercaseAfter_cons before cs c
      rw [hletter, List.head?_append_of_ne_nil _ hne] at hx
      exact ⟨c, rfl, hfrom x (List.mem_of_head? hx) hblank⟩

/-- The induction goes from letter to letter, and the last one is what the text ends in. -/
theorem isBlank_of_getLast?_lowercaseAfter : ∀ {cs before : List Char} {x : Char},
    x ∈ (lowercaseAfter before cs).getLast? → isBlank x = true → ∃ c ∈ cs.getLast?, isBlank c = true
  | [], _, _, hx, _ => by cases hx
  | [c], before, x, hx, hblank => by
      obtain ⟨letter, hletter, -, hfrom⟩ := lowercaseAfter_cons before [] c
      rw [hletter, lowercaseAfter, List.append_nil] at hx
      exact ⟨c, rfl, hfrom x (List.mem_of_getLast? hx) hblank⟩
  | c :: d :: cs, before, x, hx, hblank => by
      obtain ⟨letter, hletter, -, -⟩ := lowercaseAfter_cons before (d :: cs) c
      obtain ⟨next, hnext, hne, -⟩ := lowercaseAfter_cons (c :: before) cs d
      have hrest : lowercaseAfter (c :: before) (d :: cs) ≠ [] := by
        rw [hnext]
        exact List.append_ne_nil_of_left_ne_nil hne _
      rw [hletter, List.getLast?_append_of_ne_nil _ hrest] at hx
      rw [List.getLast?_cons_cons]
      exact isBlank_of_getLast?_lowercaseAfter hx hblank

end Text

open Tokenizer (WellShaped)

/-- Lower case keeps the shape of a word. -/
theorem Tokenizer.WellShaped.lowercase {word : String} (h : WellShaped word.toList) :
    WellShaped (Text.lowercase word).toList := by
  have hlength := Text.length_le_lowercase word
  have hpos := List.length_pos_iff.mpr h.ne_nil
  have hlist : (Text.lowercase word).toList = Text.lowercaseAfter [] word.toList := by
    rw [Text.lowercase, String.toList_ofList]
  refine ⟨fun hnil => ?_, fun x hx => ?_, fun x hx => ?_, fun x hx => ?_⟩
  · rw [hnil, List.length_nil] at hlength
    omega
  · by_contra hblank
    rw [Bool.not_eq_false] at hblank
    obtain ⟨c, hc, hblank⟩ := Text.isBlank_of_head?_lowercaseAfter (hlist ▸ hx) hblank
    exact Bool.false_ne_true ((h.head c hc).symm.trans hblank)
  · by_contra hblank
    rw [Bool.not_eq_false] at hblank
    obtain ⟨c, hc, hblank⟩ := Text.isBlank_of_getLast?_lowercaseAfter (hlist ▸ hx) hblank
    exact Bool.false_ne_true ((h.last c hc).symm.trans hblank)
  · -- only a lone character can have a lone character for its lower case
    rw [hx, List.length_singleton] at hlength
    obtain ⟨c, hc⟩ := List.length_eq_one_iff.mp (show word.toList.length = 1 by omega)
    have hcjk := h.lone c hc
    have hsigma : c ≠ 'Σ' := by
      rintro rfl
      cases hcjk
    rw [hlist, hc, Text.lowercaseAfter, if_neg hsigma, Text.lowerChar_of_isCjk hcjk,
      Text.lowercaseAfter, List.append_nil] at hx
    exact List.singleton_injective hx ▸ hcjk

namespace Engine

variable {e : Engine} {text term : String}

theorem terms_wellShaped (h : term ∈ e.terms text) : WellShaped term.toList := by
  obtain ⟨token, htoken, rfl⟩ := mem_terms.mp h
  have hshape := Tokenizer.wellShaped_of_mem_tokenize htoken
  split
  · exact hshape
  · exact hshape.lowercase

/-- No token of a text is empty, has a blank at either end or is a lone character that is not CJK,
whatever the flags are and whatever the segmenter answers, and no term is, whether case counts or
not. -/
theorem no_lone_characters (text : String) :
    (∀ k : Tokenizer, ∀ token ∈ k.tokenize text, WellShaped token.toList) ∧
    ∀ e : Engine, ∀ term ∈ e.terms text, WellShaped term.toList :=
  ⟨fun _ _ => Tokenizer.wellShaped_of_mem_tokenize, fun _ _ => terms_wellShaped⟩

/-- Nothing of a segmenter that answers with blanks, padded words and lone letters gets through. -/
theorem no_lone_characters_of_odd_words :
    let odd : Segmenter := ⟨true, fun _ _ => .ok ["", " x", " 中\u3000", "İ ", " A b"]⟩
    let e := Engine.new {} (some odd)
    e.tokenizer.tokenize "中文" = ["A b", "中", "中文"] ∧ WellShaped "A b".toList ∧
      "a b" ∈ e.terms "中文" ∧ WellShaped "a b".toList := by
  intro odd e
  have htokens : e.tokenizer.tokenize "中文" = ["A b", "中", "中文"] := by decide +kernel
  have hterm : "a b" ∈ e.terms "中文" := by decide +kernel
  obtain ⟨hshapes, hshapes'⟩ := no_lone_characters "中文"
  exact ⟨htokens, hshapes e.tokenizer _ (htokens ▸ List.mem_cons_self), hterm,
    hshapes' e _ hterm⟩

end Engine

end VaultSearch
