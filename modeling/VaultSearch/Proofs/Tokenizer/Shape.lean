import VaultSearch.Proofs.Tokenizer.Recutting

/-!
# What a token looks like

Segments begin and end with a letter or a number, and the words that are cut from
them have to be meaningful. So whatever the segmenter answers, a token is not empty,
has no blank at its ends and is no lone character unless that is CJK
(`wellShaped_of_mem_tokenize`): each origin of a token gives its own reason.

Not every character of the CJK blocks is a letter or a number. Where a segmenter
cuts one of the others off, it becomes a token that is mere punctuation, and it is
the only kind of token that is (`Origin.letter_or_lone`).
`mere_punctuation_iff_cut_off` says in which texts this can happen.
-/

namespace VaultSearch

open Text

namespace Tokenizer

variable {k : Tokenizer} {text segment word : List Char} {words : List String}

/-! ## Ends of a token -/

/-- A segment has a letter or a number at each end. -/
theorem isAlphanumeric_ends (h : segment ∈ segments text) : segment ≠ [] ∧
    (∀ c ∈ segment.head?, isAlphanumeric c = true) ∧
    ∀ c ∈ segment.getLast?, isAlphanumeric c = true := by
  obtain ⟨hmem, hne⟩ := List.mem_filter.mp h
  obtain ⟨piece, -, rfl⟩ := List.mem_map.mp hmem
  refine ⟨of_decide_eq_true hne, fun c hc => ?_, fun c hc => ?_⟩
  · simpa using head?_trimMatches hc
  · simpa using getLast?_trimMatches hc

/-- Not empty, without blanks at its ends, and more than one character unless that is CJK. -/
structure WellShaped (word : List Char) : Prop where
  ne_nil : word ≠ []
  head : ∀ c ∈ word.head?, isBlank c = false
  last : ∀ c ∈ word.getLast?, isBlank c = false
  lone : ∀ c, word = [c] → isCjk c = true

theorem WellShaped.of_isMeaningful (h : isMeaningful word = true)
    (hhead : ∀ c ∈ word.head?, isBlank c = false)
    (hlast : ∀ c ∈ word.getLast?, isBlank c = false) : WellShaped word where
  ne_nil := ne_nil_of_isMeaningful h
  head := hhead
  last := hlast
  lone := by
    rintro c rfl
    exact h

theorem Origin.wellShaped (h : k.Origin segment word) (hsegment : segment ∈ segments text) :
    WellShaped word := by
  obtain ⟨hne, hhead, hlast⟩ := isAlphanumeric_ends hsegment
  cases h with
  | short hlength hmeaningful =>
      exact .of_isMeaningful hmeaningful (fun c hc => isBlank_of_isAlphanumeric (hhead c hc))
        fun c hc => isBlank_of_isAlphanumeric (hlast c hc)
  | plain hplain hword =>
      have hletters := isAlphanumeric_of_mem_plainWords hword
      exact .of_isMeaningful (isMeaningful_of_mem_plainWords hword)
        (fun c hc => isBlank_of_isAlphanumeric (hletters c (List.mem_of_head? hc)))
        fun c hc => isBlank_of_isAlphanumeric (hletters c (List.mem_of_getLast? hc))
  | found hconsults hwords hw hmeaningful =>
      exact .of_isMeaningful hmeaningful (fun c hc => head?_trimMatches hc)
        fun c hc => getLast?_trimMatches hc
  | whole hconsults hnone =>
      -- nothing was asked of the whole segment, but it went to the segmenter for a CJK character
      refine ⟨hne, fun c hc => isBlank_of_isAlphanumeric (hhead c hc),
        fun c hc => isBlank_of_isAlphanumeric (hlast c hc), ?_⟩
      rintro c rfl
      simpa [consults] using ((Bool.and_eq_true _ _).mp hconsults).2

theorem wellShaped_of_mem_tokenize {text token : String} (h : token ∈ k.tokenize text) :
    WellShaped token.toList := by
  obtain ⟨segment, hsegment, word, hword, rfl⟩ := mem_tokenize.mp h
  rw [String.toList_ofList]
  exact (origin_of_mem_segmentTokens hword).wellShaped hsegment

/-! ## Letters of a token -/

/-- The token is not mere punctuation. -/
def Lettered (token : String) : Prop := ∃ c ∈ token.toList, isAlphanumeric c = true

theorem isMeaningful_of_two_le (c d : Char) (rest : List Char) :
    isMeaningful (c :: d :: rest) = (c :: d :: rest).any isAlphanumeric := rfl

theorem letter_or_lone (h : isMeaningful word = true) :
    (∃ c ∈ word, isAlphanumeric c = true) ∨ ∃ c, word = [c] ∧ isCjk c = true := by
  obtain ⟨c, rest, rfl⟩ := List.exists_cons_of_ne_nil (ne_nil_of_isMeaningful h)
  cases rest with
  | nil => exact .inr ⟨c, rfl, h⟩
  | cons d rest =>
      rw [isMeaningful_of_two_le] at h
      exact .inl (List.any_eq_true.mp h)

/-- Without a letter or a number is only a lone character that the segmenter found. -/
theorem Origin.letter_or_lone (h : k.Origin segment word) (hsegment : segment ∈ segments text) :
    (∃ c ∈ word, isAlphanumeric c = true) ∨ k.consults segment = true ∧ ∃ words,
      k.Answers segment words ∧ ∃ w ∈ words, ∃ c, word = [c] ∧ trim w.toList = [c] ∧
        isCjk c = true := by
  obtain ⟨hne, hhead, -⟩ := isAlphanumeric_ends hsegment
  have hletter : ∃ c ∈ segment, isAlphanumeric c = true :=
    ⟨segment.head hne, List.head_mem hne, hhead _ (List.head?_eq_some_head hne)⟩
  cases h with
  | short hlength hmeaningful => exact .inl hletter
  | plain hplain hword =>
      obtain ⟨c, hc⟩ :=
        List.exists_mem_of_ne_nil _ (ne_nil_of_isMeaningful (isMeaningful_of_mem_plainWords hword))
      exact .inl ⟨c, hc, isAlphanumeric_of_mem_plainWords hword c hc⟩
  | @found words w hconsults hwords hw hmeaningful =>
      refine (Tokenizer.letter_or_lone hmeaningful).imp_right ?_
      rintro ⟨c, hlone, hc⟩
      exact ⟨hconsults, words, hwords, w, hw, c, hlone, hlone, hc⟩
  | whole hconsults hnone => exact .inl hletter

/-- A character that the segmenter cuts off is a token if it is CJK. -/
theorem singleton_mem_tokenize {text : String} (hsegment : segment ∈ segments text.toList)
    (hconsults : k.consults segment = true) (hwords : k.Answers segment words) {w : String}
    (hw : w ∈ words) {c : Char} (hlone : trim w.toList = [c]) (hc : isCjk c = true) :
    String.ofList [c] ∈ k.tokenize text := by
  refine mem_tokenize.mpr ⟨segment, hsegment, [c], ?_, rfl⟩
  rw [segmentTokens, if_pos hconsults]
  refine List.mem_append_right _ (mem_dictionaryWords.mpr (.inl ⟨words, hwords, w, hw, ?_, hlone⟩))
  rw [hlone]
  exact hc

/-- The tokens of a text have letters or numbers exactly if each CJK character that the segmenter
finds on its own is one. -/
theorem forall_lettered_iff {text : String} : (∀ token ∈ k.tokenize text, Lettered token) ↔
    ∀ segment ∈ segments text.toList, k.consults segment = true → ∀ words,
      k.Answers segment words → ∀ w ∈ words, ∀ c, trim w.toList = [c] → isCjk c = true →
        isAlphanumeric c = true := by
  constructor
  · intro h segment hsegment hconsults words hwords w hw c hlone hc
    obtain ⟨x, hx, hletter⟩ := h _ (singleton_mem_tokenize hsegment hconsults hwords hw hlone hc)
    rw [String.toList_ofList] at hx
    exact List.mem_singleton.mp hx ▸ hletter
  · intro h token htoken
    obtain ⟨segment, hsegment, word, hword, rfl⟩ := mem_tokenize.mp htoken
    rw [Lettered, String.toList_ofList]
    rcases (origin_of_mem_segmentTokens hword).letter_or_lone hsegment with
      hletter | ⟨hconsults, words, hwords, w, hw, c, rfl, hlone, hc⟩
    · exact hletter
    · exact ⟨c, List.mem_singleton_self c,
        h segment hsegment hconsults words hwords w hw c hlone hc⟩

end Tokenizer

/-! ## Segmenters that cut up a text -/

namespace Segmenter

/-- The words of a text, one after the other, are the text. -/
def CutsUp (s : Segmenter) : Prop :=
  ∀ hmm text words, s.cut hmm text = .ok words →
    (words.map String.toList).flatten = text.toList

theorem CutsUp.cutsText {s : Segmenter} (h : s.CutsUp) : s.CutsText := by
  intro hmm text words hwords w hw
  rw [← h hmm text words hwords]
  exact List.infix_of_mem_flatten (List.mem_map_of_mem hw)

/-- A segmenter that cuts between any two characters. -/
def letterwise : Segmenter := ⟨true, fun _ text => .ok (text.toList.map String.singleton)⟩

theorem letterwise_cutsUp : letterwise.CutsUp := by
  intro hmm text words hwords
  obtain rfl := Except.ok.inj hwords
  have hlone : String.toList ∘ String.singleton = fun c => [c] :=
    funext fun c => String.toList_singleton c
  rw [List.map_map, hlone, ← List.flatMap_def, List.flatMap_singleton']

end Segmenter

namespace Tokenizer

/-- No blank belongs to a CJK block. -/
theorem isBlank_of_isCjk {c : Char} (h : isCjk c = true) : isBlank c = false := by
  have hpoints : ∀ r ∈ blankRuns.toList, ∀ n ∈ r.points, isCjk (Char.ofNat n) = false := by
    decide +kernel
  by_contra hblank
  rw [Bool.not_eq_false] at hblank
  have hout := forall_onRuns (P := fun c => isCjk c = false) hpoints hblank
  exact Bool.false_ne_true (hout.symm.trans h)

theorem trim_singleton {c : Char} (h : isBlank c = false) : trim [c] = [c] := by
  simp [trim, trimMatches, h]

theorem forall_cutsUp_lettered_iff (cjkPatch useHmm : Bool) (text : String) :
    (∀ s : Segmenter, s.CutsUp →
      ∀ token ∈ (Tokenizer.mk (some s) cjkPatch useHmm).tokenize text, Lettered token) ↔
    (cjkPatch = true → ∀ segment ∈ segments text.toList, ∀ c ∈ segment, isCjk c = true →
      isAlphanumeric c = true) := by
  constructor
  · intro h hpatch segment hsegment c hc hcjk
    have hconsults :
        (Tokenizer.mk (some .letterwise) cjkPatch useHmm).consults segment = true := by
      rw [consults, hpatch, Bool.true_and]
      exact List.any_eq_true.mpr ⟨c, hc, hcjk⟩
    refine forall_lettered_iff.mp (h .letterwise Segmenter.letterwise_cutsUp) segment hsegment
      hconsults _ ⟨_, rfl, rfl⟩ (String.singleton c) ?_ c ?_ hcjk
    · rw [String.toList_ofList]
      exact List.mem_map_of_mem hc
    · rw [String.toList_singleton, trim_singleton (isBlank_of_isCjk hcjk)]
  · intro h s hs
    refine forall_lettered_iff.mpr ?_
    rintro segment hsegment hconsults words ⟨s', hs', hwords⟩ w hw c hlone hcjk
    obtain rfl := Option.some.inj hs'
    -- what is cut off is a character of the segment
    have hblock : [c] <:+: segment := by
      have hword := hs.cutsText _ _ _ hwords w hw
      rw [String.toList_ofList] at hword
      exact hlone ▸ (infix_trimMatches isBlank w.toList).trans hword
    exact h ((Bool.and_eq_true _ _).mp hconsults).1 segment hsegment c
      (hblock.subset (List.mem_singleton_self c)) hcjk

/-- No token is mere punctuation unless the segmenter finds a CJK character on its own that is no
letter and no number. Of the segmenters that cut up what they are given none makes such a token
exactly if each CJK character inside the segments of the text is a letter or a number, or no
segmenter is asked. -/
theorem mere_punctuation_iff_cut_off (text : String) :
    (∀ k : Tokenizer, (∀ token ∈ k.tokenize text, Lettered token) ↔
      ∀ segment ∈ segments text.toList, k.consults segment = true → ∀ words,
        k.Answers segment words → ∀ w ∈ words, ∀ c, trim w.toList = [c] → isCjk c = true →
          isAlphanumeric c = true) ∧
    ∀ cjkPatch useHmm : Bool,
      (∀ s : Segmenter, s.CutsUp →
        ∀ token ∈ (Tokenizer.mk (some s) cjkPatch useHmm).tokenize text, Lettered token) ↔
      (cjkPatch = true → ∀ segment ∈ segments text.toList, ∀ c ∈ segment, isCjk c = true →
        isAlphanumeric c = true) :=
  ⟨fun _ => forall_lettered_iff, fun cjkPatch useHmm =>
    forall_cutsUp_lettered_iff cjkPatch useHmm text⟩

/-- A dot between two words, cut off by a segmenter that cuts between any two characters. -/
theorem middle_dot_is_a_token :
    Segmenter.letterwise.CutsUp ∧
      "・" ∈ (Tokenizer.mk (some .letterwise) true false).tokenize "ア・イ" ∧ ¬Lettered "・" := by
  refine ⟨Segmenter.letterwise_cutsUp, by decide +kernel, ?_⟩
  rintro ⟨c, hc, hletter⟩
  obtain rfl := List.mem_singleton.mp hc
  exact absurd hletter (by decide +kernel)

end Tokenizer

end VaultSearch
