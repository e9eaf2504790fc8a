import VaultSearch.Proofs.Text.Folding
import VaultSearch.Proofs.Tokenizer.Parts

/-!
# Tokens are cut no further

A token that is searched for is cut as any text is. A segment is a segment
again (`segments_segment`), and a part of a word in camel case is not cut once
more: what follows a part in its word can begin a new part in it, and never
prevents one (`startsPart_mono`, `camelParts_part`). So without a dictionary a
token is among its own tokens, and all of these are tokens of every text that
has it (`tokens_of_token`). A dictionary may cut a word otherwise when it
stands alone.
-/

namespace VaultSearch

/-! ## Trimming -/

namespace Text

variable {p : Char → Bool} {cs : List Char} {c : Char}

theorem mem_head?_of_prefix {ds : List Char} (h : cs <+: ds) (hc : c ∈ cs.head?) :
    c ∈ ds.head? := by
  obtain ⟨rest, rfl⟩ := h
  cases cs with
  | nil => cases hc
  | cons d cs => exact hc

/-- Where nothing is to be cut off in front, trimming cuts off at the end. -/
theorem trimMatches_eq_rdropWhile (h : ∀ c ∈ cs.head?, p c = false) :
    trimMatches p cs = cs.rdropWhile p := by
  have hfront : cs.dropWhile p = cs := by
    cases cs with
    | nil => rfl
    | cons c cs => exact List.dropWhile_cons_of_neg (by simpa using h c rfl)
  have htrim : trimMatches p cs = (cs.dropWhile p).rdropWhile p := rfl
  rw [htrim, hfront]

theorem head?_trimMatches (hc : c ∈ (trimMatches p cs).head?) : p c = false := by
  have hfront : c ∈ (cs.dropWhile p).head? :=
    mem_head?_of_prefix (List.rdropWhile_prefix p (cs.dropWhile p)) hc
  have hnot := List.head?_dropWhile_not p cs
  rw [Option.mem_def.mp hfront] at hnot
  exact hnot

theorem getLast?_trimMatches (hc : c ∈ (trimMatches p cs).getLast?) : p c = false := by
  rw [trimMatches, List.getLast?_reverse] at hc
  have hnot := List.head?_dropWhile_not p (cs.dropWhile p).reverse
  rw [Option.mem_def.mp hc] at hnot
  exact hnot

theorem trimMatches_idem (p : Char → Bool) (cs : List Char) :
    trimMatches p (trimMatches p cs) = trimMatches p cs := by
  rw [trimMatches_eq_rdropWhile fun c hc => head?_trimMatches hc]
  exact List.rdropWhile_idempotent p (cs.dropWhile p)

/-- No blank is a letter or a number. -/
theorem isAlphanumeric_of_isBlank (h : isBlank c = true) : isAlphanumeric c = false := by
  have hpoints : ∀ r ∈ blankRuns.toList, ∀ n ∈ r.points, isAlphanumeric (Char.ofNat n) = false := by
    decide +kernel
  exact forall_onRuns (P := fun c => isAlphanumeric c = false) hpoints h

theorem isBlank_of_isAlphanumeric (h : isAlphanumeric c = true) : isBlank c = false := by
  by_contra hblank
  rw [Bool.not_eq_false] at hblank
  exact Bool.false_ne_true ((isAlphanumeric_of_isBlank hblank).symm.trans h)

end Text

namespace Tokenizer

open Text

variable {k : Tokenizer} {text segment word : List Char}

/-! ## Segments of a segment -/

theorem any_isAlphanumeric_brackets : brackets.any isAlphanumeric = false := by
  decide +kernel

theorem isAlphanumeric_of_isSeparator {c : Char} (h : isSeparator c = true) :
    isAlphanumeric c = false := by
  rcases (Bool.or_eq_true _ _).mp h with hblank | hbracket
  · exact isAlphanumeric_of_isBlank hblank
  · exact Bool.eq_false_iff.mpr
      (List.any_eq_false.mp any_isAlphanumeric_brackets c (List.contains_iff_mem.mp hbracket))

theorem not_of_mem_splitOnP {p : Char → Bool} (text : List Char) :
    ∀ piece ∈ text.splitOnP p, ∀ c ∈ piece, p c = false := by
  induction text using cut_induction (p := p) with
  | whole text hnone =>
      intro piece hpiece
      rw [List.splitOnP_eq_singleton hnone, List.mem_singleton] at hpiece
      exact hpiece ▸ hnone
  | cut front x back hx hfront hback =>
      intro piece hpiece
      rw [List.splitOnP_append_cons _ _ hx] at hpiece
      exact (List.mem_append.mp hpiece).elim (hfront piece) (hback piece)

/-- A text without separators is one segment, once it is trimmed. -/
theorem segments_unseparated (h : ∀ c ∈ text, isSeparator c = false) :
    segments text = [trimMatches (fun c => !isAlphanumeric c) text].filter (· ≠ []) := by
  rw [segments, List.splitOnP_eq_singleton h, List.map_singleton]

theorem segments_segment (h : segment ∈ segments text) : segments segment = [segment] := by
  obtain ⟨hmem, hne⟩ := List.mem_filter.mp h
  obtain ⟨piece, hpiece, rfl⟩ := List.mem_map.mp hmem
  rw [segments_unseparated fun c hc =>
      not_of_mem_splitOnP text piece hpiece c (mem_of_mem_trimMatches hc),
    trimMatches_idem, List.filter_singleton, hne]
  rfl

theorem segments_alphanumeric (hne : word ≠ []) (h : ∀ c ∈ word, isAlphanumeric c = true) :
    segments word = [word] := by
  have hsep : ∀ c ∈ word, isSeparator c = false := fun c hc => by
    by_contra hcut
    rw [Bool.not_eq_false] at hcut
    exact Bool.false_ne_true ((isAlphanumeric_of_isSeparator hcut).symm.trans (h c hc))
  have hkept : ∀ {c}, c ∈ word → (!isAlphanumeric c) = false := fun hc => by rw [h _ hc]; rfl
  have htrim : trimMatches (fun c => !isAlphanumeric c) word = word := by
    rw [trimMatches_eq_rdropWhile fun c hc => hkept (List.mem_of_head? hc),
      List.rdropWhile_eq_self_iff]
    exact fun hw => Bool.eq_false_iff.mp (hkept (List.getLast_mem hw))
  rw [segments_unseparated hsep, htrim, List.filter_singleton, decide_eq_true hne]
  rfl

/-! ## Parts of a part -/

/-- What follows a capital may make it begin a part, and cannot prevent it. -/
theorem startsPart_mono {prev c : Char} {rest rest' : List Char} (h : rest <+: rest')
    (hstarts : startsPart prev c rest = true) : startsPart prev c rest' = true := by
  rw [startsPart] at hstarts ⊢
  cases rest with
  | nil => simp_all
  | cons x rest =>
      obtain ⟨more, rfl⟩ := h
      exact hstarts

/-- The first part of a word begins with its first letter and goes on as the word does. -/
theorem camelParts_cons (c : Char) : ∀ rest : List Char, ∃ first parts,
    camelParts (c :: rest) = (c :: first) :: parts ∧ first <+: rest
  | [] => ⟨[], [], rfl, List.prefix_refl _⟩
  | x :: rest => by
      rw [camelParts]
      split
      · exact ⟨[], _, rfl, List.nil_prefix⟩
      · obtain ⟨first, parts, hparts, hfirst⟩ := camelParts_cons x rest
        rw [hparts]
        exact ⟨x :: first, parts, rfl, List.cons_prefix_cons.mpr ⟨rfl, hfirst⟩⟩

theorem ne_nil_of_mem_camelParts {w : List Char} (hw : w ≠ []) : ∀ part ∈ camelParts w,
    part ≠ [] := by
  fun_induction camelParts w with
  | case1 => exact absurd rfl hw
  | case2 c => simp
  | case3 prev c rest parts hstarts ih =>
      intro part hpart
      rcases List.mem_cons.mp hpart with rfl | hpart
      · exact List.cons_ne_nil _ _
      · exact ih (List.cons_ne_nil _ _) part hpart
  | case4 prev c rest parts hstarts ih =>
      intro part hpart
      rcases List.mem_cons.mp hpart with rfl | hpart
      · exact List.cons_ne_nil _ _
      · exact ih (List.cons_ne_nil _ _) part (List.mem_of_mem_tail hpart)

/-- A part of a word in camel case has one part. In the step the first part of a word grows by a
letter in front of it; no part begins behind that letter when the rest of the word follows, and
hence none does when only the part follows. -/
theorem camelParts_part (w : List Char) : ∀ part ∈ camelParts w, camelParts part = [part] := by
  fun_induction camelParts w with
  | case1 => simp [camelParts]
  | case2 c => simp [camelParts]
  | case3 prev c rest parts hstarts ih =>
      intro part hpart
      rcases List.mem_cons.mp hpart with rfl | hpart
      · rfl
      · exact ih part hpart
  | case4 prev c rest parts hstarts ih =>
      intro part hpart
      rcases List.mem_cons.mp hpart with rfl | hpart
      · obtain ⟨first, more, hparts, hfirst⟩ := camelParts_cons c rest
        have hwhole : camelParts (c :: first) = [c :: first] :=
          ih _ (hparts ▸ List.mem_cons_self)
        have hjoined : startsPart prev c first = false :=
          Bool.eq_false_iff.mpr fun hcut => hstarts (startsPart_mono hfirst hcut)
        show camelParts (prev :: parts.headD []) = _
        rw [show parts = (c :: first) :: more from hparts, List.headD_cons, camelParts, hjoined,
          hwhole]
        rfl
      · exact ih part (List.mem_of_mem_tail hpart)

theorem isAlphanumeric_of_mem_plainWords (h : word ∈ plainWords segment) :
    ∀ c ∈ word, isAlphanumeric c = true := by
  obtain ⟨piece, hpiece, hpart⟩ := List.mem_flatMap.mp (List.mem_filter.mp h).1
  have hblock := List.infix_of_mem_flatten hpart
  rw [flatten_camelParts] at hblock
  intro c hc
  simpa using not_of_mem_splitOnP segment piece (List.mem_filter.mp hpiece).1 c (hblock.subset hc)

theorem isMeaningful_of_mem_plainWords (h : word ∈ plainWords segment) :
    isMeaningful word = true := by
  rw [plainWords, List.mem_filter] at h
  exact h.2

theorem ne_nil_of_isMeaningful (h : isMeaningful word = true) : word ≠ [] := by
  rintro rfl
  cases h

/-- A plain word is its one plain word. -/
theorem plainWords_of_mem_plainWords (h : word ∈ plainWords segment) :
    plainWords word = [word] := by
  obtain ⟨hpart, hmeaningful⟩ := List.mem_filter.mp h
  obtain ⟨piece, -, hpart⟩ := List.mem_flatMap.mp hpart
  have hwhole : word.splitOnP (fun c => !isAlphanumeric c) = [word] :=
    List.splitOnP_eq_singleton fun c hc => by rw [isAlphanumeric_of_mem_plainWords h c hc]; rfl
  have hne : decide (word ≠ []) = true := decide_eq_true (ne_nil_of_isMeaningful hmeaningful)
  rw [plainWords, hwhole, List.filter_singleton, hne, cond_true, List.flatMap_singleton,
    camelParts_part piece word hpart, List.filter_singleton, hmeaningful, cond_true]

/-! ## Tokens of a token -/

/-- No dictionary cuts a text into words: none is asked, or it never has an answer. -/
def Unsegmented (k : Tokenizer) : Prop :=
  k.cjkPatch = false ∨ ∀ s ∈ k.segmenter, ∀ hmm text, ∃ f, s.cut hmm text = .error f

/-- Without a dictionary a token is a segment as it stands or a plain word of it. -/
theorem Unsegmented.mem_segmentTokens (hk : k.Unsegmented) : word ∈ k.segmentTokens segment ↔
    word = segment ∧ (segment.length < rawLimit ∧ isMeaningful segment = true ∨
      k.consults segment = true) ∨
    k.consults segment = false ∧ word ∈ plainWords segment := by
  have hraw : word ∈ (if (segment.length < rawLimit && isMeaningful segment) = true
      then [segment] else []) ↔
      word = segment ∧ segment.length < rawLimit ∧ isMeaningful segment = true := by
    rw [List.mem_ite_nil_right, List.mem_singleton, Bool.and_eq_true, decide_eq_true_eq, and_comm]
  rw [segmentTokens, List.mem_append, hraw]
  cases hconsults : k.consults segment with
  | true =>
      have hpatch : k.cjkPatch ≠ false := by
        intro hoff
        rw [consults, hoff, Bool.false_and] at hconsults
        cases hconsults
      have hnone : ∀ words, ¬k.Answers segment words := by
        rintro words ⟨s, hs, hcut⟩
        obtain ⟨f, hf⟩ := hk.resolve_left hpatch s hs k.useHmm (String.ofList segment)
        rw [hf] at hcut
        cases hcut
      rw [if_pos rfl, mem_dictionaryWords]
      simp only [hnone, false_and, exists_false, false_or, not_false_iff, implies_true, and_true]
      tauto
  | false =>
      rw [if_neg Bool.false_ne_true]
      simp

/-- A block of a segment asks for a dictionary only if the segment does. -/
theorem consults_of_infix (h : word <:+: segment) (hsegment : k.consults segment = false) :
    k.consults word = false := by
  rw [consults, Bool.and_eq_false_iff] at hsegment ⊢
  refine hsegment.imp_right fun hnone => ?_
  rw [List.any_eq_false] at hnone ⊢
  exact fun c hc => hnone c (h.subset hc)

theorem Unsegmented.tokens_of_token (hk : k.Unsegmented) {text token : String}
    (h : token ∈ k.tokenize text) : segments token.toList = [token.toList] ∧
      token ∈ k.tokenize token ∧ ∀ t ∈ k.tokenize token, t ∈ k.tokenize text := by
  obtain ⟨segment, hsegment, word, hword, rfl⟩ := mem_tokenize.mp h
  simp only [mem_tokenize, String.toList_ofList]
  rcases hk.mem_segmentTokens.mp hword with ⟨rfl, hkept⟩ | ⟨hplain, hmem⟩
  · rw [segments_segment hsegment]
    refine ⟨rfl, ⟨word, List.mem_singleton_self word, word, hword, rfl⟩, ?_⟩
    rintro _ ⟨segment, hmem, w, hw, rfl⟩
    obtain rfl := List.mem_singleton.mp hmem
    exact ⟨segment, hsegment, w, hw, rfl⟩
  · have hmeaningful := isMeaningful_of_mem_plainWords hmem
    have hletters := isAlphanumeric_of_mem_plainWords hmem
    rw [segments_alphanumeric (ne_nil_of_isMeaningful hmeaningful) hletters]
    have hconsults := consults_of_infix (infix_of_mem_plainWords hmem) hplain
    have hself : ∀ w, w ∈ k.segmentTokens word ↔ w = word := fun w => by
      rw [hk.mem_segmentTokens, plainWords_of_mem_plainWords hmem, List.mem_singleton]
      exact ⟨fun h => h.elim And.left And.right, fun h => Or.inr ⟨hconsults, h⟩⟩
    refine ⟨rfl, ⟨word, List.mem_singleton_self word, word, (hself word).mpr rfl, rfl⟩, ?_⟩
    rintro _ ⟨segment', hmem', w, hw, rfl⟩
    obtain rfl := List.mem_singleton.mp hmem'
    obtain rfl := (hself w).mp hw
    exact ⟨segment, hsegment, w, hword, rfl⟩

end Tokenizer

end VaultSearch
