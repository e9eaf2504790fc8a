import VaultSearch.Proofs.Tokenizer.Humps
import VaultSearch.Proofs.Tokenizer.Segments
import VaultSearch.Text.Words

/-!
# Tokens are parts of lines

Line ends are separators, so the segments of a text are those of its lines
(`flatMap_segments_texts`). A token of a segment is the segment as it stands, one
of its plain words, a word that the segmenter found in it, or all of it because
the segmenter had no answer (`Origin`). Each of these is a block of its characters,
if the segmenter cuts and adds nothing, and hence every token of a text stands in
one of its lines (`exists_text_of_mem_tokenize`).
-/

namespace VaultSearch

/-- The words of a text are blocks of its characters. -/
def Segmenter.CutsText (s : Segmenter) : Prop :=
  ∀ hmm text words, s.cut hmm text = .ok words → ∀ w ∈ words, w.toList <:+: text.toList

/-- What holds of a numbered line holds of a line's text, and the other way round. -/
theorem exists_mem_split_iff {content : String} {P : List Char → Prop} :
    (∃ line ∈ Line.split content, P line.text.toList) ↔ ∃ text ∈ Line.texts content, P text := by
  constructor
  · rintro ⟨line, hline, h⟩
    obtain ⟨⟨text, row⟩, htext, rfl⟩ := List.mem_map.mp hline
    rw [String.toList_ofList] at h
    exact ⟨text, List.fst_mem_of_mem_zipIdx htext, h⟩
  · rintro ⟨text, htext, h⟩
    obtain ⟨row, hrow⟩ := List.mem_iff_getElem?.mp htext
    refine ⟨⟨String.ofList text, row⟩,
      List.mem_map.mpr ⟨(text, row), List.mem_zipIdx_iff_getElem?.mpr hrow, rfl⟩, ?_⟩
    rwa [String.toList_ofList]

namespace Tokenizer

open Text

variable {k : Tokenizer} {p : Char → Bool} {text segment word : List Char}

/-! ## Lines -/

theorem segments_eq_flatMap_splitOnP (hp : ∀ c, p c = true → isSeparator c = true)
    (text : List Char) : segments text = (text.splitOnP p).flatMap segments := by
  induction text using cut_induction (p := p) with
  | whole text hnone => rw [List.splitOnP_eq_singleton hnone, List.flatMap_singleton]
  | cut front c back hc hfront hback =>
      rw [List.splitOnP_append_cons _ _ hc, List.flatMap_append, ← hfront, ← hback,
        segments_append_cons (hp c hc)]

theorem segments_withoutReturn (cs : List Char) :
    segments (Line.withoutReturn cs) = segments cs := by
  rw [Line.withoutReturn]
  split
  · rename_i hlast
    obtain ⟨front, rfl⟩ := List.getLast?_eq_some_iff.mp hlast
    rw [List.dropLast_concat, segments_append_cons (by decide +kernel), segments_nil,
      List.append_nil]
  · rfl

/-- The segments of a text are those of its lines, one line after the other. -/
theorem flatMap_segments_texts (content : String) :
    (Line.texts content).flatMap segments = segments content.toList := by
  have hpieces := segments_eq_flatMap_splitOnP (p := (· = '\n'))
    (fun c hc => by rw [of_decide_eq_true hc]; decide +kernel) content.toList
  rw [hpieces, Line.texts]
  generalize content.toList.splitOnP (· = '\n') = pieces
  rcases List.eq_nil_or_concat pieces with rfl | ⟨init, rest, rfl⟩
  · rfl
  · have hinit : (init.map Line.withoutReturn).flatMap segments = init.flatMap segments := by
      rw [List.flatMap_map]
      exact List.flatMap_congr fun cs _ => segments_withoutReturn cs
    rw [List.concat_eq_append, List.getLast?_concat, List.dropLast_concat, List.flatMap_append,
      List.flatMap_singleton]
    cases rest with
    | nil => rw [hinit, segments_nil, List.append_nil]
    | cons c rest => rw [List.flatMap_append, hinit, List.flatMap_singleton]

/-! ## Origins -/

/-- The segmenter finds these words in the segment. -/
def Answers (k : Tokenizer) (segment : List Char) (words : List String) : Prop :=
  ∃ s ∈ k.segmenter, s.cut k.useHmm (String.ofList segment) = .ok words

theorem mem_dictionaryWords : word ∈ k.dictionaryWords segment ↔
    (∃ words, k.Answers segment words ∧
      ∃ w ∈ words, isMeaningful (trim w.toList) = true ∧ trim w.toList = word) ∨
    word = segment ∧ ∀ words, ¬k.Answers segment words := by
  have hanswers : ∀ words, k.Answers segment words ↔
      k.segmenter.elim (.error .segmenterUnavailable)
        (fun s => s.cut k.useHmm (String.ofList segment)) = .ok words := by
    intro words
    cases hs : k.segmenter <;> simp [Answers, hs]
  simp only [hanswers, dictionaryWords]
  cases k.segmenter with
  | none => simp
  | some s =>
      simp only [Option.elim_some]
      cases s.cut k.useHmm (String.ofList segment) with
      | error f => simp
      | ok found =>
          simp only [Except.ok.injEq, List.mem_filter, List.mem_map]
          grind

/-- The ways in which a word is a token of a segment. -/
inductive Origin (k : Tokenizer) (segment : List Char) : List Char → Prop where
  | short (hlength : segment.length < rawLimit) (hmeaningful : isMeaningful segment = true) :
      Origin k segment segment
  | plain {word : List Char} (hplain : k.consults segment = false)
      (hword : word ∈ plainWords segment) : Origin k segment word
  | found {words : List String} {w : String} (hconsults : k.consults segment = true)
      (hwords : k.Answers segment words) (hw : w ∈ words)
      (hmeaningful : isMeaningful (trim w.toList) = true) : Origin k segment (trim w.toList)
  | whole (hconsults : k.consults segment = true) (hnone : ∀ words, ¬k.Answers segment words) :
      Origin k segment segment

theorem origin_of_mem_segmentTokens (h : word ∈ k.segmentTokens segment) :
    k.Origin segment word := by
  rw [segmentTokens] at h
  rcases List.mem_append.mp h with h | h
  · split at h
    · rename_i hshort
      rw [Bool.and_eq_true, decide_eq_true_eq] at hshort
      obtain rfl := List.mem_singleton.mp h
      exact .short hshort.1 hshort.2
    · exact absurd h List.not_mem_nil
  · split at h
    · rename_i hconsults
      rcases mem_dictionaryWords.mp h with ⟨words, hwords, w, hw, hmeaningful, rfl⟩ | ⟨rfl, hnone⟩
      · exact .found hconsults hwords hw hmeaningful
      · exact .whole hconsults hnone
    · rename_i hplain
      exact .plain (Bool.eq_false_iff.mpr hplain) h

/-! ## Blocks of a segment -/

theorem infix_of_mem_splitOnP (text : List Char) : ∀ piece ∈ text.splitOnP p, piece <:+: text := by
  induction text using cut_induction (p := p) with
  | whole text hnone =>
      intro piece hpiece
      rw [List.splitOnP_eq_singleton hnone, List.mem_singleton] at hpiece
      exact hpiece ▸ List.infix_refl _
  | cut front x back hx hfront hback =>
      intro piece hpiece
      rw [List.splitOnP_append_cons _ _ hx] at hpiece
      rcases List.mem_append.mp hpiece with hpiece | hpiece
      · exact (hfront piece hpiece).trans (List.prefix_append _ _).isInfix
      · exact (hback piece hpiece).trans
          ((List.suffix_cons x back).trans (List.suffix_append _ _)).isInfix

theorem infix_trimMatches (p : Char → Bool) (cs : List Char) : trimMatches p cs <:+: cs := by
  have htail : trimMatches p cs <+: cs.dropWhile p := by
    rw [trimMatches, ← List.reverse_suffix, List.reverse_reverse]
    exact List.dropWhile_suffix p
  exact htail.isInfix.trans (List.dropWhile_suffix p).isInfix

theorem infix_of_mem_segments (h : segment ∈ segments text) : segment <:+: text := by
  unfold segments at h
  obtain ⟨piece, hpiece, rfl⟩ := List.mem_map.mp (List.mem_filter.mp h).1
  exact (infix_trimMatches _ piece).trans (infix_of_mem_splitOnP text piece hpiece)

/-- The parts of a word in camel case make up the word. -/
theorem flatten_camelParts (w : List Char) : (camelParts w).flatten = w := by
  fun_induction camelParts w with
  | case1 => rfl
  | case2 c => rfl
  | case3 prev c rest parts _ ih => rw [List.flatten_cons, ih, List.singleton_append]
  | case4 prev c rest parts _ ih =>
      have hparts : parts.headD [] ++ parts.tail.flatten = parts.flatten := by
        cases parts <;> rfl
      rw [List.flatten_cons, List.cons_append, hparts, ih]

theorem infix_of_mem_plainWords (h : word ∈ plainWords segment) : word <:+: segment := by
  unfold plainWords at h
  obtain ⟨piece, hpiece, hword⟩ := List.mem_flatMap.mp (List.mem_filter.mp h).1
  have hpart := List.infix_of_mem_flatten hword
  rw [flatten_camelParts] at hpart
  exact hpart.trans (infix_of_mem_splitOnP segment piece (List.mem_filter.mp hpiece).1)

theorem infix_of_mem_segmentTokens (hk : ∀ s ∈ k.segmenter, s.CutsText)
    (h : word ∈ k.segmentTokens segment) : word <:+: segment := by
  cases origin_of_mem_segmentTokens h with
  | short hlength hmeaningful => exact List.infix_refl _
  | plain hplain hword => exact infix_of_mem_plainWords hword
  | @found words w hconsults hwords hw hmeaningful =>
      obtain ⟨s, hs, hcut⟩ := hwords
      have hblock := hk s hs _ _ _ hcut w hw
      rw [String.toList_ofList] at hblock
      exact (infix_trimMatches _ _).trans hblock
  | whole hconsults hnone => exact List.infix_refl _

/-- Every token of a text is a block of one of its lines. -/
theorem exists_text_of_mem_tokenize (hk : ∀ s ∈ k.segmenter, s.CutsText) {content token : String}
    (h : token ∈ k.tokenize content) : ∃ line ∈ Line.texts content, token.toList <:+: line := by
  obtain ⟨segment, hsegment, word, hword, rfl⟩ := mem_tokenize.mp h
  rw [← flatMap_segments_texts] at hsegment
  obtain ⟨line, hline, hsegment⟩ := List.mem_flatMap.mp hsegment
  rw [String.toList_ofList]
  exact ⟨line, hline,
    (infix_of_mem_segmentTokens hk hword).trans (infix_of_mem_segments hsegment)⟩

end Tokenizer

end VaultSearch
