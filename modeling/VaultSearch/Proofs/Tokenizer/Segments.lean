import VaultSearch.Tokenizer

/-!
# Segments stand on their own

A separator ends a segment whatever surrounds it, so a text that is cut at
separators falls apart into texts with the same segments
(`segments_append`). Tokens are made segment by segment, and hence the
tokens of a slice between separators are tokens of the whole text
(`mem_tokenize_of_isSlice`), whatever the segmenter does.
-/

namespace VaultSearch.Tokenizer

variable {k : Tokenizer}

/-- A cut between `front` and `back` goes through no segment: one of them is empty, or a
separator stands beside the cut. -/
def CutsClean (front back : List Char) : Prop :=
  front = [] ∨ back = [] ∨ (∃ c, front.getLast? = some c ∧ isSeparator c = true) ∨
    ∃ c, back.head? = some c ∧ isSeparator c = true

/-- A slice of a text that begins and ends at separators or at the ends of the text. -/
def IsSlice (slice text : List Char) : Prop :=
  ∃ front back, text = front ++ slice ++ back ∧ CutsClean front (slice ++ back) ∧
    CutsClean (front ++ slice) back

@[simp] theorem segments_nil : segments [] = [] := rfl

theorem segments_append_cons {c : Char} (hc : isSeparator c = true) (front back : List Char) :
    segments (front ++ c :: back) = segments front ++ segments back := by
  unfold segments
  rw [List.splitOnP_append_cons front back hc, List.map_append, List.filter_append]

/-- A clean cut divides the segments of a text. -/
theorem segments_append {front back : List Char} (h : CutsClean front back) :
    segments (front ++ back) = segments front ++ segments back := by
  rcases h with rfl | rfl | ⟨c, hlast, hc⟩ | ⟨c, hhead, hc⟩
  · rw [segments_nil, List.nil_append, List.nil_append]
  · rw [segments_nil, List.append_nil, List.append_nil]
  · obtain ⟨front, rfl⟩ := List.getLast?_eq_some_iff.mp hlast
    rw [List.append_assoc, List.singleton_append, segments_append_cons hc,
      segments_append_cons hc front [], segments_nil, List.append_nil]
  · obtain ⟨back, rfl⟩ := List.head?_eq_some_iff.mp hhead
    rw [segments_append_cons hc front back, ← List.nil_append (c :: back),
      segments_append_cons hc [] back, segments_nil, List.nil_append]

/-- What is cut off behind `back` does not matter to the cut before it. -/
theorem CutsClean.of_append {front slice back : List Char} (h : CutsClean front (slice ++ back)) :
    CutsClean front slice := by
  rcases h with hfront | hnil | hlast | ⟨c, hhead, hc⟩
  · exact Or.inl hfront
  · exact Or.inr (Or.inl (List.append_eq_nil_iff.mp hnil).1)
  · exact Or.inr (Or.inr (Or.inl hlast))
  · cases slice with
    | nil => exact Or.inr (Or.inl rfl)
    | cons x slice => exact Or.inr (Or.inr (Or.inr ⟨c, hhead, hc⟩))

theorem segments_subset_of_isSlice {slice text : List Char} (h : IsSlice slice text) :
    segments slice ⊆ segments text := by
  obtain ⟨front, back, rfl, hfront, hback⟩ := h
  rw [segments_append hback, segments_append hfront.of_append]
  intro segment hsegment
  exact List.mem_append_left _ (List.mem_append_right _ hsegment)

theorem mem_tokenize {text token : String} : token ∈ k.tokenize text ↔
    ∃ segment ∈ segments text.toList, ∃ word ∈ k.segmentTokens segment,
      String.ofList word = token := by
  rw [tokenize, Text.mem_distinctSorted, List.mem_map]
  simp only [List.mem_flatMap]
  constructor
  · rintro ⟨word, ⟨segment, hsegment, hword⟩, rfl⟩
    exact ⟨segment, hsegment, word, hword, rfl⟩
  · rintro ⟨segment, hsegment, word, hword, rfl⟩
    exact ⟨word, ⟨segment, hsegment, hword⟩, rfl⟩

theorem mem_tokenize_of_isSlice {slice text : String} (h : IsSlice slice.toList text.toList)
    {token : String} (htoken : token ∈ k.tokenize slice) : token ∈ k.tokenize text := by
  obtain ⟨segment, hsegment, word, hword, rfl⟩ := mem_tokenize.mp htoken
  exact mem_tokenize.mpr ⟨segment, segments_subset_of_isSlice h hsegment, word, hword, rfl⟩

end VaultSearch.Tokenizer
