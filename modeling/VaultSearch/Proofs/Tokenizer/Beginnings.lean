import VaultSearch.Proofs.Tokenizer.Recutting

/-!
# The tokens of the beginning of a token

A text that breaks off is cut as the whole text is, up to the break: the pieces
of its beginning are pieces of the text, and only the last of them may go on
(`splitOnP_append`). The parts of a word in camel case are so as well, except
that the character before the break may begin a part only because of what
follows it (`EndsClearly`). So each token of a beginning of a token is a token
of it, or begins one and ends at the break (`Unsegmented.token_of_beginning`).
-/

namespace VaultSearch.Tokenizer

open Text

variable {k : Tokenizer} {p : Char → Bool} {w rest first : List Char} {pieces : List (List Char)}

/-! ## Pieces -/

/-- The first piece of a text is a beginning of it without a cut. -/
theorem splitOnP_eq_cons (p : Char → Bool) (text : List Char) : ∃ first pieces,
    text.splitOnP p = first :: pieces ∧ first <+: text ∧ ∀ c ∈ first, p c = false := by
  induction text using cut_induction (p := p) with
  | whole text hnone =>
      exact ⟨text, [], List.splitOnP_eq_singleton hnone, List.prefix_refl _, hnone⟩
  | cut front c back hc hfront hback =>
      obtain ⟨first, pieces, hpieces, hfirst, hnone⟩ := hfront
      refine ⟨first, pieces ++ back.splitOnP p, ?_, hfirst.trans (List.prefix_append _ _), hnone⟩
      rw [List.splitOnP_append_cons _ _ hc, hpieces, List.cons_append]

theorem splitOnP_append_of_uncut (hrest : rest.splitOnP p = first :: pieces) :
    ∀ {w : List Char}, (∀ c ∈ w, p c = false) → (w ++ rest).splitOnP p = (w ++ first) :: pieces
  | [], _ => hrest
  | c :: w, h => by
      have hc : ¬p c = true := by rw [h c List.mem_cons_self]; exact Bool.false_ne_true
      rw [List.cons_append, List.splitOnP_cons_eq_if_modifyHead, if_neg hc,
        splitOnP_append_of_uncut hrest fun x hx => h x (List.mem_cons_of_mem c hx)]
      rfl

/-- Where a text goes on, its last piece goes on, and the pieces before it stay. -/
theorem splitOnP_append (hrest : rest.splitOnP p = first :: pieces) (w : List Char) :
    ∃ init last front, w.splitOnP p = init ++ [last] ∧ w = front ++ last ∧
      (w ++ rest).splitOnP p = init ++ (last ++ first) :: pieces := by
  induction w using cut_induction (p := p) with
  | whole w hnone =>
      exact ⟨[], w, [], List.splitOnP_eq_singleton hnone, rfl,
        splitOnP_append_of_uncut hrest hnone⟩
  | cut front c back hc hfront hback =>
      obtain ⟨init, last, before, hinit, rfl, hlonger⟩ := hback
      refine ⟨front.splitOnP p ++ init, last, front ++ c :: before, ?_, by simp, ?_⟩
      · rw [List.splitOnP_append_cons _ _ hc, hinit, List.append_assoc]
      · rw [List.append_assoc, List.cons_append, List.splitOnP_append_cons _ _ hc, hlonger,
          List.append_assoc]

/-! ## Parts -/

/-- Whether a part begins at the last character of `w` does not depend on what follows `w`. -/
def EndsClearly (w rest : List Char) : Prop :=
  ∀ front prev c, w = front ++ [prev, c] → startsPart prev c rest = startsPart prev c []

theorem EndsClearly.of_append {front : List Char} (h : EndsClearly (front ++ w) rest) :
    EndsClearly w rest := by
  rintro before prev c rfl
  exact h (front ++ before) prev c (List.append_assoc ..).symm

/-- The end of `w` is at least as clear when less follows. -/
theorem EndsClearly.of_shorter (h : EndsClearly w rest) (hfirst : first <+: rest) :
    EndsClearly w first := by
  intro front prev c hw
  rw [Bool.eq_iff_iff]
  refine ⟨fun hstarts => ?_, startsPart_mono List.nil_prefix⟩
  rw [← h front prev c hw]
  exact startsPart_mono hfirst hstarts

/-- Without the punctuation at its end a text ends as clearly where a word follows. -/
theorem EndsClearly.of_core {core tail : List Char} (h : EndsClearly (core ++ tail) rest)
    (htail : ∀ c ∈ tail, isAlphanumeric c = false) (hfirst : first <+: tail ++ rest)
    (hletters : ∀ c ∈ first, (!isAlphanumeric c) = false) : EndsClearly core first := by
  cases tail with
  | nil =>
      rw [List.append_nil] at h
      exact h.of_shorter hfirst
  | cons c tail =>
      -- punctuation breaks the word off, and nothing follows it
      have hnil : first = [] := by
        cases first with
        | nil => rfl
        | cons x first =>
            obtain ⟨rfl, -⟩ := List.cons_prefix_cons.mp hfirst
            have hx := hletters x List.mem_cons_self
            rw [htail x List.mem_cons_self] at hx
            cases hx
      rw [hnil]
      exact fun front prev c _ => rfl

/-- Where a word goes on, its last part goes on, and the parts before it stay. The induction is on
the word, from its end, as the parts are found. -/
theorem camelParts_append (c : Char) : ∀ w : List Char, EndsClearly (c :: w) rest →
    ∃ init last extra parts, camelParts (c :: w) = init ++ [last] ∧
      camelParts (c :: (w ++ rest)) = init ++ (last ++ extra) :: parts
  | [], _ => by
      obtain ⟨extra, parts, hparts, -⟩ := camelParts_cons c rest
      exact ⟨[], [c], extra, parts, rfl, hparts⟩
  | x :: w, h => by
      obtain ⟨init, last, extra, parts, hshort, hlong⟩ :=
        camelParts_append x w (@EndsClearly.of_append _ _ [c] h)
      have hstarts : startsPart c x (w ++ rest) = startsPart c x w := by
        cases w with
        | nil => exact h [] c x rfl
        | cons y w => rfl
      rw [List.cons_append, camelParts, camelParts, hstarts, hshort, hlong]
      split
      · exact ⟨[c] :: init, last, extra, parts, rfl, rfl⟩
      · cases init with
        | nil => exact ⟨[], c :: last, extra, parts, rfl, rfl⟩
        | cons part init => exact ⟨(c :: part) :: init, last, extra, parts, rfl, rfl⟩

/-! ## Words -/

theorem isMeaningful_append {word extra : List Char} (h : isMeaningful word = true)
    (hletters : ∀ c ∈ word, isAlphanumeric c = true) : isMeaningful (word ++ extra) = true := by
  by_cases hextra : extra = []
  · rwa [hextra, List.append_nil]
  · obtain ⟨c, word, rfl⟩ := List.exists_cons_of_ne_nil (ne_nil_of_isMeaningful h)
    obtain ⟨x, extra, rfl⟩ := List.exists_cons_of_ne_nil hextra
    have hlong : isMeaningful (c :: (word ++ x :: extra)) =
        (c :: (word ++ x :: extra)).any isAlphanumeric := by
      cases word <;> rfl
    rw [List.cons_append, hlong, List.any_cons, hletters c List.mem_cons_self, Bool.true_or]

/-- Each plain word of a beginning is one of the text, or the beginning of one that stands in the
same place and is broken off. -/
theorem plainWords_append {word : List Char}
    (hrest : rest.splitOnP (fun c => !isAlphanumeric c) = first :: pieces)
    (hclear : EndsClearly w first) (hword : word ∈ plainWords w) :
    word ∈ plainWords (w ++ rest) ∨ ∃ front extra more, w = front ++ word ∧
      first = extra ++ more ∧ word ++ extra ∈ plainWords (w ++ rest) := by
  have hletters := isAlphanumeric_of_mem_plainWords hword
  have hmeaningful := isMeaningful_of_mem_plainWords hword
  have hmem : ∀ {text u}, u ∈ plainWords text ↔ (∃ piece ∈ text.splitOnP fun c =>
      !isAlphanumeric c, piece ≠ [] ∧ u ∈ camelParts piece) ∧ isMeaningful u = true := by
    intro text u
    simp only [plainWords, List.mem_filter, List.mem_flatMap, decide_eq_true_eq, and_assoc]
  obtain ⟨⟨piece, hpiece, hne, hpart⟩, -⟩ := hmem.mp hword
  obtain ⟨init, last, front, hshort, rfl, hlong⟩ := splitOnP_append hrest w
  rw [hshort, List.mem_append, List.mem_singleton] at hpiece
  rcases hpiece with hpiece | rfl
  · refine Or.inl (hmem.mpr ⟨⟨piece, ?_, hne, hpart⟩, hmeaningful⟩)
    exact hlong ▸ List.mem_append_left _ hpiece
  · -- the last piece of the beginning goes on as `piece ++ first`
    have hlonger : piece ++ first ∈
        (front ++ piece ++ rest).splitOnP fun c => !isAlphanumeric c :=
      hlong ▸ List.mem_append_right _ List.mem_cons_self
    have hne' : piece ++ first ≠ [] := List.append_ne_nil_of_left_ne_nil hne first
    obtain ⟨c, v, rfl⟩ := List.exists_cons_of_ne_nil hne
    obtain ⟨inits, part, extra, parts, hparts, hparts'⟩ :=
      camelParts_append c v hclear.of_append
    rw [hparts, List.mem_append, List.mem_singleton] at hpart
    rcases hpart with hpart | rfl
    · refine Or.inl (hmem.mpr ⟨⟨_, hlonger, hne', ?_⟩, hmeaningful⟩)
      rw [List.cons_append, hparts']
      exact List.mem_append_left _ hpart
    · have hflat := flatten_camelParts (c :: v)
      have hflat' := flatten_camelParts (c :: (v ++ first))
      rw [hparts, List.flatten_append, List.flatten_singleton] at hflat
      rw [hparts', List.flatten_append, List.flatten_cons, ← List.cons_append, ← hflat] at hflat'
      refine Or.inr ⟨front ++ inits.flatten, extra, parts.flatten, ?_, ?_, ?_⟩
      · rw [List.append_assoc, hflat]
      · simpa using hflat'.symm
      · refine hmem.mpr ⟨⟨_, hlonger, hne', ?_⟩, isMeaningful_append hmeaningful hletters⟩
        rw [List.cons_append, hparts']
        exact List.mem_append_right _ List.mem_cons_self

/-! ## Tokens -/

/-- The beginning of a segment is a segment, but for punctuation at its end. -/
theorem segments_beginning (hw : w ≠ []) (hsegment : segments (w ++ rest) = [w ++ rest]) :
    ∃ core tail, w = core ++ tail ∧ segments w = [core] ∧
      ∀ c ∈ tail, isAlphanumeric c = false := by
  obtain ⟨piece, hpiece, htrim⟩ := List.mem_map.mp
    (List.mem_filter.mp (hsegment ▸ List.mem_singleton_self (w ++ rest))).1
  have hhead : ∀ c ∈ w.head?, isAlphanumeric c = true := fun c hc => by
    have hfront := mem_head?_of_prefix (List.prefix_append w rest) hc
    rw [← htrim] at hfront
    simpa using head?_trimMatches hfront
  have hsep : ∀ c ∈ w, isSeparator c = false := fun c hc => by
    have hin : c ∈ w ++ rest := List.mem_append_left _ hc
    rw [← htrim] at hin
    exact not_of_mem_splitOnP _ piece hpiece c (mem_of_mem_trimMatches hin)
  have hcore : trimMatches (fun c => !isAlphanumeric c) w =
      w.rdropWhile fun c => !isAlphanumeric c :=
    trimMatches_eq_rdropWhile fun c hc => by rw [hhead c hc]; rfl
  have hne : (w.rdropWhile fun c => !isAlphanumeric c) ≠ [] := by
    intro hnil
    obtain ⟨c, v, rfl⟩ := List.exists_cons_of_ne_nil hw
    have hcut := List.rdropWhile_eq_nil_iff.mp hnil c List.mem_cons_self
    rw [hhead c rfl] at hcut
    cases hcut
  refine ⟨_, w.rtakeWhile fun c => !isAlphanumeric c,
    List.rdropWhile_append_rtakeWhile.symm, ?_, fun c hc => ?_⟩
  · rw [segments_unseparated hsep, hcore, List.filter_singleton, decide_eq_true hne, cond_true]
  · simpa using List.mem_rtakeWhile_imp hc

/-- Without a dictionary each token of a beginning of a token is one of the tokens of this token,
or it begins one that stands in the same place, and only punctuation stands between its end and
that of the beginning. The script has to be the same and the end of the beginning clear. -/
theorem Unsegmented.token_of_beginning (hk : k.Unsegmented) {text typed rest : String}
    (ht : typed ++ rest ∈ k.tokenize text)
    (hscript : (segments typed.toList).any k.consults =
      (segments (typed ++ rest).toList).any k.consults)
    (hclear : EndsClearly typed.toList rest.toList) {u : String} (hu : u ∈ k.tokenize typed) :
    u ∈ k.tokenize (typed ++ rest) ∨ ∃ front tail extra more,
      typed.toList = front ++ u.toList ++ tail ∧ tail ++ rest.toList = extra ++ more ∧
      (∀ c ∈ tail, isAlphanumeric c = false) ∧
      u ++ String.ofList extra ∈ k.tokenize (typed ++ rest) := by
  obtain ⟨hsegment, hself, -⟩ := hk.tokens_of_token ht
  rw [String.toList_append] at hsegment hscript
  have hne : typed.toList ≠ [] := by
    intro hnil
    obtain ⟨segment, hmem, -⟩ := mem_tokenize.mp hu
    rw [hnil] at hmem
    exact List.not_mem_nil hmem
  obtain ⟨core, tail, htyped, hcore, htail⟩ := segments_beginning hne hsegment
  obtain ⟨segment, hmem, word, hword, rfl⟩ := mem_tokenize.mp hu
  obtain rfl : segment = core := by rwa [hcore, List.mem_singleton] at hmem
  rw [String.toList_ofList]
  rcases hk.mem_segmentTokens.mp hword with ⟨rfl, -⟩ | ⟨hplain, hmem⟩
  · -- all that is typed, which the whole token goes on from
    refine Or.inr ⟨[], tail, tail ++ rest.toList, [], htyped, (List.append_nil _).symm, htail, ?_⟩
    rwa [← String.ofList_append, ← List.append_assoc, ← htyped, String.ofList_append,
      String.ofList_toList, String.ofList_toList]
  · have htoken : ∀ v ∈ plainWords (segment ++ (tail ++ rest.toList)),
        String.ofList v ∈ k.tokenize (typed ++ rest) := fun v hv => by
      rw [← List.append_assoc, ← htyped] at hv
      refine mem_tokenize.mpr ⟨typed.toList ++ rest.toList, ?_, v, ?_, rfl⟩
      · rw [String.toList_append, hsegment]
        exact List.mem_singleton_self _
      · simp only [hcore, hsegment, List.any_cons, List.any_nil, Bool.or_false, hplain] at hscript
        exact hk.mem_segmentTokens.mpr (Or.inr ⟨hscript.symm, hv⟩)
    obtain ⟨first, pieces, hpieces, hfirst, hletters⟩ :=
      splitOnP_eq_cons (fun c => !isAlphanumeric c) (tail ++ rest.toList)
    have hends := (htyped ▸ hclear).of_core htail hfirst hletters
    rcases plainWords_append hpieces hends hmem with hmem | ⟨front, extra, more, hfront, hextra, hv⟩
    · exact Or.inl (htoken word hmem)
    · obtain ⟨behind, hbehind⟩ := hfirst
      refine Or.inr ⟨front, tail, extra, more ++ behind, ?_, ?_, htail, ?_⟩
      · rw [htyped, hfront]
      · rw [← hbehind, hextra, List.append_assoc]
      · rw [← String.ofList_append]
        exact htoken _ hv

end VaultSearch.Tokenizer
