import Mathlib.Data.List.DropRight
import VaultSearch.Proofs.Tokenizer.Segments

/-!
# What letter case does to tokens

Letter case decides where camel case cuts a word before it is folded away.
`humps` says for each character of a text whether camel case begins a part at
it. Two ASCII texts with the same letters up to case and the same humps have
the same tokens up to case (`tokens_alike`).

The proof carries each character together with its hump (`marked`) through the
cuts of the tokenizer. A character that is no letter and no number has no hump
and lets none of its neighbours have one on its account
(`humpsAfter_append_break`), so that every cut at such characters is a cut of
the marked text.
-/

namespace VaultSearch

namespace Text

/-! ## ASCII letters -/

def IsAscii (cs : List Char) : Prop := ∀ c ∈ cs, c.toNat < 128

instance (cs : List Char) : Decidable (IsAscii cs) := List.decidableBAll _ cs

/-- The text with its ASCII capitals made small. -/
def asciiLower (cs : List Char) : List Char := cs.map Char.toLower

theorem forall_ascii {P : Char → Prop} (h : ∀ n < 128, P (Char.ofNat n)) (c : Char)
    (hc : c.toNat < 128) : P c := by
  have hP := h c.toNat hc
  rwa [Char.ofNat_toNat] at hP

/-- What does not tell ASCII capitals from small letters does not tell any characters from
their small letters: no other character changes. -/
theorem toLower_invariant {β : Type} (f : Char → β)
    (h : ∀ n < 128, f (Char.ofNat n).toLower = f (Char.ofNat n)) (c : Char) :
    f c.toLower = f c := by
  by_cases hc : c.toNat < 128
  · exact forall_ascii (P := fun c => f c.toLower = f c) h c hc
  · have hsame : c.toLower = c := by
      unfold Char.toLower
      refine dif_neg fun hle => hc ?_
      exact Nat.lt_of_le_of_lt (UInt32.le_iff_toNat_le.mp hle.2) (by decide)
    rw [hsame]

theorem isAlphanumeric_toLower (c : Char) : isAlphanumeric c.toLower = isAlphanumeric c :=
  toLower_invariant isAlphanumeric (by decide +kernel) c

theorem lowerChar_toLower (c : Char) : lowerChar c.toLower = lowerChar c :=
  toLower_invariant lowerChar (by decide +kernel) c

theorem startsCased_asciiLower (cs : List Char) : startsCased (asciiLower cs) = startsCased cs := by
  have hignorable : ∀ c, (!isCaseIgnorable (Char.toLower c)) = !isCaseIgnorable c :=
    toLower_invariant (fun c => !isCaseIgnorable c) (by decide +kernel)
  have hcased : ∀ c, isCased (Char.toLower c) = isCased c :=
    toLower_invariant isCased (by decide +kernel)
  unfold startsCased asciiLower
  rw [List.find?_map, Option.any_map]
  simp only [Function.comp_def, hignorable, hcased]

theorem lowercaseAfter_asciiLower (cs : List Char) : ∀ before : List Char,
    lowercaseAfter (asciiLower before) (asciiLower cs) = lowercaseAfter before cs := by
  induction cs with
  | nil => exact fun _ => rfl
  | cons c cs ih =>
      intro before
      have hsigma : (c.toLower = 'Σ') = (c = 'Σ') :=
        toLower_invariant (fun c => c = 'Σ') (by decide +kernel) c
      have hrest := ih (c :: before)
      have hafter := startsCased_asciiLower cs
      unfold asciiLower at hrest hafter ⊢
      simp only [List.map_cons, lowercaseAfter, hsigma, lowerChar_toLower] at hrest ⊢
      rw [hrest, hafter, ← asciiLower, startsCased_asciiLower]

/-- The case that is folded away includes that of the ASCII letters. -/
theorem lowercase_eq_of_asciiLower {v w : List Char} (h : asciiLower v = asciiLower w) :
    lowercase (String.ofList v) = lowercase (String.ofList w) := by
  unfold lowercase
  rw [String.toList_ofList, String.toList_ofList, ← lowercaseAfter_asciiLower v [], h,
    lowercaseAfter_asciiLower w []]

end Text

namespace Tokenizer

open Text

variable {k : Tokenizer} {v w : List Char}

theorem isSeparator_toLower (c : Char) : isSeparator c.toLower = isSeparator c :=
  toLower_invariant isSeparator (by decide +kernel) c

theorem isMeaningful_asciiLower (w : List Char) : isMeaningful (asciiLower w) = isMeaningful w := by
  have hcjk : ∀ c, isCjk (Char.toLower c) = isCjk c := toLower_invariant isCjk (by decide +kernel)
  have hany : ∀ w : List Char, (asciiLower w).any isAlphanumeric = w.any isAlphanumeric := by
    intro w
    unfold asciiLower
    rw [List.any_map]
    simp only [Function.comp_def, isAlphanumeric_toLower]
  match w with
  | [] => rfl
  | [c] => exact hcjk c
  | c :: d :: w => exact hany (c :: d :: w)

/-! ## Humps -/

/-- For each character of a text whether camel case begins a part at it; `prev` stands before
the text. -/
def humpsAfter (prev : Char) : List Char → List Bool
  | [] => []
  | c :: rest => startsPart prev c rest :: humpsAfter c rest

/-- The humps of a whole text. No part begins after a blank, so its first character has none. -/
def humps (text : List Char) : List Bool := humpsAfter ' ' text

theorem length_humpsAfter : ∀ (text : List Char) (prev : Char),
    (humpsAfter prev text).length = text.length
  | [], _ => rfl
  | c :: rest, _ => congrArg (· + 1) (length_humpsAfter rest c)

/-- The character has no part in the humps of camel case. -/
structure IsBreak (c : Char) : Prop where
  upper : isUppercase c = false
  lower : isLowercase c = false
  numeric : isNumeric c = false

theorem isBreak_of_not_alphanumeric {c : Char} (hc : c.toNat < 128)
    (h : isAlphanumeric c = false) : IsBreak c := by
  have hletter : isAlphanumeric c = false → isUppercase c = false ∧ isLowercase c = false ∧
      isNumeric c = false :=
    forall_ascii (P := fun c => isAlphanumeric c = false → isUppercase c = false ∧
      isLowercase c = false ∧ isNumeric c = false) (by decide +kernel) c hc
  obtain ⟨hupper, hlower, hnumeric⟩ := hletter h
  exact ⟨hupper, hlower, hnumeric⟩

theorem startsPart_break {c : Char} (hc : IsBreak c) (prev : Char) (rest : List Char) :
    startsPart prev c rest = false := by
  rw [startsPart, hc.upper, Bool.false_and]

theorem startsPart_after_break {c : Char} (hc : IsBreak c) (x : Char) (rest : List Char) :
    startsPart c x rest = false := by
  rw [startsPart, hc.upper, hc.lower, hc.numeric, Bool.false_and, Bool.or_false, Bool.or_false,
    Bool.and_false]

theorem humpsAfter_break {c : Char} (hc : IsBreak c) (text : List Char) :
    humpsAfter c text = humps text := by
  have hblank : IsBreak ' ' := isBreak_of_not_alphanumeric (by decide) (by decide +kernel)
  cases text with
  | nil => rfl
  | cons x rest =>
      rw [humps, humpsAfter, humpsAfter, startsPart_after_break hc, startsPart_after_break hblank]

theorem humpsAfter_append_break {c : Char} (hc : IsBreak c) (front back : List Char) :
    ∀ prev, humpsAfter prev (front ++ c :: back) =
      humpsAfter prev front ++ false :: humps back := by
  induction front with
  | nil =>
      intro prev
      show startsPart prev c back :: humpsAfter c back = false :: humps back
      rw [humpsAfter_break hc, startsPart_break hc]
  | cons x front ih =>
      intro prev
      have hhead : (front ++ c :: back).head?.any isLowercase = front.head?.any isLowercase := by
        cases front with
        | nil => simp [hc.lower]
        | cons y front => rfl
      rw [List.cons_append, humpsAfter, humpsAfter, ih x, startsPart, startsPart, hhead,
        List.cons_append]

/-- Each character, made small, with its hump. -/
def marked (text : List Char) : List (Char × Bool) := (asciiLower text).zip (humps text)

theorem length_humps (text : List Char) : (humps text).length = (asciiLower text).length := by
  rw [humps, length_humpsAfter, asciiLower, List.length_map]

theorem map_fst_marked (text : List Char) : (marked text).map Prod.fst = asciiLower text :=
  List.map_fst_zip (length_humps text).ge

theorem map_snd_marked (text : List Char) : (marked text).map Prod.snd = humps text :=
  List.map_snd_zip (length_humps text).le

@[simp] theorem marked_eq_nil : marked w = [] ↔ w = [] := by
  rw [← List.map_eq_nil_iff (f := Prod.fst), map_fst_marked, asciiLower, List.map_eq_nil_iff]

theorem marked_append_break {c : Char} (hc : IsBreak c) (front back : List Char) :
    marked (front ++ c :: back) = marked front ++ (c.toLower, false) :: marked back := by
  unfold marked
  rw [humps, humpsAfter_append_break hc, ← humps]
  unfold asciiLower
  rw [List.map_append]
  exact List.zip_append (length_humps front).symm

/-! ## Cutting marked texts -/

section Cuts

variable {p : Char → Bool}

/-- A text without a cut is one piece, and any other is two texts about a cut. -/
theorem cut_induction {P : List Char → Prop} (whole : ∀ text, (∀ c ∈ text, p c = false) → P text)
    (cut : ∀ front c back, p c = true → P front → P back → P (front ++ c :: back))
    (text : List Char) : P text := by
  induction hlen : text.length using Nat.strong_induction_on generalizing text with
  | _ n ih =>
    by_cases hcut : ∃ c ∈ text, p c
    · obtain ⟨c, hc, hpc⟩ := hcut
      obtain ⟨front, back, rfl⟩ := List.append_of_mem hc
      rw [List.length_append, List.length_cons] at hlen
      exact cut front c back hpc (ih front.length (by omega) front rfl)
        (ih back.length (by omega) back rfl)
    · exact whole text (by simpa using hcut)

theorem mem_of_mem_splitOnP (text : List Char) :
    ∀ piece ∈ text.splitOnP p, ∀ c ∈ piece, c ∈ text := by
  induction text using cut_induction (p := p) with
  | whole text hnone =>
      intro piece hpiece c hc
      rw [List.splitOnP_eq_singleton hnone, List.mem_singleton] at hpiece
      exact hpiece ▸ hc
  | cut front x back hx hfront hback =>
      intro piece hpiece c hc
      rw [List.splitOnP_append_cons _ _ hx] at hpiece
      rcases List.mem_append.mp hpiece with hpiece | hpiece
      · exact List.mem_append_left _ (hfront piece hpiece c hc)
      · exact List.mem_append_right _ (List.mem_cons_of_mem x (hback piece hpiece c hc))

/-- A cut at breaks cuts the marked text. -/
theorem map_marked_splitOnP (hp : ∀ c, p c.toLower = p c) (text : List Char)
    (hbreak : ∀ c ∈ text, p c → IsBreak c) :
    (text.splitOnP p).map marked = (marked text).splitOnP (p ∘ Prod.fst) := by
  induction text using cut_induction (p := p) with
  | whole text hnone =>
      rw [List.splitOnP_eq_singleton hnone, List.splitOnP_eq_singleton]
      · rfl
      · intro m hm
        have hfst : m.1 ∈ asciiLower text := by
          rw [← map_fst_marked]
          exact List.mem_map_of_mem hm
        obtain ⟨c, hc, heq⟩ := List.mem_map.mp hfst
        rw [Function.comp_apply, ← heq, hp]
        exact hnone c hc
  | cut front c back hc hfront hback =>
      have hmark : (p ∘ Prod.fst) (c.toLower, false) = true := (hp c).trans hc
      rw [List.splitOnP_append_cons _ _ hc, List.map_append,
        hfront fun x hx => hbreak x (by simp [hx]), hback fun x hx => hbreak x (by simp [hx]),
        marked_append_break (hbreak c (by simp) hc), List.splitOnP_append_cons _ _ hmark]

theorem marked_dropWhile (hp : ∀ c, p c.toLower = p c) (text : List Char)
    (hbreak : ∀ c ∈ text, p c → IsBreak c) :
    marked (text.dropWhile p) = (marked text).dropWhile (p ∘ Prod.fst) := by
  induction text with
  | nil => rfl
  | cons c text ih =>
      by_cases hpc : p c
      · have hmark : (p ∘ Prod.fst) (c.toLower, false) = true := (hp c).trans hpc
        have hcons : marked (c :: text) = (c.toLower, false) :: marked text :=
          marked_append_break (hbreak c List.mem_cons_self hpc) [] text
        rw [List.dropWhile_cons_of_pos hpc, hcons, List.dropWhile_cons_of_pos hmark,
          ih fun x hx => hbreak x (List.mem_cons_of_mem c hx)]
      · rw [List.dropWhile_cons_of_neg hpc]
        exact (List.dropWhile_cons_of_neg (by simpa [hp] using hpc)).symm

theorem marked_rdropWhile (hp : ∀ c, p c.toLower = p c) (text : List Char)
    (hbreak : ∀ c ∈ text, p c → IsBreak c) :
    marked (text.rdropWhile p) = (marked text).rdropWhile (p ∘ Prod.fst) := by
  induction text using List.reverseRecOn with
  | nil => rfl
  | append_singleton text c ih =>
      by_cases hpc : p c
      · have hmark : (p ∘ Prod.fst) (c.toLower, false) = true := (hp c).trans hpc
        have hconcat : marked (text ++ [c]) = marked text ++ [(c.toLower, false)] :=
          marked_append_break (hbreak c (by simp) hpc) text []
        rw [List.rdropWhile_concat_pos _ _ _ hpc, hconcat, List.rdropWhile_concat_pos _ _ _ hmark,
          ih fun x hx => hbreak x (List.mem_append_left _ hx)]
      · rw [List.rdropWhile_concat_neg _ _ _ hpc, eq_comm, List.rdropWhile_eq_self_iff]
        intro hne
        have hlast : ((marked (text ++ [c])).getLast hne).1 = c.toLower := by
          rw [← List.getLast_map (f := Prod.fst)]
          · simp [map_fst_marked, asciiLower]
          · simp
        rw [Function.comp_apply, hlast, hp]
        exact hpc

theorem marked_trimMatches (hp : ∀ c, p c.toLower = p c) (text : List Char)
    (hbreak : ∀ c ∈ text, p c → IsBreak c) : marked (trimMatches p text) =
      ((marked text).dropWhile (p ∘ Prod.fst)).rdropWhile (p ∘ Prod.fst) := by
  have htrim : trimMatches p text = (text.dropWhile p).rdropWhile p := rfl
  have hdropped : ∀ c ∈ text.dropWhile p, p c → IsBreak c :=
    fun c hc => hbreak c ((List.dropWhile_sublist p).subset hc)
  rw [htrim, marked_rdropWhile hp _ hdropped, marked_dropWhile hp _ hbreak]

theorem mem_of_mem_trimMatches {text : List Char} {c : Char} (hc : c ∈ trimMatches p text) :
    c ∈ text := by
  unfold trimMatches at hc
  have hdropped := (List.dropWhile_sublist p).subset (List.mem_reverse.mp hc)
  exact (List.dropWhile_sublist p).subset (List.mem_reverse.mp hdropped)

end Cuts

/-! ## Tokens -/

theorem mem_of_mem_segments {text segment : List Char} (hsegment : segment ∈ segments text)
    {c : Char} (hc : c ∈ segment) : c ∈ text := by
  unfold segments at hsegment
  obtain ⟨piece, hpiece, rfl⟩ := List.mem_map.mp (List.mem_filter.mp hsegment).1
  exact mem_of_mem_splitOnP text piece hpiece c (mem_of_mem_trimMatches hc)

theorem isBreak_of_isSeparator {c : Char} (hc : c.toNat < 128) (h : isSeparator c = true) :
    IsBreak c := by
  have halnum : isSeparator c = true → isAlphanumeric c = false :=
    forall_ascii (P := fun c => isSeparator c = true → isAlphanumeric c = false)
      (by decide +kernel) c hc
  exact isBreak_of_not_alphanumeric hc (halnum h)

theorem filter_map_marked (words : List (List Char)) :
    (words.filter (· ≠ [])).map marked = (words.map marked).filter (· ≠ []) := by
  rw [List.filter_map]
  simp [Function.comp_def]

theorem map_marked_segments (hv : IsAscii v) (hw : IsAscii w) (h : marked v = marked w) :
    (segments v).map marked = (segments w).map marked := by
  have hmarked : ∀ text, IsAscii text → (segments text).map marked =
      (((marked text).splitOnP (isSeparator ∘ Prod.fst)).map fun ms =>
        (ms.dropWhile ((fun c => !isAlphanumeric c) ∘ Prod.fst)).rdropWhile
          ((fun c => !isAlphanumeric c) ∘ Prod.fst)).filter (· ≠ []) := by
    intro text htext
    unfold segments
    rw [filter_map_marked, ← map_marked_splitOnP isSeparator_toLower text
      fun c hc => isBreak_of_isSeparator (htext c hc), List.map_map, List.map_map]
    congr 1
    refine List.map_congr_left fun piece hpiece => ?_
    refine marked_trimMatches (fun c => by rw [isAlphanumeric_toLower]) piece fun c hc hcut => ?_
    refine isBreak_of_not_alphanumeric (htext c (mem_of_mem_splitOnP text piece hpiece c hc)) ?_
    simpa using hcut
  rw [hmarked v hv, hmarked w hw, h]

theorem exists_cons_of_asciiLower {c : Char} (h : asciiLower (c :: v) = asciiLower w) :
    ∃ d w', w = d :: w' ∧ c.toLower = d.toLower ∧ asciiLower v = asciiLower w' := by
  cases w with
  | nil => cases h
  | cons d w =>
      obtain ⟨hletter, hletters⟩ := List.cons.inj h
      exact ⟨d, w, rfl, hletter, hletters⟩

/-- Words with the same letters and humps have the same parts up to case. Whether a part begins
at the first letter does not matter. -/
theorem camelParts_alike (v : List Char) : ∀ (w : List Char) (prev prev' : Char),
    asciiLower v = asciiLower w → humpsAfter prev v = humpsAfter prev' w →
      (camelParts v).map asciiLower = (camelParts w).map asciiLower := by
  induction v with
  | nil =>
      intro w prev prev' hletters _
      rw [List.map_eq_nil_iff.mp hletters.symm]
  | cons x v ih =>
      intro w prev prev' hletters hhumps
      obtain ⟨y, w, rfl, hletter, hletters⟩ := exists_cons_of_asciiLower hletters
      have hrest : humpsAfter x v = humpsAfter y w := (List.cons.inj hhumps).2
      have hparts := ih w x y hletters hrest
      cases v with
      | nil =>
          rw [List.map_eq_nil_iff.mp hletters.symm]
          exact congrArg (fun c => [[c]]) hletter
      | cons c v =>
          obtain ⟨d, w, rfl, -, -⟩ := exists_cons_of_asciiLower hletters
          -- the humps at the second letters agree, so both words are cut there or neither is
          have hhump : startsPart x c v = startsPart y d w := (List.cons.inj hrest).1
          have hhead := congrArg (List.headD · (asciiLower [])) hparts
          have htail := congrArg List.tail hparts
          simp only [List.headD_map, ← List.map_tail] at hhead htail
          rw [camelParts, camelParts, hhump]
          split
          · simp only [List.map_cons, hparts]
            exact congrArg (fun c => [c] :: _) hletter
          · simp only [List.map_cons, htail]
            exact congrArg (· :: _) (congrArg₂ List.cons hletter hhead)

/-- Lists with equal images under `f` are alike for every map that `f` determines. -/
theorem flatMap_eq_of_map_eq {α β γ : Type} {f : α → β} {g : α → List γ} :
    ∀ {xs ys : List α}, xs.map f = ys.map f →
      (∀ x ∈ xs, ∀ y ∈ ys, f x = f y → g x = g y) → xs.flatMap g = ys.flatMap g
  | [], [], _, _ => rfl
  | x :: xs, y :: ys, h, hg => by
      obtain ⟨hx, hxs⟩ := List.cons.inj h
      rw [List.flatMap_cons, List.flatMap_cons, hg x List.mem_cons_self y List.mem_cons_self hx,
        flatMap_eq_of_map_eq hxs fun x hx y hy =>
          hg x (List.mem_cons_of_mem _ hx) y (List.mem_cons_of_mem _ hy)]

theorem marked_eq_iff : marked v = marked w ↔
    asciiLower v = asciiLower w ∧ humps v = humps w := by
  constructor
  · intro h
    rw [← map_fst_marked, ← map_fst_marked, ← map_snd_marked, ← map_snd_marked, h]
    exact ⟨rfl, rfl⟩
  · rintro ⟨hletters, hhumps⟩
    rw [marked, marked, hletters, hhumps]

theorem plainWords_alike (hv : IsAscii v) (hw : IsAscii w) (h : marked v = marked w) :
    (plainWords v).map asciiLower = (plainWords w).map asciiLower := by
  have hmeaningful : isMeaningful ∘ asciiLower = isMeaningful := funext isMeaningful_asciiLower
  have hpieces : ∀ text, IsAscii text →
      ((text.splitOnP fun c => !isAlphanumeric c).filter (· ≠ [])).map marked =
        ((marked text).splitOnP ((fun c => !isAlphanumeric c) ∘ Prod.fst)).filter (· ≠ []) := by
    intro text htext
    rw [filter_map_marked, map_marked_splitOnP (fun c => by rw [isAlphanumeric_toLower])]
    intro c hc hcut
    exact isBreak_of_not_alphanumeric (htext c hc) (by simpa using hcut)
  unfold plainWords
  rw [← hmeaningful, ← List.filter_map, ← List.filter_map, List.map_flatMap, List.map_flatMap]
  congr 1
  refine flatMap_eq_of_map_eq (f := marked) ?_ fun x _ y _ hxy => ?_
  · rw [hpieces v hv, hpieces w hw, h]
  · obtain ⟨hletters, hhumps⟩ := marked_eq_iff.mp hxy
    exact camelParts_alike x y ' ' ' ' hletters hhumps

theorem consults_of_isAscii (hv : IsAscii v) : k.consults v = false := by
  have hcjk : ∀ c ∈ v, isCjk c = false :=
    fun c hc => forall_ascii (P := fun c => isCjk c = false) (by decide +kernel) c (hv c hc)
  have hany : v.any isCjk = false := by
    rw [List.any_eq_false]
    intro c hc
    rw [hcjk c hc]
    exact Bool.false_ne_true
  rw [consults, hany, Bool.and_false]

theorem segmentTokens_alike (hv : IsAscii v) (hw : IsAscii w) (h : marked v = marked w) :
    (k.segmentTokens v).map asciiLower = (k.segmentTokens w).map asciiLower := by
  have hletters := (marked_eq_iff.mp h).1
  have hlength : v.length = w.length := by
    have := congrArg List.length hletters
    simpa [asciiLower] using this
  have hmeaningful : isMeaningful v = isMeaningful w := by
    rw [← isMeaningful_asciiLower v, hletters, isMeaningful_asciiLower]
  unfold segmentTokens
  rw [consults_of_isAscii hv, consults_of_isAscii hw, List.map_append, List.map_append, hlength,
    hmeaningful]
  congr 1
  · split
    · exact congrArg (fun l => [l]) hletters
    · rfl
  · exact plainWords_alike hv hw h

/-- ASCII texts with the same letters and humps have the same tokens up to case. -/
theorem tokens_alike (hv : IsAscii v) (hw : IsAscii w) (hletters : asciiLower v = asciiLower w)
    (hhumps : humps v = humps w) : ((segments v).flatMap k.segmentTokens).map asciiLower =
      ((segments w).flatMap k.segmentTokens).map asciiLower := by
  have hmarked := marked_eq_iff.mpr ⟨hletters, hhumps⟩
  rw [List.map_flatMap, List.map_flatMap]
  refine flatMap_eq_of_map_eq (map_marked_segments hv hw hmarked) fun x hx y hy hxy => ?_
  exact segmentTokens_alike (fun c hc => hv c (mem_of_mem_segments hx hc))
    (fun c hc => hw c (mem_of_mem_segments hy hc)) hxy

end Tokenizer

end VaultSearch
