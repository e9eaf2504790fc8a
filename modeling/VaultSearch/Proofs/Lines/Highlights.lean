import VaultSearch.Proofs.Lines.Selection
import VaultSearch.Proofs.TopK.Image

/-!
# What is highlighted in a line

The scan of a line reports the same places of a term whichever way they are
told (`Matching.Reports.mem_iff`), so `Matching.Accepts` can speak of a single
place. `Matching.Anchors` says which one the window hangs on: the first place
of the last term that has any. The marked offsets are those that accepted
places cover inside the window (`highlighted_of_anchor?`), and every line that
is selected is highlighted so (`matchLines_highlighted`), whether or not the
scores of the lines can be compared.
-/

namespace VaultSearch

namespace Matching

variable {m : Matching} {p : TermPattern} {patterns : List TermPattern} {text : List Char}
  {i s t : Nat} {starts starts' : List Nat}

/-! ## Accepted places -/

theorem Reports.apart_of_ne (h : m.Reports p text i starts) (hs : s ∈ starts) (ht : t ∈ starts)
    (hne : s ≠ t) : s + p.chars.length ≤ t ∨ t + p.chars.length ≤ s := by
  have hsymm : Std.Symm fun a b : Nat => a + p.chars.length ≤ b ∨ b + p.chars.length ≤ a :=
    ⟨fun _ _ => Or.symm⟩
  have hpair : starts.Pairwise fun a b => a + p.chars.length ≤ b ∨ b + p.chars.length ≤ a :=
    h.apart.imp Or.inl
  exact hpair.forall hs ht hne

/-- A reported place is in every other list of reported places that has none further left but
those of the first: it would overlap one that both have. -/
theorem Reports.mem_of_before (h : m.Reports p text i starts) (h' : m.Reports p text i starts')
    (hbefore : ∀ t < s, t ∈ starts' → t ∈ starts) (hs : s ∈ starts) : s ∈ starts' := by
  by_contra hnot
  obtain ⟨t, ht, hts, hst⟩ := h'.complete s (h.le s hs) (h.acceptable s hs) hnot
  have hapart := h.apart_of_ne (hbefore t hts ht) hs hts.ne
  omega

theorem Reports.mem_iff (h : m.Reports p text i starts) (h' : m.Reports p text i starts') :
    ∀ s, s ∈ starts ↔ s ∈ starts' := by
  intro s
  induction s using Nat.strong_induction_on with
  | _ s ih =>
      exact ⟨h.mem_of_before h' fun t hts => (ih t hts).mpr,
        h'.mem_of_before h fun t hts => (ih t hts).mp⟩

/-- The term is reported at offset `s`. -/
def Accepts (m : Matching) (p : TermPattern) (text : List Char) (s : Nat) : Prop :=
  ∃ starts, m.Reports p text 0 starts ∧ s ∈ starts

theorem accepts_iff : m.Accepts p text s ↔ s ∈ m.startsOf p text := by
  have hreports := reports_startsOf m p text
  constructor
  · rintro ⟨starts, hstarts, hs⟩
    exact (hstarts.mem_iff hreports s).mp hs
  · intro hs
    exact ⟨_, hreports, hs⟩

theorem Accepts.acceptable (h : m.Accepts p text s) : m.Acceptable p text s := by
  obtain ⟨starts, hstarts, hs⟩ := h
  exact hstarts.acceptable s hs

/-- An accepted place lies in the text. -/
theorem Accepts.add_le (h : m.Accepts p text s) : s + p.chars.length ≤ text.length :=
  h.acceptable.1.add_le

/-- The text spells the term up to case folding, and exactly where case counts. -/
def Spells (caseSensitive : Bool) (term block : List Char) : Prop :=
  if caseSensitive then block = term else block.map Text.foldCase = term.map Text.foldCase

theorem forall₂_same_iff {term block : List Char} :
    List.Forall₂ (fun a b => m.same a b = true) term block ↔ Spells m.caseSensitive term block := by
  unfold Spells same
  cases m.caseSensitive with
  | true =>
      simp only [if_true, decide_eq_true_eq, List.forall₂_eq_eq_eq]
      exact eq_comm
  | false =>
      simp only [Bool.false_eq_true, if_false, decide_eq_true_eq]
      rw [← List.forall₂_map_left_iff (f := Text.foldCase) (R := fun a b => a = Text.foldCase b),
        ← List.forall₂_map_right_iff (f := Text.foldCase), List.forall₂_eq_eq_eq]
      exact eq_comm

/-- The term is spelled by the characters at its place. -/
theorem SpelledAt.spells (h : m.SpelledAt p text s) :
    Spells m.caseSensitive p.chars ((text.drop s).take p.chars.length) := by
  obtain ⟨front, block, back, rfl, rfl, hblock⟩ := h
  rw [List.drop_left, hblock.length_eq, List.take_left]
  exact forall₂_same_iff.mp hblock

/-! ## Occurrences and the anchor -/

theorem mem_occurrences {o : Occurrence} : o ∈ m.occurrences patterns text ↔
    ∃ p, patterns[o.term]? = some p ∧ m.Accepts p text o.start ∧ o.length = p.chars.length := by
  rw [occurrences_eq, List.mem_flatMap]
  constructor
  · rintro ⟨⟨p, i⟩, hi, ho⟩
    obtain ⟨s, hs, rfl⟩ := List.mem_map.mp ho
    exact ⟨p, List.mem_zipIdx_iff_getElem?.mp hi, accepts_iff.mpr hs, rfl⟩
  · rintro ⟨p, hp, hs, hlen⟩
    refine ⟨(p, o.term), List.mem_zipIdx_iff_getElem?.mpr hp,
      List.mem_map.mpr ⟨o.start, accepts_iff.mp hs, ?_⟩⟩
    rw [← hlen]

/-- The occurrences of a term come from left to right. -/
theorem pairwise_occurrences (m : Matching) (patterns : List TermPattern) (text : List Char) :
    (m.occurrences patterns text).Pairwise fun o o' => o.term = o'.term → o.start < o'.start := by
  rw [occurrences_eq, List.pairwise_flatMap]
  constructor
  · rintro ⟨p, i⟩ -
    refine List.pairwise_map.mpr ((reports_startsOf m p text).apart.imp fun hst _ => ?_)
    have hlen := p.length_pos
    dsimp only at hst ⊢
    omega
  · -- the occurrences of two patterns have different numbers
    have hnumbers : patterns.zipIdx.Pairwise fun x y => x.2 < y.2 := by
      rw [← List.pairwise_map (f := Prod.snd) (R := (· < ·)), List.zipIdx_map_snd]
      exact List.pairwise_lt_range'
    refine hnumbers.imp fun {x y} hxy o ho o' ho' heq => ?_
    obtain ⟨s, -, rfl⟩ := List.mem_map.mp ho
    obtain ⟨s', -, rfl⟩ := List.mem_map.mp ho'
    exact absurd heq hxy.ne

/-- Term `i` is the last one that is accepted in the text, and `s` is its first place. -/
structure Anchors (m : Matching) (patterns : List TermPattern) (text : List Char)
    (i : Fin patterns.length) (s : Nat) : Prop where
  accepted : m.Accepts (patterns.get i) text s
  first : ∀ t, m.Accepts (patterns.get i) text t → s ≤ t
  last : ∀ j, i < j → ∀ t, ¬m.Accepts (patterns.get j) text t

end Matching

namespace LinesMatcher

open Matching (Accepts Anchors Spells)

variable {S : Type} [Score S] {m : LinesMatcher} {matching : Matching}
  {patterns : List TermPattern} {text : List Char} {os : List Occurrence} {a : Occurrence}
  {kind : ExcerptKind}

theorem anchor?_succ (n : Nat) (os : List Occurrence) :
    anchor? (n + 1) os = (os.find? fun o => o.term = n).or (anchor? n os) := by
  rw [anchor?, List.range_succ, List.reverse_append, List.reverse_singleton,
    List.singleton_append, List.findSome?_cons, anchor?]
  cases os.find? fun o => o.term = n <;> rfl

/-- The anchor is the first occurrence of its term, and no later term occurs. -/
theorem of_anchor? : ∀ {n : Nat}, anchor? n os = some a →
    (os.find? fun o => o.term = a.term) = some a ∧ ∀ o ∈ os, o.term < n → o.term ≤ a.term
  | 0, h => by cases h
  | n + 1, h => by
      rw [anchor?_succ] at h
      cases hfind : os.find? fun o => o.term = n with
      | some o =>
          rw [hfind] at h
          obtain rfl := Option.some.inj h
          obtain rfl : o.term = n := by simpa using List.find?_some hfind
          exact ⟨hfind, fun o' _ hlt => Nat.le_of_lt_succ hlt⟩
      | none =>
          rw [hfind] at h
          obtain ⟨hfirst, hlast⟩ := of_anchor? (n := n) h
          refine ⟨hfirst, fun o ho hlt => hlast o ho ?_⟩
          have hne : o.term ≠ n := by simpa using List.find?_eq_none.mp hfind o ho
          omega

theorem exists_anchor? {n : Nat} (hne : os ≠ []) (hlt : ∀ o ∈ os, o.term < n) :
    ∃ a, anchor? n os = some a := by
  obtain ⟨o, ho⟩ := List.exists_mem_of_ne_nil os hne
  by_contra hnone
  rw [← Option.ne_none_iff_exists', not_not, anchor?, List.findSome?_eq_none_iff] at hnone
  have hterm := hnone o.term (List.mem_reverse.mpr (List.mem_range.mpr (hlt o ho)))
  exact List.find?_eq_none.mp hterm o ho (decide_eq_true rfl)

/-- The anchor of a line's occurrences is the first place of the last term that is accepted. -/
theorem anchors_of_anchor?
    (h : anchor? patterns.length (matching.occurrences patterns text) = some a) :
    ∃ i : Fin patterns.length, matching.Anchors patterns text i a.start ∧
      a.length = (patterns.get i).chars.length := by
  obtain ⟨hfirst, hlast⟩ := of_anchor? h
  obtain ⟨p, hp, haccepts, hlen⟩ := Matching.mem_occurrences.mp (List.mem_of_find?_eq_some hfirst)
  obtain ⟨hi, rfl⟩ := List.getElem?_eq_some_iff.mp hp
  refine ⟨⟨a.term, hi⟩, ⟨haccepts, fun t ht => ?_, fun j hj t ht => ?_⟩, hlen⟩
  · -- the occurrences of the term come from left to right
    have hmem : (⟨a.term, t, patterns[a.term].chars.length⟩ : Occurrence) ∈
        matching.occurrences patterns text := Matching.mem_occurrences.mpr ⟨_, hp, ht, rfl⟩
    obtain ⟨-, front, back, hos, hfront⟩ := List.find?_eq_some_iff_append.mp hfirst
    have hpair := Matching.pairwise_occurrences matching patterns text
    rw [hos] at hmem hpair
    rcases List.mem_append.mp hmem with hmem | hmem
    · have hother := hfront _ hmem
      simp at hother
    · rcases List.mem_cons.mp hmem with heq | hmem
      · exact le_of_eq (congrArg Occurrence.start heq.symm)
      · have hlater := List.pairwise_cons.mp (List.pairwise_append.mp hpair).2.1
        exact le_of_lt (hlater.1 _ hmem rfl)
  · have hmem : (⟨j.val, t, (patterns.get j).chars.length⟩ : Occurrence) ∈
        matching.occurrences patterns text :=
      Matching.mem_occurrences.mpr ⟨patterns.get j, List.getElem?_eq_getElem j.2, ht, rfl⟩
    exact absurd (hlast _ hmem j.2) (not_le.mpr hj)

/-! ## Highlighted lines -/

/-- The limit for excerpts of a text. -/
def limitOf (m : LinesMatcher) (kind : ExcerptKind) (text : List Char) : TruncateLimit :=
  m.truncate.limit kind (isWide text)

/-- The marked offsets are those that accepted places cover inside the window around the anchor. -/
structure Highlighted (m : LinesMatcher) (matching : Matching) (patterns : List TermPattern)
    (kind : ExcerptKind) (text : List Char) (i : Fin patterns.length) (col : Nat)
    (positions : List Nat) : Prop where
  anchors : matching.Anchors patterns text i col
  ascending : positions.Pairwise (· < ·)
  mem_iff : ∀ p, p ∈ positions ↔
    (∃ j : Fin patterns.length, ∃ s, matching.Accepts (patterns.get j) text s ∧ s ≤ p ∧
      p < s + (patterns.get j).chars.length) ∧
    col - (m.limitOf kind text).maxPreChars ≤ p ∧
    p < min (col + (patterns.get i).chars.length + (m.limitOf kind text).maxPostChars) text.length

theorem highlighted_of_anchor?
    (h : anchor? patterns.length (matching.occurrences patterns text) = some a) :
    ∃ i, m.Highlighted matching patterns kind text i
      (m.highlight kind patterns.length text (matching.occurrences patterns text)).1
      (m.highlight kind patterns.length text (matching.occurrences patterns text)).2 := by
  obtain ⟨i, hanchors, hlen⟩ := anchors_of_anchor? h
  rw [highlight, h]
  dsimp only
  refine ⟨i, hanchors, List.Pairwise.filter _ List.pairwise_lt_range', fun p => ?_⟩
  have hcovered : ((matching.occurrences patterns text).any fun o => o.covers p) = true ↔
      ∃ j : Fin patterns.length, ∃ s, matching.Accepts (patterns.get j) text s ∧ s ≤ p ∧
        p < s + (patterns.get j).chars.length := by
    simp only [List.any_eq_true, Occurrence.covers, Bool.and_eq_true, decide_eq_true_eq]
    constructor
    · rintro ⟨o, ho, hcovers⟩
      obtain ⟨q, hq, haccepts, hlen⟩ := Matching.mem_occurrences.mp ho
      obtain ⟨hj, rfl⟩ := List.getElem?_eq_some_iff.mp hq
      rw [hlen] at hcovers
      exact ⟨⟨o.term, hj⟩, o.start, haccepts, hcovers⟩
    · rintro ⟨j, s, haccepts, hcovers⟩
      exact ⟨⟨j.val, s, (patterns.get j).chars.length⟩, Matching.mem_occurrences.mpr
        ⟨patterns.get j, List.getElem?_eq_getElem j.2, haccepts, rfl⟩, hcovers⟩
  rw [List.mem_filter, List.mem_range'_1, hcovered, hlen, and_comm, limitOf]
  refine and_congr_right fun _ => ?_
  omega

namespace Highlighted

variable {i : Fin patterns.length} {col : Nat} {positions : List Nat}

theorem lt_length (h : m.Highlighted matching patterns kind text i col positions) {p : Nat}
    (hp : p ∈ positions) : p < text.length := by
  have hwindow := ((h.mem_iff p).mp hp).2.2
  omega

/-- The anchor is marked as a whole. -/
theorem add_mem (h : m.Highlighted matching patterns kind text i col positions) {k : Nat}
    (hk : k < (patterns.get i).chars.length) : col + k ∈ positions := by
  have hle := h.anchors.accepted.add_le
  refine (h.mem_iff _).mpr ⟨⟨i, col, h.anchors.accepted, ?_, ?_⟩, ?_, ?_⟩ <;> omega

end Highlighted

/-- A line that is selected is one of the given lines, with the anchor of its occurrences. -/
theorem exists_of_mem_matchLines {lines : List Line} {queryTerms matchedTerms : List String}
    {topK : Nat} {inPrefixMode : Bool} {l : MatchedLine S}
    (h : l ∈ m.matchLines lines queryTerms matchedTerms topK kind inPrefixMode) :
    ∃ line ∈ lines, (m.matching inPrefixMode).Finds (shownPatterns queryTerms matchedTerms) line ∧
      l = m.present kind (shownPatterns queryTerms matchedTerms).length
        (candidateOf S (m.matching inPrefixMode) (shownPatterns queryTerms matchedTerms) line) := by
  rw [matchLines] at h
  dsimp only at h
  split at h
  · exact absurd h List.not_mem_nil
  · obtain ⟨c, hc, rfl⟩ := List.mem_map.mp h
    rw [foldl_offer] at hc
    obtain ⟨hline, hfinds, hof⟩ := mem_candidates.mp (TopK.mem_of_mem_toSortedList hc)
    exact ⟨c.line, hline, hfinds, by rw [hof]⟩

theorem highlighted_of_mem_matchLines {lines : List Line} {queryTerms matchedTerms : List String}
    {topK : Nat} {inPrefixMode : Bool} {l : MatchedLine S}
    (h : l ∈ m.matchLines lines queryTerms matchedTerms topK kind inPrefixMode) :
    (⟨l.text, l.row⟩ : Line) ∈ lines ∧
      ∃ i, m.Highlighted (m.matching inPrefixMode) (shownPatterns queryTerms matchedTerms) kind
        l.text.toList i l.col l.positions := by
  obtain ⟨line, hline, hfinds, rfl⟩ := exists_of_mem_matchLines h
  obtain ⟨a, ha⟩ := exists_anchor? (Matching.occurrences_ne_nil_iff.mpr hfinds) fun o ho => by
    obtain ⟨p, hp, -⟩ := Matching.mem_occurrences.mp ho
    exact (List.getElem?_eq_some_iff.mp hp).1
  exact ⟨hline, highlighted_of_anchor? ha⟩

/-- A selected line has for its column the first place of the last of its terms, and marked are
just the characters that accepted places cover inside the window around the anchor. They are
characters of the line, the anchor is among them, and each place spells its term. -/
theorem matchLines_highlighted (S : Type) [Score S] (m : LinesMatcher) (lines : List Line)
    (queryTerms matchedTerms : List String) (topK : Nat) (kind : ExcerptKind)
    (inPrefixMode : Bool) :
    let patterns := shownPatterns queryTerms matchedTerms
    let matching := m.matching inPrefixMode
    let best : List (MatchedLine S) :=
      m.matchLines lines queryTerms matchedTerms topK kind inPrefixMode
    patterns.map TermPattern.chars = (shownTerms queryTerms matchedTerms).map String.toList ∧
    ∀ l ∈ best, (⟨l.text, l.row⟩ : Line) ∈ lines ∧
      ∃ i, m.Highlighted matching patterns kind l.text.toList i l.col l.positions ∧
        (∀ p ∈ l.positions, p < l.text.toList.length) ∧ l.col ∈ l.positions ∧
        (∀ k < (patterns.get i).chars.length, l.col + k ∈ l.positions) ∧
        ∀ (j : Fin patterns.length) (s : Nat), matching.Accepts (patterns.get j) l.text.toList s →
          Spells m.caseSensitive (patterns.get j).chars
            ((l.text.toList.drop s).take (patterns.get j).chars.length) := by
  intro patterns matching best
  refine ⟨map_chars_shownPatterns queryTerms matchedTerms, fun l hl => ?_⟩
  obtain ⟨hline, i, h⟩ := highlighted_of_mem_matchLines hl
  exact ⟨hline, i, h, fun p hp => h.lt_length hp, h.add_mem (patterns.get i).length_pos,
    fun k hk => h.add_mem hk, fun j s haccepts => haccepts.acceptable.1.spells⟩

/-- Two terms in a line with characters of two bytes. -/
theorem two_terms_highlighted :
    let m : LinesMatcher := ⟨false, {}⟩
    let terms := ["llo", "wörld"]
    let best : List (MatchedLine Float) :=
      m.matchLines [⟨"Héllo Wörld", 3⟩] terms terms 5 .line false
    best.map (fun l => (l.col, l.positions)) = [(6, [2, 3, 4, 6, 7, 8, 9, 10])] ∧
    ∃ l ∈ best, l.text = "Héllo Wörld" ∧ l.col ∈ l.positions ∧
      ∀ p ∈ l.positions, p < l.text.toList.length := by
  intro m terms best
  have hbest : best.map (fun l => (l.col, l.positions)) = [(6, [2, 3, 4, 6, 7, 8, 9, 10])] := by
    decide +kernel
  obtain ⟨l, hl⟩ : ∃ l, l ∈ best := by
    refine List.exists_mem_of_ne_nil best fun hnil => ?_
    rw [hnil] at hbest
    cases hbest
  obtain ⟨-, hmarks⟩ :=
    matchLines_highlighted Float m [⟨"Héllo Wörld", 3⟩] terms terms 5 .line false
  obtain ⟨hline, -, -, hlt, hcol, -⟩ := hmarks l hl
  exact ⟨hbest, l, hl, congrArg Line.text (List.mem_singleton.mp hline), hcol, hlt⟩

end LinesMatcher

end VaultSearch
