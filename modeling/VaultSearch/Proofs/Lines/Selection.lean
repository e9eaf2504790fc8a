import Mathlib
import VaultSearch.Proofs.Lines.Scan
import VaultSearch.Proofs.Lines.Score
import VaultSearch.Proofs.TopK.Image

/-!
# The lines that are selected

A line is a candidate if some term has an acceptable place in it
(`Matching.Finds`). The scores of the lines need not be ordered in every
type of scores; where they are, `compareCandidates` orders the candidates,
and the heap keeps the best of them. As no two lines have one row, the
order of the candidates is strict (`Before`), so that there is just one
ranked list of them and the lines that are selected are its first ones,
whatever the order in which the lines come (`matchLines_best`).
-/

namespace VaultSearch

namespace Matching

variable {m : Matching} {patterns : List TermPattern}

/-- One of the terms has an acceptable place in the line. -/
def Finds (m : Matching) (patterns : List TermPattern) (line : Line) : Prop :=
  ∃ p ∈ patterns, ∃ s, m.Acceptable p line.text.toList s

/-- The score of the line. -/
def score (S : Type) [Score S] (m : Matching) (patterns : List TermPattern) (line : Line) : S :=
  LinesMatcher.lineScore patterns (m.occurrences patterns line.text.toList)

theorem occurrences_ne_nil_iff {line : Line} :
    m.occurrences patterns line.text.toList ≠ [] ↔ m.Finds patterns line := by
  have hterm : ∀ x : TermPattern × Nat,
      ((m.startsOf x.1 line.text.toList).map fun s =>
        (⟨x.2, s, x.1.chars.length⟩ : Occurrence)) ≠ [] ↔
        ∃ s, m.Acceptable x.1 line.text.toList s := fun x => by
    rw [ne_eq, List.map_eq_nil_iff]
    exact (reports_startsOf m x.1 line.text.toList).ne_nil_iff
  rw [occurrences_eq, ne_eq, List.flatMap_eq_nil_iff, Finds]
  push Not
  constructor
  · rintro ⟨x, hx, hne⟩
    exact ⟨x.1, List.fst_mem_of_mem_zipIdx hx, (hterm x).mp hne⟩
  · rintro ⟨p, hp, hs⟩
    obtain ⟨i, hi⟩ := List.getElem?_of_mem hp
    exact ⟨(p, i), List.mem_zipIdx_iff_getElem?.mpr hi, (hterm (p, i)).mpr hs⟩

end Matching

namespace LinesMatcher

variable {S : Type} [Score S] {matching : Matching} {patterns : List TermPattern} {line : Line}

/-! ## Candidates -/

/-- The candidate that a line makes. -/
def candidateOf (S : Type) [Score S] (matching : Matching) (patterns : List TermPattern)
    (line : Line) : Candidate S :=
  ⟨line, matching.occurrences patterns line.text.toList, matching.score S patterns line⟩

theorem candidate?_eq_some_iff {c : Candidate S} : candidate? matching patterns line = some c ↔
    matching.Finds patterns line ∧ candidateOf S matching patterns line = c := by
  rw [candidate?, ← Matching.occurrences_ne_nil_iff]
  split
  · rename_i hempty
    rw [List.isEmpty_iff] at hempty
    rw [hempty]
    exact iff_of_false (Option.some_ne_none c).symm fun h => h.1 rfl
  · rename_i hsome
    rw [List.isEmpty_iff] at hsome
    rw [Option.some.injEq]
    exact (and_iff_right hsome).symm

/-- The lines of candidates are the lines that make them. -/
theorem mem_candidates {lines : List Line} {c : Candidate S} :
    c ∈ lines.filterMap (candidate? matching patterns) ↔
      c.line ∈ lines ∧ matching.Finds patterns c.line ∧
        candidateOf S matching patterns c.line = c := by
  rw [List.mem_filterMap]
  constructor
  · rintro ⟨line, hline, hc⟩
    obtain ⟨hfinds, rfl⟩ := candidate?_eq_some_iff.mp hc
    exact ⟨hline, hfinds, rfl⟩
  · rintro ⟨hline, hc⟩
    exact ⟨c.line, hline, candidate?_eq_some_iff.mpr hc⟩

theorem foldl_offer : ∀ (lines : List Line) (best : TopK (Candidate S)),
    lines.foldl (offer matching patterns) best =
      TopK.pushAll compareCandidates best (lines.filterMap (candidate? matching patterns))
  | [], _ => rfl
  | line :: lines, best => by
      rw [List.foldl_cons, foldl_offer lines, offer, List.filterMap_cons]
      cases candidate? (S := S) matching patterns line with
      | none => rfl
      | some c => rfl

/-- The lines of the candidates stand in the order of all lines. -/
theorem sublist_lines (S : Type) [Score S] (matching : Matching) (patterns : List TermPattern) :
    ∀ lines : List Line,
      ((lines.filterMap (candidate? (S := S) matching patterns)).map Candidate.line).Sublist lines
  | [] => .slnil
  | line :: lines => by
      have hrest := sublist_lines S matching patterns lines
      rw [List.filterMap_cons]
      cases hc : candidate? (S := S) matching patterns line with
      | none => exact hrest.cons line
      | some c =>
          obtain ⟨-, rfl⟩ := candidate?_eq_some_iff.mp hc
          exact hrest.cons_cons line

/-! ## The order of candidates -/

theorem isLE_compareCandidates {a b : Candidate S} : (compareCandidates a b).isLE = true ↔
    Score.lt a.score b.score = true ∨
      (Score.lt b.score a.score = false ∧ b.line.row ≤ a.line.row) := by
  rw [compareCandidates]
  cases hab : Score.lt a.score b.score <;> cases hba : Score.lt b.score a.score <;>
    simp [Nat.isLE_compare]

theorem compareCandidates_swap {cs : List (Candidate S)}
    (h : Score.Ordered (cs.map Candidate.score)) {a b : Candidate S} (ha : a ∈ cs) (hb : b ∈ cs) :
    compareCandidates a b = (compareCandidates b a).swap := by
  rw [compareCandidates, compareCandidates]
  cases hab : Score.lt a.score b.score with
  | true => simp [h.asymm (List.mem_map_of_mem ha) (List.mem_map_of_mem hb) hab]
  | false =>
      cases hba : Score.lt b.score a.score with
      | true => simp
      | false => simp [Nat.compare_swap]

theorem isLE_compareCandidates_trans {cs : List (Candidate S)}
    (h : Score.Ordered (cs.map Candidate.score)) {a b c : Candidate S} (ha : a ∈ cs) (hb : b ∈ cs)
    (hc : c ∈ cs) (hab : (compareCandidates a b).isLE = true)
    (hbc : (compareCandidates b c).isLE = true) : (compareCandidates a c).isLE = true := by
  rw [isLE_compareCandidates] at hab hbc ⊢
  exact h.lex_trans (List.mem_map_of_mem hc) (List.mem_map_of_mem hb) (List.mem_map_of_mem ha)
    le_trans hbc hab

/-- Candidates are ordered where their scores are. -/
theorem transCmp_compareCandidates {cs : List (Candidate S)}
    (h : Score.Ordered (cs.map Candidate.score)) : Std.TransCmp
      (TopK.comparedBy compareCandidates (Subtype.val : {c // c ∈ cs} → Candidate S)) where
  eq_swap {a b} := compareCandidates_swap h a.2 b.2
  isLE_trans {a b c} := isLE_compareCandidates_trans h a.2 b.2 c.2

/-- Line `a` stands before line `b`: it has the better score, or the same rank and the smaller
row. -/
def Before (score : Line → S) (a b : Line) : Prop :=
  Score.lt (score b) (score a) = true ∨
    (Score.lt (score b) (score a) = false ∧ Score.lt (score a) (score b) = false ∧ a.row < b.row)

/-- Of lines with different rows the one whose candidate is no worse stands before the other. -/
theorem before_of_isLE {a b : Line} (hne : a.row ≠ b.row)
    (h : (compareCandidates (candidateOf S matching patterns b)
      (candidateOf S matching patterns a)).isLE = true) :
    Before (matching.score S patterns) a b := by
  rw [isLE_compareCandidates] at h
  cases hlt : Score.lt (matching.score S patterns b) (matching.score S patterns a) with
  | true => exact Or.inl hlt
  | false =>
      rcases h with h | ⟨h, hrow⟩
      · rw [candidateOf, candidateOf, hlt] at h
        cases h
      · exact Or.inr ⟨hlt, h, lt_of_le_of_ne hrow hne⟩

/-! ## The ranked lines -/

/-- All candidates among the lines, a better one first. -/
structure Ranked (S : Type) [Score S] (matching : Matching) (patterns : List TermPattern)
    (lines ranked : List Line) : Prop where
  nodup : ranked.Nodup
  mem_iff : ∀ line, line ∈ ranked ↔ line ∈ lines ∧ matching.Finds patterns line
  sorted : ranked.Pairwise (Before (matching.score S patterns))

/-- There is only one ranked list. -/
theorem Ranked.unique {lines lines' ranked ranked' : List Line}
    (h : Ranked S matching patterns lines ranked)
    (h' : Ranked S matching patterns lines' ranked') (hperm : lines'.Perm lines)
    (hscores : Score.Ordered (lines.map (matching.score S patterns))) : ranked' = ranked := by
  have hsame : ∀ line, line ∈ ranked' ↔ line ∈ ranked := fun line => by
    rw [h.mem_iff, h'.mem_iff, hperm.mem_iff]
  refine List.Perm.eq_of_pairwise (fun a b ha hb hab hba => ?_) h'.sorted h.sorted
    ((List.perm_ext_iff_of_nodup h'.nodup h.nodup).mpr hsame)
  have ha' : a ∈ lines := ((h.mem_iff a).mp ((hsame a).mp ha)).1
  have hb' : b ∈ lines := ((h.mem_iff b).mp hb).1
  exact (hscores.not_lex_both (List.mem_map_of_mem ha') (List.mem_map_of_mem hb') lt_asymm hab
    hba).elim

/-- The lines of the candidates, taken best first, are ranked. -/
theorem ranked_of_descending {lines : List Line} (hrows : (lines.map Line.row).Nodup)
    {best : List (Candidate S)}
    (hperm : best.Perm (lines.filterMap (candidate? matching patterns)))
    (hdesc : TopK.Descending compareCandidates best) :
    Ranked S matching patterns lines (best.map Candidate.line) := by
  have hof : ∀ c ∈ best, c.line ∈ lines ∧ matching.Finds patterns c.line ∧
      candidateOf S matching patterns c.line = c :=
    fun c hc => mem_candidates.mp (hperm.mem_iff.mp hc)
  have hrows' : ((best.map Candidate.line).map Line.row).Nodup :=
    ((hperm.map Candidate.line).map Line.row).nodup_iff.mpr
      (((sublist_lines S matching patterns lines).map Line.row).nodup hrows)
  refine ⟨hrows'.of_map, fun line => ?_, ?_⟩
  · rw [List.mem_map]
    constructor
    · rintro ⟨c, hc, rfl⟩
      exact ⟨(hof c hc).1, (hof c hc).2.1⟩
    · rintro ⟨hline, hfinds⟩
      have hc : candidateOf S matching patterns line ∈ best :=
        hperm.mem_iff.mpr (mem_candidates.mpr ⟨hline, hfinds, rfl⟩)
      exact ⟨_, hc, rfl⟩
  · have hne : best.Pairwise fun a b => a.line.row ≠ b.line.row := by
      rw [List.map_map] at hrows'
      exact List.pairwise_map.mp hrows'
    refine List.pairwise_map.mpr ((hdesc.and hne).imp_of_mem fun {a b} ha hb h => ?_)
    refine before_of_isLE h.2 ?_
    rw [(hof a ha).2.2, (hof b hb).2.2]
    exact h.1

/-- The heap holds the first lines of the ranked list. -/
theorem exists_ranked (topK : Nat) {lines : List Line} (hrows : (lines.map Line.row).Nodup)
    (hscores : Score.Ordered (lines.map (matching.score S patterns))) :
    ∃ ranked, Ranked S matching patterns lines ranked ∧
      (lines.foldl (offer matching patterns)
        ({ capacity := topK } : TopK (Candidate S))).toSortedList
          compareCandidates = (ranked.take topK).map (candidateOf S matching patterns) := by
  have hordered : Score.Ordered
      ((lines.filterMap (candidate? (S := S) matching patterns)).map Candidate.score) :=
    hscores.mono fun x hx => by
      obtain ⟨c, hc, rfl⟩ := List.mem_map.mp hx
      obtain ⟨hline, -, hof⟩ := mem_candidates.mp hc
      rw [← hof]
      exact List.mem_map_of_mem hline
  have htrans := transCmp_compareCandidates hordered
  obtain ⟨best, hperm, hdesc, hbest⟩ := TopK.exists_best_of_members compareCandidates
    (lines.filterMap (candidate? (S := S) matching patterns)) topK
  refine ⟨best.map Candidate.line, ranked_of_descending hrows hperm hdesc, ?_⟩
  rw [foldl_offer, hbest, ← List.map_take, List.map_map]
  refine (List.map_id _).symm.trans (List.map_congr_left fun c hc => ?_)
  obtain ⟨-, -, hof⟩ := mem_candidates.mp (hperm.mem_iff.mp (List.mem_of_mem_take hc))
  exact hof.symm

/-- The lines that are selected are the first ones of the ranked list. -/
theorem matchLines_eq (m : LinesMatcher) (queryTerms matchedTerms : List String) (topK : Nat)
    (kind : ExcerptKind) (inPrefixMode : Bool) {lines : List Line}
    (hrows : (lines.map Line.row).Nodup) (hscores : Score.Ordered
      (lines.map ((m.matching inPrefixMode).score S (shownPatterns queryTerms matchedTerms)))) :
    ∃ ranked, Ranked S (m.matching inPrefixMode) (shownPatterns queryTerms matchedTerms) lines
        ranked ∧
      m.matchLines lines queryTerms matchedTerms topK kind inPrefixMode =
        (ranked.take topK).map fun line =>
          m.present kind (shownPatterns queryTerms matchedTerms).length
            (candidateOf S (m.matching inPrefixMode) (shownPatterns queryTerms matchedTerms)
              line) := by
  obtain ⟨ranked, hranked, hheap⟩ := exists_ranked topK hrows hscores
  refine ⟨ranked, hranked, ?_⟩
  rw [matchLines]
  dsimp only
  split
  · rename_i hnone
    rcases (Bool.or_eq_true _ _).mp hnone with hempty | hzero
    · -- where there are no terms, there are no candidates
      have hnil : ranked = [] := List.eq_nil_iff_forall_not_mem.mpr fun line hline => by
        obtain ⟨-, p, hp, -⟩ := (hranked.mem_iff line).mp hline
        rw [List.isEmpty_iff.mp hempty] at hp
        exact absurd hp List.not_mem_nil
      rw [hnil, List.take_nil, List.map_nil]
    · rw [of_decide_eq_true hzero]
      rfl
  · rw [hheap, List.map_map]
    rfl

/-- The terms that are looked for are those worth showing. -/
theorem map_chars_shownPatterns (queryTerms matchedTerms : List String) :
    (shownPatterns queryTerms matchedTerms).map TermPattern.chars =
      (shownTerms queryTerms matchedTerms).map String.toList := by
  have hsome : ∀ term ∈ shownTerms queryTerms matchedTerms,
      (TermPattern.ofTerm? term).map TermPattern.chars = some term.toList := fun term hterm => by
    have hne : term.toList ≠ [] := by
      rw [shownTerms, List.mem_filter, Bool.and_eq_true, decide_eq_true_eq] at hterm
      exact mt String.toList_eq_nil_iff.mp hterm.2.1
    rw [TermPattern.ofTerm?, dif_neg hne]
    rfl
  rw [shownPatterns, TermPattern.compile, List.map_filterMap, List.filterMap_congr hsome,
    List.filterMap_eq_map']

/-- In binary floating point the scores of all lines are ordered. -/
theorem ordered_scores (matching : Matching) (patterns : List TermPattern) (lines : List Line) :
    Score.Ordered (lines.map (matching.score Float patterns)) := by
  have hordered := ordered_lineScores patterns
    (lines.map fun line => matching.occurrences patterns line.text.toList)
  rwa [List.map_map] at hordered

/-- The lines that are selected are the first ones of the ranked list of all candidates, each with
its text, row and score, and the order in which the lines are given does not matter. The score adds
up the length of each term that occurs and a bonus for each further occurrence. -/
theorem matchLines_best (S : Type) [Score S] (m : LinesMatcher)
    (queryTerms matchedTerms : List String) (topK : Nat) (kind : ExcerptKind) (inPrefixMode : Bool)
    {lines : List Line} (hrows : (lines.map Line.row).Nodup) (hscores : Score.Ordered
      (lines.map ((m.matching inPrefixMode).score S (shownPatterns queryTerms matchedTerms)))) :
    let patterns := shownPatterns queryTerms matchedTerms
    let matching := m.matching inPrefixMode
    let best (lines : List Line) : List (MatchedLine S) :=
      m.matchLines lines queryTerms matchedTerms topK kind inPrefixMode
    patterns.map TermPattern.chars = (shownTerms queryTerms matchedTerms).map String.toList ∧
    (∃ ranked, Ranked S matching patterns lines ranked ∧
      (best lines).map (fun l => (l.text, l.row, l.score)) =
        (ranked.take topK).map fun line => (line.text, line.row, matching.score S patterns line)) ∧
    (∀ lines', lines'.Perm lines → best lines' = best lines) ∧
    ∀ line, let os := matching.occurrences patterns line.text.toList
      (∃ xs : List S, matching.score S patterns line = xs.foldl (· + ·) 0.0 ∧
        xs.Perm (summands S patterns (termsOf os) os)) ∧
      matching.score ℝ patterns line = ((termsOf os).map (termLength patterns)).sum +
        0.01 * ((os.length - (termsOf os).length : Nat) : ℝ) := by
  intro patterns matching best
  obtain ⟨ranked, hranked, hbest⟩ := matchLines_eq m queryTerms matchedTerms topK kind inPrefixMode
    hrows hscores
  refine ⟨map_chars_shownPatterns queryTerms matchedTerms, ⟨ranked, hranked, ?_⟩,
    fun lines' hperm => ?_, fun line => ⟨lineScore_sum S patterns _, lineScore_real patterns _⟩⟩
  · show (m.matchLines lines queryTerms matchedTerms topK kind inPrefixMode).map _ = _
    rw [hbest, List.map_map]
    rfl
  · have hrows' := ((hperm.map Line.row).nodup_iff).mpr hrows
    have hscores' := hscores.mono fun x hx => (hperm.map (matching.score S patterns)).mem_iff.mp hx
    obtain ⟨ranked', hranked', hbest'⟩ := matchLines_eq m queryTerms matchedTerms topK kind
      inPrefixMode hrows' hscores'
    rw [hranked.unique hranked' hperm hscores, ← hbest] at hbest'
    exact hbest'

/-- Two of three lines, in binary floating point. -/
theorem two_of_three_lines :
    let lines : List Line := [⟨"beta beta", 2⟩, ⟨"alphabet", 0⟩, ⟨"alpha beta", 1⟩]
    let terms := ["alpha", "beta"]
    let m : LinesMatcher := ⟨false, {}⟩
    (lines.map Line.row).Nodup ∧
    Score.Ordered (lines.map ((m.matching false).score Float (shownPatterns terms terms))) ∧
    ∀ lines', lines'.Perm lines →
      ((m.matchLines lines' terms terms 2 .line false : List (MatchedLine Float)).map (·.row)) =
        [1, 2] := by
  intro lines terms m
  have hrows : (lines.map Line.row).Nodup := by decide
  have hscores := ordered_scores (m.matching false) (shownPatterns terms terms) lines
  obtain ⟨-, -, horder, -⟩ := matchLines_best Float m terms terms 2 .line false hrows hscores
  refine ⟨hrows, hscores, fun lines' hperm => ?_⟩
  refine (congrArg (List.map (·.row)) (horder lines' hperm)).trans ?_
  decide +kernel

end LinesMatcher

end VaultSearch
