import VaultSearch.Proofs.Lines.Excerpts
import VaultSearch.Proofs.Lines.Highlights

/-!
# Marks that an excerpt loses

The window of the marks reaches `maxPostChars` characters beyond the end of the
anchor, and an excerpt as many beyond its start. An excerpt under the same limit
thus shows just the marks before the end of its own window
(`Highlighted.window_iff`) and loses at most as many as the anchor is long
(`Highlighted.length_lost_le`).
-/

namespace VaultSearch

namespace MatchedLine

variable {S : Type} {line : MatchedLine S} {limit : TruncateLimit}

/-- The marks that the window of an excerpt under the limit does not reach. -/
def lost (line : MatchedLine S) (limit : TruncateLimit) : List Nat :=
  line.positions.filter fun p => line.col + limit.maxPostChars ≤ p

theorem mem_lost {p : Nat} : p ∈ line.lost limit ↔
    p ∈ line.positions ∧ line.col + limit.maxPostChars ≤ p := by
  rw [lost, List.mem_filter, decide_eq_true_eq]

end MatchedLine

namespace LinesMatcher

open MatchedLine (mem_lost)

variable {S : Type} {m : LinesMatcher} {matching : Matching} {patterns : List TermPattern}
  {kind : ExcerptKind} {i : Fin patterns.length} {l : MatchedLine S} {e : Excerpt}
  {limit : TruncateLimit} {first last : Nat}

namespace Highlighted

theorem window_iff (h : m.Highlighted matching patterns kind l.text.toList i l.col l.positions)
    (hcut : l.Cut (m.limitOf kind l.text.toList) e first last) {p : Nat}
    (hp : p ∈ l.positions) : first ≤ p ∧ p < last ↔
      p < l.col + (m.limitOf kind l.text.toList).maxPostChars := by
  have hwindow := ((h.mem_iff p).mp hp).2
  have hlt := h.lt_length hp
  rw [hcut.window]
  omega

/-- What is not lost has its mark in the excerpt. -/
theorem length_positions_add_lost
    (h : m.Highlighted matching patterns kind l.text.toList i l.col l.positions)
    (hcut : l.Cut (m.limitOf kind l.text.toList) e first last) :
    e.positions.length + (l.lost (m.limitOf kind l.text.toList)).length =
      l.positions.length := by
  have hkept : e.positions.length =
      l.positions.countP fun p => ¬l.col + (m.limitOf kind l.text.toList).maxPostChars ≤ p := by
    rw [← hcut.standFor.length_eq, ← List.countP_eq_length_filter]
    refine List.countP_congr fun p hp => ?_
    rw [decide_eq_true_eq, decide_eq_true_eq, not_le]
    exact h.window_iff hcut hp
  rw [hkept, MatchedLine.lost, ← List.countP_eq_length_filter, Nat.add_comm]
  simpa only [decide_eq_true_eq] using (List.length_eq_countP_add_countP
    (fun p => decide (l.col + (m.limitOf kind l.text.toList).maxPostChars ≤ p))).symm

/-- Marks are lost only from the end of the window, over the length of the anchor. -/
theorem lt_of_mem_lost (h : m.Highlighted matching patterns kind l.text.toList i l.col l.positions)
    {p : Nat} (hp : p ∈ l.lost (m.limitOf kind l.text.toList)) :
    p < l.col + (m.limitOf kind l.text.toList).maxPostChars +
      (patterns.get i).chars.length := by
  have hwindow := ((h.mem_iff p).mp (mem_lost.mp hp).1).2.2
  omega

theorem length_lost_le
    (h : m.Highlighted matching patterns kind l.text.toList i l.col l.positions) :
    (l.lost (m.limitOf kind l.text.toList)).length ≤ (patterns.get i).chars.length := by
  have hnodup : (l.lost (m.limitOf kind l.text.toList)).Nodup :=
    (h.ascending.imp fun hlt => hlt.ne).filter _
  have hsub : l.lost (m.limitOf kind l.text.toList) ⊆
      List.range' (l.col + (m.limitOf kind l.text.toList).maxPostChars)
        (patterns.get i).chars.length := fun p hp =>
    List.mem_range'_1.mpr ⟨(mem_lost.mp hp).2, h.lt_of_mem_lost hp⟩
  exact (hnodup.subperm hsub).length_le.trans_eq List.length_range'

end Highlighted

/-- An excerpt of a selected line under the limit of its highlighting shows just the marks before
the end of the excerpt's window. The ones it loses lie at the end of the highlighting's window and
are at most as many as the anchor has characters, and the anchor is shown as a whole if the limit
leaves room for it. -/
theorem matchLines_excerpt (S : Type) [Score S] (m : LinesMatcher) (lines : List Line)
    (queryTerms matchedTerms : List String) (topK : Nat) (kind : ExcerptKind)
    (inPrefixMode : Bool) :
    let patterns := shownPatterns queryTerms matchedTerms
    let best : List (MatchedLine S) :=
      m.matchLines lines queryTerms matchedTerms topK kind inPrefixMode
    ∀ l ∈ best,
      let limit := m.limitOf kind l.text.toList
      let e := l.excerpt limit
      ∃ (i : Fin patterns.length) (first last : Nat),
        m.Highlighted (m.matching inPrefixMode) patterns kind l.text.toList i l.col l.positions ∧
        l.Cut limit e first last ∧
        (∀ p ∈ l.positions, (∃ q ∈ e.positions, l.StandsFor e first last p q) ↔
          p < l.col + limit.maxPostChars) ∧
        e.positions.length + (l.lost limit).length = l.positions.length ∧
        (∀ p ∈ l.lost limit, p < l.col + limit.maxPostChars + (patterns.get i).chars.length) ∧
        (l.lost limit).length ≤ (patterns.get i).chars.length ∧
        ((∀ k < (patterns.get i).chars.length, ∃ q ∈ e.positions,
          l.StandsFor e first last (l.col + k) q) ↔
          (patterns.get i).chars.length ≤ limit.maxPostChars) := by
  intro patterns best l hl limit e
  obtain ⟨-, i, h⟩ := highlighted_of_mem_matchLines hl
  obtain ⟨first, last, hcut⟩ := l.excerpt_cut limit
  have hshown : ∀ p ∈ l.positions, (∃ q ∈ e.positions, l.StandsFor e first last p q) ↔
      p < l.col + limit.maxPostChars := fun p hp =>
    (hcut.exists_standsFor_iff hp).trans (h.window_iff hcut hp)
  refine ⟨i, first, last, h, hcut, hshown, h.length_positions_add_lost hcut,
    fun p => h.lt_of_mem_lost, h.length_lost_le, ?_⟩
  have hpos : 0 < (patterns.get i).chars.length := TermPattern.length_pos _
  constructor
  · intro hall
    have hlast : (patterns.get i).chars.length - 1 < (patterns.get i).chars.length :=
      Nat.sub_one_lt_of_lt hpos
    have hend : l.col + ((patterns.get i).chars.length - 1) < l.col + limit.maxPostChars :=
      (hshown _ (h.add_mem hlast)).mp (hall _ hlast)
    omega
  · intro hroom k hk
    exact (hshown _ (h.add_mem hk)).mpr (by omega)

/-- The second of two places lies in the window of the marks, and beyond the one of the excerpt. -/
theorem second_place_lost :
    let m : LinesMatcher := ⟨false, {}⟩
    let text := "cat " ++ String.ofList (List.replicate 75 'x') ++ " cat"
    let best : List (MatchedLine Float) := m.matchLines [⟨text, 0⟩] ["cat"] ["cat"] 5 .line false
    best.map (fun l => (l.positions, (l.excerpt (m.limitOf .line l.text.toList)).positions)) =
      [([0, 1, 2, 80, 81, 82], [0, 1, 2])] ∧
    ¬∀ l ∈ best, (l.excerpt (m.limitOf .line l.text.toList)).positions.length =
      l.positions.length := by
  constructor <;> decide +kernel

/-- Two characters are too few for the anchor. -/
theorem narrow_window_excerpt :
    let m : LinesMatcher := ⟨false, { narrow := { line := { maxPostChars := 2 } } }⟩
    let best : List (MatchedLine Float) := m.matchLines [⟨"a cat", 0⟩] ["cat"] ["cat"] 5 .line false
    best.map (fun l => (l.positions, l.lost (m.limitOf .line l.text.toList))) =
      [([2, 3, 4], [4])] ∧
    ∃ l ∈ best, (l.excerpt (m.limitOf .line l.text.toList)).positions.length = 2 := by
  intro m best
  have hbest : best.map (fun l => (l.positions, l.lost (m.limitOf .line l.text.toList))) =
      [([2, 3, 4], [4])] := by decide +kernel
  obtain ⟨l, hl⟩ : ∃ l, l ∈ best := by
    refine List.exists_mem_of_ne_nil best fun hnil => ?_
    rw [hnil] at hbest
    cases hbest
  obtain ⟨i, -, -, -, -, -, hlength, -⟩ :=
    matchLines_excerpt Float m [⟨"a cat", 0⟩] ["cat"] ["cat"] 5 .line false l hl
  have hmarks : (l.positions, l.lost (m.limitOf .line l.text.toList)) ∈ [([2, 3, 4], [4])] :=
    hbest ▸ List.mem_map_of_mem hl
  obtain ⟨hpositions, hlost⟩ := Prod.mk.inj (List.mem_singleton.mp hmarks)
  rw [hpositions, hlost] at hlength
  exact ⟨hbest, l, hl, by simpa using hlength⟩

end LinesMatcher

end VaultSearch
