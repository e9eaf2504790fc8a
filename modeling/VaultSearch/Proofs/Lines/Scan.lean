import Mathlib.Data.List.Forall2
import Mathlib.Order.Nat
import VaultSearch.Lines.Occurrence

/-!
# What a scan reports

A term is spelled at some offsets of a line, and where it does not end
inside a word it is acceptable (`Matching.Acceptable`). `Matching.Scans`
tells the scan of a line in character offsets: each search finds the
leftmost place where the term is spelled, a place that is refused is left
by one character and one that is accepted by the whole term.
`scan_byteOffset` shows that the scan in byte offsets does the same, and
that it ends after no more searches than there are characters, and one.

The invariant of the scan speaks of the offsets from the one on that it has
reached (`Reports`): what is reported is acceptable and apart, and each
acceptable place is reported or overlaps one that is reported further left.
`occurrences_report` says it of all terms of a line.
-/

namespace VaultSearch

namespace Matching

variable {m : Matching} {p : TermPattern} {text : List Char} {i j n s t : Nat}
  {starts : List Nat}

/-! ## Where a term may be reported -/

/-- The term is spelled in the text at offset `s`. -/
def SpelledAt (m : Matching) (p : TermPattern) (text : List Char) (s : Nat) : Prop :=
  ∃ front block back, text = front ++ (block ++ back) ∧ front.length = s ∧
    List.Forall₂ (fun a b => m.same a b = true) p.chars block

/-- Outside prefix mode the term does not end in a CJK character, but behind it at
offset `s` stands a letter of another script. -/
def BreaksWord (m : Matching) (p : TermPattern) (text : List Char) (s : Nat) : Prop :=
  m.inPrefixMode = false ∧ (∀ c, p.chars.getLast? = some c → isCjk c = false) ∧
    ∃ c, text[s + p.chars.length]? = some c ∧ Text.isAlphabetic c = true ∧ isCjk c = false

/-- The term is spelled at offset `s` and does not end inside a word. -/
def Acceptable (m : Matching) (p : TermPattern) (text : List Char) (s : Nat) : Prop :=
  m.SpelledAt p text s ∧ ¬m.BreaksWord p text s

theorem begins_iff : ∀ {term text : List Char}, m.begins term text = true ↔
    ∃ block back, text = block ++ back ∧ List.Forall₂ (fun a b => m.same a b = true) term block
  | [], text => by
      rw [begins]
      exact iff_of_true rfl ⟨[], text, rfl, .nil⟩
  | a :: term, [] => by
      rw [begins]
      refine iff_of_false Bool.false_ne_true ?_
      rintro ⟨block, back, htext, hblock⟩
      cases hblock
      cases htext
  | a :: term, b :: text => by
      rw [begins, Bool.and_eq_true, begins_iff]
      constructor
      · rintro ⟨hab, block, back, rfl, hblock⟩
        exact ⟨b :: block, back, rfl, .cons hab hblock⟩
      · rintro ⟨_, back, htext, hblock⟩
        cases hblock with
        | cons hab hblock =>
            obtain ⟨rfl, rfl⟩ := List.cons_eq_cons.mp htext
            exact ⟨hab, _, back, rfl, hblock⟩

theorem SpelledAt.add_le (h : m.SpelledAt p text s) : s + p.chars.length ≤ text.length := by
  obtain ⟨front, block, back, rfl, rfl, hblock⟩ := h
  rw [List.length_append, List.length_append, hblock.length_eq]
  omega

theorem spelledAt_iff (h : s ≤ text.length) :
    m.SpelledAt p text s ↔ m.begins p.chars (text.drop s) = true := by
  rw [begins_iff]
  constructor
  · rintro ⟨front, block, back, rfl, rfl, hblock⟩
    exact ⟨block, back, List.drop_left, hblock⟩
  · rintro ⟨block, back, hdrop, hblock⟩
    refine ⟨text.take s, block, back, ?_, List.length_take_of_le h, hblock⟩
    rw [← hdrop, List.take_append_drop]

theorem breaksWord_iff : m.BreaksWord p text s ↔
    (m.guards p && continuesWord (text.drop (s + p.chars.length))) = true := by
  have hguards : m.guards p = true ↔
      m.inPrefixMode = false ∧ ∀ c, p.chars.getLast? = some c → isCjk c = false := by
    rw [guards, Bool.and_eq_true, Bool.not_eq_true', Bool.not_eq_true', Option.any_eq_false]
  have hcontinues : continuesWord (text.drop (s + p.chars.length)) = true ↔
      ∃ c, text[s + p.chars.length]? = some c ∧ Text.isAlphabetic c = true ∧
        isCjk c = false := by
    rw [continuesWord, List.head?_drop, Option.any_eq_true]
    simp only [Bool.and_eq_true, Bool.not_eq_true']
  rw [Bool.and_eq_true, hguards, hcontinues, and_assoc, BreaksWord]

/-! ## The leftmost place -/

/-- From offset `i` on the term is first spelled at `j`. -/
structure Leftmost (m : Matching) (p : TermPattern) (text : List Char) (i j : Nat) : Prop where
  le : i ≤ j
  spelled : m.SpelledAt p text j
  first : ∀ k, i ≤ k → k < j → ¬m.SpelledAt p text k

theorem Leftmost.lt_length (h : m.Leftmost p text i j) : j < text.length := by
  have hle := h.spelled.add_le
  have hlen := p.length_pos
  omega

/-- The bytes that the term covers at offset `s`. -/
def spanAt (p : TermPattern) (text : List Char) (s : Nat) : ByteSpan :=
  ⟨Text.byteOffset text s, Text.byteOffset text (s + p.chars.length)⟩

theorem findFrom?_byteOffset : ∀ {rest : List Char} {i : Nat}, i ≤ text.length →
    text.drop i = rest →
    (m.findFrom? p (Text.byteOffset text i) rest = none ∧ ∀ k, i ≤ k → ¬m.SpelledAt p text k) ∨
      ∃ j, m.Leftmost p text i j ∧
        m.findFrom? p (Text.byteOffset text i) rest = some (spanAt p text j)
  | [], i, _, hdrop => by
      refine Or.inl ⟨rfl, fun k hik hk => ?_⟩
      have hle := hk.add_le
      have hlen := p.length_pos
      have hend := List.drop_eq_nil_iff.mp hdrop
      omega
  | c :: rest, i, h, hdrop => by
      have hspelled := spelledAt_iff (m := m) (p := p) h
      rw [hdrop] at hspelled
      rw [findFrom?]
      split
      · -- the term is spelled here
        rename_i hbegins
        refine Or.inr ⟨i, ⟨le_rfl, hspelled.mpr hbegins, fun k hik hki => by omega⟩, ?_⟩
        rw [← hdrop, ← Text.byteOffset_add]
        rfl
      · rename_i hbegins
        have hlt : i < text.length := by
          by_contra hge
          rw [List.drop_eq_nil_of_le (not_lt.mp hge)] at hdrop
          cases hdrop
        have hrest : text.drop (i + 1) = rest := by
          rw [← List.drop_drop, hdrop, List.drop_succ_cons, List.drop_zero]
        have hnext : Text.byteOffset text (i + 1) = Text.byteOffset text i + c.utf8Size := by
          rw [Text.byteOffset_add, hdrop]
          rfl
        have hhere : ¬m.SpelledAt p text i := fun hi => hbegins (hspelled.mp hi)
        have hlater := findFrom?_byteOffset hlt hrest
        rw [hnext] at hlater
        rcases hlater with ⟨hnone, hk⟩ | ⟨j, hj, hsome⟩
        · refine Or.inl ⟨hnone, fun k hik => ?_⟩
          rcases hik.eq_or_lt with rfl | hik
          · exact hhere
          · exact hk k hik
        · refine Or.inr ⟨j, ⟨Nat.le_of_succ_le hj.le, hj.spelled, fun k hik hkj => ?_⟩, hsome⟩
          rcases hik.eq_or_lt with rfl | hik
          · exact hhere
          · exact hj.first k hik hkj

/-- The search finds the leftmost place from the character with number `i` on, if there is one. -/
theorem findAt?_byteOffset (m : Matching) (p : TermPattern) (h : i ≤ text.length) :
    (m.findAt? p text (Text.byteOffset text i) = none ∧ ∀ k, i ≤ k → ¬m.SpelledAt p text k) ∨
      ∃ j, m.Leftmost p text i j ∧
        m.findAt? p text (Text.byteOffset text i) = some (spanAt p text j) := by
  rw [findAt?, Text.fromByte_byteOffset h]
  exact findFrom?_byteOffset h rfl

/-! ## The scan -/

/-- From offset `i` on the scan makes `n` searches and reports `starts`. -/
inductive Scans (m : Matching) (p : TermPattern) (text : List Char) :
    (i : Nat) → (starts : List Nat) → (n : Nat) → Prop where
  | done {i : Nat} : (∀ k, i ≤ k → ¬m.SpelledAt p text k) → Scans m p text i [] 1
  | refuse {i j n : Nat} {starts : List Nat} : m.Leftmost p text i j → m.BreaksWord p text j →
      Scans m p text (j + 1) starts n → Scans m p text i starts (n + 1)
  | accept {i j n : Nat} {starts : List Nat} : m.Leftmost p text i j → ¬m.BreaksWord p text j →
      Scans m p text (j + p.chars.length) starts n → Scans m p text i (j :: starts) (n + 1)

theorem scan_of_findAt?_eq_none {pos : Nat} (h : m.findAt? p text pos = none) :
    m.scan p text pos = [] := by
  rw [scan]
  split
  · rfl
  · rename_i hfound
    rw [h] at hfound
    cases hfound

theorem scan_of_findAt?_eq_some {pos : Nat} {found : ByteSpan}
    (h : m.findAt? p text pos = some found) :
    m.scan p text pos =
      if m.guards p && continuesWord (Text.fromByte found.stop text) then
        m.scan p text (found.start + Text.firstSize (Text.fromByte found.start text))
      else found :: m.scan p text found.stop := by
  rw [scan]
  split
  · rename_i hfound
    rw [h] at hfound
    cases hfound
  · rename_i hfound
    rw [h] at hfound
    cases hfound
    rfl

/-- The scan in bytes is a scan in characters, and it ends. -/
theorem scan_byteOffset (m : Matching) (p : TermPattern) {i : Nat} (h : i ≤ text.length) :
    ∃ starts n, m.Scans p text i starts n ∧ n ≤ text.length + 1 - i ∧
      m.scan p text (Text.byteOffset text i) = starts.map (spanAt p text) := by
  rcases findAt?_byteOffset m p h with ⟨hnone, hk⟩ | ⟨j, hj, hsome⟩
  · exact ⟨[], 1, .done hk, by omega, scan_of_findAt?_eq_none hnone⟩
  · have hlen := p.length_pos
    have hij := hj.le
    have hlt := hj.lt_length
    have hend := hj.spelled.add_le
    have hscan := scan_of_findAt?_eq_some hsome
    rw [spanAt, Text.fromByte_byteOffset hend, Text.fromByte_byteOffset (Nat.le_of_lt hlt),
      ← Text.byteOffset_succ hlt] at hscan
    by_cases hbreaks : m.BreaksWord p text j
    · rw [if_pos (breaksWord_iff.mp hbreaks)] at hscan
      obtain ⟨starts, n, hscans, hn, hrest⟩ := scan_byteOffset m p hlt
      exact ⟨starts, n + 1, .refuse hj hbreaks hscans, by omega, hscan.trans hrest⟩
    · rw [if_neg (mt breaksWord_iff.mpr hbreaks)] at hscan
      obtain ⟨starts, n, hscans, hn, hrest⟩ := scan_byteOffset m p hend
      rw [hrest] at hscan
      exact ⟨j :: starts, n + 1, .accept hj hbreaks hscans, by omega, hscan⟩
termination_by text.length - i
decreasing_by all_goals omega

/-! ## What is reported -/

/-- From offset `i` on the acceptable places are reported, but for those that overlap one further
left. -/
structure Reports (m : Matching) (p : TermPattern) (text : List Char) (i : Nat)
    (starts : List Nat) : Prop where
  le : ∀ s ∈ starts, i ≤ s
  acceptable : ∀ s ∈ starts, m.Acceptable p text s
  apart : starts.Pairwise fun s t => s + p.chars.length ≤ t
  complete : ∀ t, i ≤ t → m.Acceptable p text t → t ∉ starts →
    ∃ s ∈ starts, s < t ∧ t < s + p.chars.length

/-- Nothing acceptable stands before the leftmost place, nor there if it is refused. -/
theorem Reports.refuse (hj : m.Leftmost p text i j) (hbreaks : m.BreaksWord p text j)
    (h : m.Reports p text (j + 1) starts) : m.Reports p text i starts where
  le s hs := le_trans hj.le (Nat.le_of_succ_le (h.le s hs))
  acceptable := h.acceptable
  apart := h.apart
  complete t hit ht htnot := by
    rcases lt_trichotomy t j with htj | rfl | hjt
    · exact absurd ht.1 (hj.first t hit htj)
    · exact absurd hbreaks ht.2
    · exact h.complete t hjt ht htnot

theorem Reports.accept (hj : m.Leftmost p text i j) (hbreaks : ¬m.BreaksWord p text j)
    (h : m.Reports p text (j + p.chars.length) starts) : m.Reports p text i (j :: starts) where
  le := List.forall_mem_cons.mpr
    ⟨hj.le, fun s hs => le_trans hj.le (le_trans (Nat.le_add_right _ _) (h.le s hs))⟩
  acceptable := List.forall_mem_cons.mpr ⟨⟨hj.spelled, hbreaks⟩, h.acceptable⟩
  apart := List.pairwise_cons.mpr ⟨h.le, h.apart⟩
  complete t hit ht htnot := by
    obtain ⟨hne, htnot⟩ := not_or.mp (mt List.mem_cons.mpr htnot)
    rcases lt_or_ge t (j + p.chars.length) with htj | hjt
    · rcases lt_or_gt_of_ne hne with htj' | hjt
      · exact absurd ht.1 (hj.first t hit htj')
      · exact ⟨j, List.mem_cons_self, hjt, htj⟩
    · obtain ⟨s, hs, hst⟩ := h.complete t hjt ht htnot
      exact ⟨s, List.mem_cons_of_mem j hs, hst⟩

theorem Scans.reports (h : m.Scans p text i starts n) : m.Reports p text i starts := by
  induction h with
  | done hk =>
      exact
        { le := fun s hs => absurd hs List.not_mem_nil
          acceptable := fun s hs => absurd hs List.not_mem_nil
          apart := .nil
          complete := fun t hit ht _ => absurd ht.1 (hk t hit) }
  | refuse hj hbreaks _ ih => exact .refuse hj hbreaks ih
  | accept hj hbreaks _ ih => exact .accept hj hbreaks ih

theorem Reports.ne_nil_iff (h : m.Reports p text 0 starts) :
    starts ≠ [] ↔ ∃ t, m.Acceptable p text t := by
  constructor
  · intro hne
    obtain ⟨s, hs⟩ := List.exists_mem_of_ne_nil starts hne
    exact ⟨s, h.acceptable s hs⟩
  · rintro ⟨t, ht⟩ rfl
    obtain ⟨s, hs, -⟩ := h.complete t (Nat.zero_le t) ht List.not_mem_nil
    exact absurd hs List.not_mem_nil

/-! ## The occurrences of a line -/

/-- The offsets at which a term is reported. -/
def startsOf (m : Matching) (p : TermPattern) (text : List Char) : List Nat :=
  (m.scan p text 0).map fun found => (Text.charOffsets text).getD found.start 0

theorem charOffsets_spanAt (h : m.SpelledAt p text s) (d : Nat) :
    (Text.charOffsets text).getD (spanAt p text s).start d = s ∧
      (Text.charOffsets text).getD (spanAt p text s).stop d = s + p.chars.length := by
  have hle := h.add_le
  exact ⟨Text.charOffsets_byteOffset (by omega) d, Text.charOffsets_byteOffset hle d⟩

theorem exists_scans (m : Matching) (p : TermPattern) (text : List Char) :
    (∃ n, m.Scans p text 0 (m.startsOf p text) n ∧ n ≤ text.length + 1) ∧
      m.scan p text 0 = (m.startsOf p text).map (spanAt p text) := by
  obtain ⟨starts, n, hscans, hn, hscan⟩ := scan_byteOffset m p (Nat.zero_le text.length)
  rw [Text.byteOffset_zero] at hscan
  have hstarts : m.startsOf p text = starts := by
    rw [startsOf, hscan, List.map_map]
    refine (List.map_congr_left fun s hs => ?_).trans (List.map_id starts)
    exact (charOffsets_spanAt (hscans.reports.acceptable s hs).1 0).1
  rw [hstarts]
  exact ⟨⟨n, hscans, hn⟩, hscan⟩

theorem reports_startsOf (m : Matching) (p : TermPattern) (text : List Char) :
    m.Reports p text 0 (m.startsOf p text) := by
  obtain ⟨⟨n, hscans, -⟩, -⟩ := exists_scans m p text
  exact hscans.reports

theorem occurrences_eq (m : Matching) (patterns : List TermPattern) (text : List Char) :
    m.occurrences patterns text = patterns.zipIdx.flatMap fun (p, i) =>
      (m.startsOf p text).map fun s => ⟨i, s, p.chars.length⟩ := by
  rw [occurrences]
  refine List.flatMap_congr fun (p, i) _ => ?_
  dsimp only
  rw [(exists_scans m p text).2, List.map_map]
  refine List.map_congr_left fun s hs => ?_
  obtain ⟨hstart, hstop⟩ := charOffsets_spanAt ((reports_startsOf m p text).acceptable s hs).1 0
  dsimp only [Function.comp_apply]
  rw [hstart, hstop, Nat.add_sub_cancel_left]

theorem zipIdx_eq_map_finRange {α : Type} (l : List α) :
    l.zipIdx = (List.finRange l.length).map fun i => (l[i], i.val) := by
  refine List.ext_getElem (by rw [List.length_zipIdx, List.length_map, List.length_finRange])
    fun k hk hk' => ?_
  rw [List.getElem_zipIdx, List.getElem_map, List.getElem_finRange, Nat.zero_add]
  rfl

/-- The occurrences are, term by term, those that the scan for the term reports. Each scan ends, and
what it reports is acceptable, ascending and apart; an acceptable place that is not reported
overlaps one that is reported further left. So a term is reported if there is an acceptable place
at all. -/
theorem occurrences_report (m : Matching) (patterns : List TermPattern) (text : List Char) :
    ∃ starts : Fin patterns.length → List Nat,
      m.occurrences patterns text = (List.finRange patterns.length).flatMap (fun i =>
        (starts i).map fun s => ⟨i.val, s, patterns[i].chars.length⟩) ∧
      ∀ i, (∃ n, m.Scans patterns[i] text 0 (starts i) n ∧ n ≤ text.length + 1) ∧
        m.Reports patterns[i] text 0 (starts i) ∧ (starts i).Pairwise (· < ·) ∧
        (starts i ≠ [] ↔ ∃ t, m.Acceptable patterns[i] text t) := by
  refine ⟨fun i => m.startsOf patterns[i] text, ?_, fun i => ?_⟩
  · rw [occurrences_eq, zipIdx_eq_map_finRange, List.flatMap_map]
  · have hreports := reports_startsOf m patterns[i] text
    refine ⟨(exists_scans m patterns[i] text).1, hreports, hreports.apart.imp fun h => ?_,
      hreports.ne_nil_iff⟩
    have hlen := patterns[i].length_pos
    omega

example : (Matching.mk false false).occurrences [⟨['a', 'n', 'a'], by decide⟩] "banana".toList =
    [⟨0, 3, 3⟩] := by decide +kernel

end Matching

end VaultSearch
