import Mathlib.Data.List.Chain
import VaultSearch.Text.LetterCase

/-!
# Lower case keeps the folding of a text

The entry of an ascending table that holds a code point is the one that the
bisection finds (`findRun?_of_mem`). The two tables of letter case can thus be
compared run by run: a letter and its lower case fold to the same letter, except
for the capital İ, whose lower case is two characters. The lower case of a text
without it folds to what the text folds to (`map_foldCase_lowercase`), and the
two characters are in the lower case of a text with it
(`infix_lowercase_of_mem`).
-/

namespace VaultSearch.Text

/-! ## Tables in ascending order -/

section Tables

variable {α : Type} {run : α → Run} {t : Array α} {n : Nat} {e : α}

/-- The second run is not empty and lies beyond the first. -/
def Run.Follows (r r' : Run) : Prop := r.last < r'.first ∧ r'.first ≤ r'.last

instance (r r' : Run) : Decidable (r.Follows r') :=
  inferInstanceAs (Decidable (r.last < r'.first ∧ r'.first ≤ r'.last))

theorem Run.Follows.trans {r r' r'' : Run} (h : r.Follows r') (h' : r'.Follows r'') :
    r.Follows r'' :=
  ⟨h.1.trans (h.2.trans_lt h'.1), h'.2⟩

/-- The runs of a table follow one another. -/
def Ascending (run : α → Run) (t : Array α) : Prop :=
  t.toList.Pairwise fun e e' => (run e).Follows (run e')

theorem ascending_of_isChain (h : t.toList.IsChain fun e e' => (run e).Follows (run e')) :
    Ascending run t := by
  have htrans : IsTrans α fun e e' => (run e).Follows (run e') := ⟨fun _ _ _ => Run.Follows.trans⟩
  exact List.isChain_iff_pairwise.mp h

theorem Ascending.follows (h : Ascending run t) {i j : Nat} (hij : i < j) (hj : j < t.size) :
    (run t[i]).Follows (run t[j]) :=
  List.pairwise_iff_getElem.mp h i j (hij.trans hj) hj hij

theorem Run.le_of_contains {r : Run} (h : r.contains n = true) : r.first ≤ n ∧ n ≤ r.last := by
  simp only [Run.contains, Bool.and_eq_true, decide_eq_true_eq] at h
  exact h.1

/-- The first code point of an entry, or zero beyond the end of the table. -/
def firstAt (run : α → Run) (t : Array α) (i : Nat) : Nat :=
  (t[i]?.map fun e => (run e).first).getD 0

theorem firstAt_of_lt {i : Nat} (h : i < t.size) : firstAt run t i = (run t[i]).first := by
  rw [firstAt, Array.getElem?_eq_getElem h]
  rfl

/-- Bisection never loses the entry that holds the code point. The induction is on the fuel, and
each step moves one end of the interval. -/
theorem bisect_eq (h : Ascending run t) {k : Nat} (hk : k < t.size)
    (hn : (run t[k]).contains n = true) : ∀ {fuel lo hi : Nat}, lo ≤ k → k < hi → hi ≤ t.size →
      hi ≤ lo + fuel + 1 → bisect (firstAt run t) n fuel lo hi = k
  | 0, lo, hi, hlo, hhi, _, hfuel => by
      rw [bisect]
      omega
  | fuel + 1, lo, hi, hlo, hhi, hsize, hfuel => by
      obtain ⟨hfirst, hlast⟩ := Run.le_of_contains hn
      rw [bisect]
      split
      · omega
      · dsimp only
        have hmid : (lo + hi) / 2 < t.size := by omega
        rw [firstAt_of_lt hmid]
        split
        · have hle : (lo + hi) / 2 ≤ k := by
            by_contra hlt
            have hbeyond := (h.follows (not_le.mp hlt) hmid).1
            omega
          exact bisect_eq h hk hn hle hhi hsize (by omega)
        · have hlt : k < (lo + hi) / 2 := by
            by_contra hle
            rcases (not_lt.mp hle).lt_or_eq with hlt | heq
            · have hbefore := (h.follows hlt hk).1
              have hnonempty := (h.follows (show lo < (lo + hi) / 2 by omega) hmid).2
              omega
            · subst heq
              omega
          exact bisect_eq h hk hn hlo hlt (by omega) (by omega)

theorem findRun?_of_mem (h : Ascending run t) (he : e ∈ t) (hn : (run e).contains n = true) :
    findRun? run t n = some e := by
  obtain ⟨k, hk, rfl⟩ := Array.getElem_of_mem he
  have hbisect : bisect (firstAt run t) n t.size 0 t.size = k :=
    bisect_eq h hk hn (Nat.zero_le k) hk le_rfl (by omega)
  change t[bisect (firstAt run t) n t.size 0 t.size]?.filter (fun e => (run e).contains n) = _
  rw [hbisect, Array.getElem?_eq_getElem hk, Option.filter_some, if_pos hn]

theorem findRun?_eq_none (h : ∀ e ∈ t, (run e).contains n = false) : findRun? run t n = none := by
  by_contra hsome
  obtain ⟨e, he⟩ := Option.ne_none_iff_exists'.mp hsome
  have hcontains := contains_of_findRun? he
  rw [h e (mem_of_findRun? he)] at hcontains
  cases hcontains

end Tables

/-! ## Case folding -/

theorem isChain_foldShifts : foldShifts.toList.IsChain fun s s' => s.run.Follows s'.run := by
  decide +kernel

theorem ascending_foldShifts : Ascending Shift.run foldShifts :=
  ascending_of_isChain isChain_foldShifts

/-- The folding of a code point by the first of the shifts that applies to it. -/
def foldAmong (shifts : List Shift) (n : Nat) : Char :=
  match shifts.find? fun s => s.run.contains n with
  | some s => s.apply n
  | none => Char.ofNat n

/-- The shifts of the folding that may apply to a code point from `lo` to `hi`. -/
def foldShiftsWithin (lo hi : Nat) : List Shift :=
  foldShifts.toList.filter fun s => lo ≤ s.run.last && s.run.first ≤ hi

theorem mem_foldShiftsWithin {lo hi : Nat} {s : Shift} : s ∈ foldShiftsWithin lo hi ↔
    s ∈ foldShifts ∧ lo ≤ s.run.last ∧ s.run.first ≤ hi := by
  rw [foldShiftsWithin, List.mem_filter, Array.mem_toList_iff, Bool.and_eq_true,
    decide_eq_true_eq, decide_eq_true_eq]

theorem foldCase_eq_foldAmong {lo hi : Nat} {c : Char} (hlo : lo ≤ c.toNat) (hhi : c.toNat ≤ hi) :
    foldCase c = foldAmong (foldShiftsWithin lo hi) c.toNat := by
  unfold foldCase foldAmong
  cases hfind : (foldShiftsWithin lo hi).find? fun s => s.run.contains c.toNat with
  | some s =>
      have hs := (mem_foldShiftsWithin.mp (List.mem_of_find?_eq_some hfind)).1
      have hcontains : s.run.contains c.toNat = true := by simpa using List.find?_some hfind
      rw [findRun?_of_mem ascending_foldShifts hs hcontains]
  | none =>
      have hnone : ∀ s ∈ foldShifts, s.run.contains c.toNat = false := fun s hs => by
        by_contra hcontains
        rw [Bool.not_eq_false] at hcontains
        obtain ⟨hfirst, hlast⟩ := Run.le_of_contains hcontains
        exact List.find?_eq_none.mp hfind s
          (mem_foldShiftsWithin.mpr ⟨hs, hlo.trans hlast, hfirst.trans hhi⟩) hcontains
      rw [findRun?_eq_none hnone, Char.ofNat_toNat]

/-- The code points of a run. -/
def Run.points (r : Run) : List Nat :=
  List.range' r.first ((r.last - r.first) / r.step + 1) r.step

theorem Run.mem_points {r : Run} {n : Nat} (h : r.contains n = true) : n ∈ r.points := by
  obtain ⟨hfirst, hlast⟩ := le_of_contains h
  simp only [contains, Bool.and_eq_true, beq_iff_eq] at h
  refine List.mem_range'.mpr ⟨(n - r.first) / r.step, ?_, ?_⟩
  · exact Nat.lt_succ_of_le (Nat.div_le_div_right (Nat.sub_le_sub_right hlast _))
  · rw [Nat.mul_div_cancel' (Nat.dvd_of_mod_eq_zero h.2), Nat.add_sub_cancel' hfirst]

/-- What holds of all code points of a table holds of each character on its runs. -/
theorem forall_onRuns {P : Char → Prop} {t : Array Run}
    (h : ∀ r ∈ t.toList, ∀ n ∈ r.points, P (Char.ofNat n)) {c : Char}
    (hc : onRuns t c.toNat = true) : P c := by
  obtain ⟨r, hr⟩ := Option.isSome_iff_exists.mp hc
  have hpoint := h r (Array.mem_toList_iff.mpr (mem_of_findRun? hr)) c.toNat
    (Run.mem_points (contains_of_findRun? hr))
  rwa [Char.ofNat_toNat] at hpoint

/-- Run by run, a letter folds to what its lower case folds to. -/
theorem foldAmong_lowerShifts : ∀ s ∈ lowerShifts.toList, ∀ n ∈ s.run.points,
    ((s.apply s.run.first).toNat ≤ (s.apply n).toNat ∧
      (s.apply n).toNat ≤ (s.apply s.run.last).toNat) ∧
    foldAmong (foldShiftsWithin (s.apply s.run.first).toNat (s.apply s.run.last).toNat)
        (s.apply n).toNat =
      foldAmong (foldShiftsWithin s.run.first s.run.last) n := by
  decide +kernel

theorem map_foldCase_lowerChar {c : Char} (hc : c ≠ 'İ') :
    (lowerChar c).map foldCase = [foldCase c] := by
  rw [lowerChar, if_neg hc]
  cases hfind : findRun? Shift.run lowerShifts c.toNat with
  | none => rfl
  | some s =>
      have hcontains := contains_of_findRun? hfind
      obtain ⟨hfirst, hlast⟩ := Run.le_of_contains hcontains
      obtain ⟨⟨hlo, hhi⟩, hfold⟩ := foldAmong_lowerShifts s
        (Array.mem_toList_iff.mpr (mem_of_findRun? hfind)) c.toNat (Run.mem_points hcontains)
      change [foldCase (s.apply c.toNat)] = _
      rw [foldCase_eq_foldAmong hlo hhi, hfold, foldCase_eq_foldAmong hfirst hlast]

/-! ## Lower case of a text -/

theorem map_foldCase_lowercaseAfter : ∀ {cs : List Char} (before : List Char), 'İ' ∉ cs →
    (lowercaseAfter before cs).map foldCase = cs.map foldCase
  | [], _, _ => rfl
  | c :: cs, before, h => by
      have hletter : (if c = 'Σ' then
          if startsCased before && !startsCased cs then ['ς'] else ['σ']
          else lowerChar c).map foldCase = [foldCase c] := by
        split
        · rename_i hc
          subst hc
          split <;> decide +kernel
        · exact map_foldCase_lowerChar fun hc => h (hc ▸ List.mem_cons_self)
      rw [lowercaseAfter, List.map_append, hletter,
        map_foldCase_lowercaseAfter _ fun hmem => h (List.mem_cons_of_mem c hmem)]
      rfl

/-- The lower case of a text without İ spells the text up to folding. -/
theorem map_foldCase_lowercase {w : String} (h : 'İ' ∉ w.toList) :
    (lowercase w).toList.map foldCase = w.toList.map foldCase := by
  rw [lowercase, String.toList_ofList]
  exact map_foldCase_lowercaseAfter [] h

/-- The lower case of the capital İ, a small letter and a dot above it. -/
def dottedSmall : List Char := ['i', '\u0307']

theorem infix_lowercaseAfter_of_mem : ∀ {cs : List Char} (before : List Char), 'İ' ∈ cs →
    dottedSmall <:+: lowercaseAfter before cs
  | c :: cs, before, h => by
      rw [lowercaseAfter]
      rcases List.mem_cons.mp h with rfl | h
      · exact (List.prefix_append _ _).isInfix
      · exact (infix_lowercaseAfter_of_mem (c :: before) h).trans (List.suffix_append _ _).isInfix

theorem infix_lowercase_of_mem {w : String} (h : 'İ' ∈ w.toList) :
    dottedSmall <:+: (lowercase w).toList := by
  rw [lowercase, String.toList_ofList]
  exact infix_lowercaseAfter_of_mem [] h

end VaultSearch.Text
