import Mathlib.Data.List.Forall2
import Mathlib.Data.List.SplitBy
import VaultSearch.Cli.Run

/-!
# What an excerpt keeps and what its brackets enclose

`MatchedLine.Cut` says which block of a line an excerpt shows and which mark of
the excerpt stands for which mark of the line. `CutAtMarks` is a text cut where
its marks begin and end, and `written` what a row shows of one such part. The
row of a line writes the parts of its excerpt one after another
(`matchRow_excerpt`), so that its brackets enclose just the parts that are
marked.
-/

namespace VaultSearch

namespace MatchedLine

variable {S : Type} {line : MatchedLine S} {limit : TruncateLimit} {e : Excerpt}
  {first last p q : Nat}

/-! ## The block that is shown -/

/-- How many characters an excerpt has in front of a block that begins at `first`. -/
def leading (first : Nat) : Nat := if 0 < first then 1 else 0

/-- Offset `q` of the excerpt stands for offset `p` of the line. It has the same character, and
lies in the block, not at an ellipsis before or behind it. -/
structure StandsFor (line : MatchedLine S) (e : Excerpt) (first last p q : Nat) : Prop where
  shift : q + first = p + leading first
  char_eq : e.text.toList[q]? = line.text.toList[p]?
  le : leading first ≤ q
  lt : q < leading first + (last - first)

/-- The excerpt shows the characters of the line from `first` on and before `last`. -/
structure Cut (line : MatchedLine S) (limit : TruncateLimit) (e : Excerpt)
    (first last : Nat) : Prop where
  first_eq : first = min (line.col - limit.maxPreChars) line.text.toList.length
  le : first ≤ last
  le_length : last ≤ line.text.toList.length
  window : ∀ p, first ≤ p ∧ p < last ↔
    p < line.text.toList.length ∧ line.col ≤ p + limit.maxPreChars ∧
      p < line.col + limit.maxPostChars
  text_eq : e.text.toList = (if 0 < first then [ellipsis] else []) ++
    (line.text.toList.drop first).take (last - first) ++
    (if last < line.text.toList.length then [ellipsis] else [])
  length_le : e.text.toList.length ≤ limit.maxPreChars + limit.maxPostChars + 2
  standFor : List.Forall₂ (line.StandsFor e first last)
    (line.positions.filter fun p => first ≤ p ∧ p < last) e.positions
  ascending : line.positions.Pairwise (· < ·) → e.positions.Pairwise (· < ·)

/-- A block between two texts has its characters moved along by the length of the first. -/
theorem getElem?_between {α : Type} (front cs back : List α) (hle : first ≤ p) (hlt : p < last)
    (hlast : last ≤ cs.length) :
    (front ++ (cs.drop first).take (last - first) ++ back)[p - first + front.length]? = cs[p]? := by
  have hblock : ((cs.drop first).take (last - first)).length = last - first := by
    rw [List.length_take, List.length_drop]
    omega
  rw [List.getElem?_append_left (by rw [List.length_append, hblock]; omega),
    List.getElem?_append_right (Nat.le_add_left _ _), Nat.add_sub_cancel,
    List.getElem?_take_of_lt (by omega), List.getElem?_drop, Nat.add_sub_cancel' hle]

theorem excerpt_cut (line : MatchedLine S) (limit : TruncateLimit) :
    ∃ first last, line.Cut limit (line.excerpt limit) first last := by
  let cs := line.text.toList
  let first := min (line.col - limit.maxPreChars) cs.length
  let last := max (min (line.col + limit.maxPostChars) cs.length) first
  let lead := if 0 < first then [ellipsis] else []
  let tail := if last < cs.length then [ellipsis] else []
  have htext : (line.excerpt limit).text.toList =
      lead ++ (cs.drop first).take (last - first) ++ tail := String.toList_ofList
  have hlead : lead.length = leading first := by
    dsimp only [lead, leading]
    split <;> rfl
  have htail : tail.length ≤ 1 := by
    dsimp only [tail]
    split <;> decide
  have hblock : ((cs.drop first).take (last - first)).length ≤
      limit.maxPreChars + limit.maxPostChars := by
    rw [List.length_take, List.length_drop]
    omega
  have hpositions : (line.excerpt limit).positions =
      (line.positions.filter fun p => first ≤ p ∧ p < last).map
        fun p => p - first + lead.length := by
    simp only [Bool.decide_and]
    rfl
  have hshown : ∀ p ∈ line.positions.filter fun p => first ≤ p ∧ p < last, first ≤ p ∧ p < last :=
    fun p hp => of_decide_eq_true (List.mem_filter.mp hp).2
  have hcs : line.text.toList.length = cs.length := rfl
  refine ⟨first, last, rfl, Nat.le_max_right _ _, ?_, fun p => ?_, htext, ?_, ?_, fun h => ?_⟩
  · omega
  · omega
  · rw [htext, List.length_append, List.length_append, hlead, leading]
    split <;> omega
  · rw [hpositions, List.forall₂_map_right_iff, List.forall₂_same]
    intro p hp
    obtain ⟨hle, hlt⟩ := hshown p hp
    refine ⟨by omega, ?_, by omega, by omega⟩
    rw [htext]
    exact getElem?_between lead cs tail hle hlt (by omega)
  · rw [hpositions, List.pairwise_map]
    refine (h.filter _).imp_of_mem fun {p p'} hp hp' hlt => ?_
    have hle := (hshown p hp).1
    omega

theorem exists_of_forall₂ {α β : Type} {R : α → β → Prop} {a : α} {as : List α} {bs : List β}
    (h : List.Forall₂ R as bs) (ha : a ∈ as) : ∃ b ∈ bs, R a b := by
  induction h with
  | nil => cases ha
  | @cons a' b as bs hab _ ih =>
      rcases List.mem_cons.mp ha with rfl | ha
      · exact ⟨b, List.mem_cons_self, hab⟩
      · obtain ⟨b', hb', hr⟩ := ih ha
        exact ⟨b', List.mem_cons_of_mem _ hb', hr⟩

/-- A mark of the line has one in the excerpt if it lies in the block that is shown. -/
theorem Cut.exists_standsFor_iff (h : line.Cut limit e first last) (hp : p ∈ line.positions) :
    (∃ q ∈ e.positions, line.StandsFor e first last p q) ↔ first ≤ p ∧ p < last := by
  constructor
  · rintro ⟨q, -, hq⟩
    have hshift := hq.shift
    have hle := hq.le
    have hlt := hq.lt
    omega
  · intro hwindow
    exact exists_of_forall₂ h.standFor (List.mem_filter.mpr ⟨hp, decide_eq_true hwindow⟩)

end MatchedLine

/-! ## Parts between two marks -/

namespace Excerpt

variable {marked : Nat → Bool} {i : Nat} {inside : Bool} {cs : List Char}
  {parts : List (List (Char × Nat))}

/-- The characters of a text, with their offsets from `i` on, cut where marks begin or end. -/
structure CutAtMarks (marked : Nat → Bool) (i : Nat) (cs : List Char)
    (parts : List (List (Char × Nat))) : Prop where
  flatten_eq : parts.flatten = cs.zipIdx i
  nonempty : ∀ part ∈ parts, part ≠ []
  uniform : ∀ part ∈ parts, ∃ b, ∀ x ∈ part, marked x.2 = b
  maximal : parts.IsChain fun part part' => ∀ x ∈ part, ∀ y ∈ part', marked x.2 = !marked y.2

theorem exists_cutAtMarks (marked : Nat → Bool) (i : Nat) (cs : List Char) :
    ∃ parts, CutAtMarks marked i cs parts := by
  let alike : Char × Nat → Char × Nat → Bool := fun x y => marked x.2 == marked y.2
  have htrans : IsTrans (Char × Nat) fun x y => alike x y = true :=
    ⟨fun x y z hxy hyz => beq_iff_eq.mpr ((beq_iff_eq.mp hxy).trans (beq_iff_eq.mp hyz))⟩
  have huniform : ∀ part ∈ (cs.zipIdx i).splitBy alike, ∀ x ∈ part, ∀ y ∈ part,
      marked x.2 = marked y.2 := by
    intro part hpart
    have hpair : part.Pairwise fun x y => marked x.2 = marked y.2 :=
      (List.isChain_iff_pairwise.mp (List.isChain_of_mem_splitBy hpart)).imp beq_iff_eq.mp
    have hsymm : Std.Symm fun x y : Char × Nat => marked x.2 = marked y.2 := ⟨fun _ _ => Eq.symm⟩
    exact fun x hx y hy =>
      List.Pairwise.forall_of_forall (fun x _ => Eq.refl (marked x.2)) hpair hx hy
  refine ⟨(cs.zipIdx i).splitBy alike, List.flatten_splitBy _ _,
    fun part => List.ne_nil_of_mem_splitBy, fun part hpart => ?_, ?_⟩
  · obtain ⟨x, hx⟩ := List.exists_mem_of_ne_nil part (List.ne_nil_of_mem_splitBy hpart)
    exact ⟨marked x.2, fun y hy => huniform part hpart y hy x hx⟩
  · refine (List.isChain_getLast_head_splitBy alike (cs.zipIdx i)).imp_of_mem_imp
      fun {part part'} hpart hpart' hdiffer x hx y hy => ?_
    obtain ⟨hne, hne', halike⟩ := hdiffer
    rw [huniform part hpart x hx _ (List.getLast_mem hne),
      huniform part' hpart' y hy _ (List.head_mem hne')]
    exact Bool.eq_not.mpr (beq_eq_false_iff_ne.mp halike)

/-- What a row shows of a part: its characters, and if they are marked a bracket on each side. The
flag tells a bracket from a character of the text. -/
def written (marked : Nat → Bool) (part : List (Char × Nat)) : List (Char × Bool) :=
  let chars := part.map fun x => (x.1, false)
  if part.any fun x => marked x.2 then ('[', true) :: (chars ++ [(']', true)]) else chars

/-- The characters of a part are marked alike. -/
def Alike (marked : Nat → Bool) (i : Nat) (chars : List Char) (b : Bool) : Prop :=
  ∀ x ∈ chars.zipIdx i, marked x.2 = b

theorem map_fst_written {chars : List Char} {b : Bool} (h : Alike marked i chars b)
    (hne : chars ≠ []) :
    (written marked (chars.zipIdx i)).map Prod.fst =
      (if b then ['['] else []) ++ chars ++ if b then [']'] else [] := by
  have hany : ((chars.zipIdx i).any fun x => marked x.2) = b := by
    obtain ⟨x, hx⟩ := List.exists_mem_of_ne_nil _ (mt List.zipIdx_eq_nil_iff.mp hne)
    cases b with
    | true => exact List.any_eq_true.mpr ⟨x, hx, h x hx⟩
    | false => exact List.any_eq_false.mpr fun x hx => by rw [h x hx]; decide
  have hchars : ((chars.zipIdx i).map fun x => (x.1, false)).map Prod.fst = chars := by
    rw [List.map_map]
    exact List.zipIdx_map_fst i chars
  rw [written, hany]
  cases b with
  | true => simp only [if_true, List.map_cons, List.map_append, hchars, List.map_nil]; rfl
  | false => simp only [Bool.false_eq_true, if_false, hchars, List.nil_append, List.append_nil]

/-- Before a character that is marked as the last one was, there is no bracket. -/
theorem bracketFrom_cons_of_eq (h : marked i = inside) (c : Char) (cs : List Char) :
    bracketFrom marked i inside (c :: cs) = c :: bracketFrom marked (i + 1) inside cs := by
  cases inside <;> simp [bracketFrom, h]

/-- Before a character that is not, there is one. -/
theorem bracketFrom_cons_of_ne (h : marked i = !inside) (c : Char) (cs : List Char) :
    bracketFrom marked i inside (c :: cs) =
      (if inside then ']' else '[') :: bracketFrom marked i (!inside) (c :: cs) := by
  cases inside <;> simp_all [bracketFrom]

theorem bracketFrom_append {front : List Char} (h : Alike marked i front inside)
    (back : List Char) : bracketFrom marked i inside (front ++ back) =
      front ++ bracketFrom marked (i + front.length) inside back := by
  induction front generalizing i with
  | nil => rfl
  | cons c front ih =>
      rw [Alike, List.zipIdx_cons] at h
      rw [List.cons_append, bracketFrom_cons_of_eq (h (c, i) List.mem_cons_self),
        ih fun x hx => h x (List.mem_cons_of_mem _ hx), List.length_cons, List.cons_append,
        Nat.add_assoc, Nat.add_comm 1]

/-- Each part is written after the one before it. The induction is on the parts; between two of
them a bracket is open only if the part before was marked, and then the next one is not. -/
theorem bracketFrom_eq (h : CutAtMarks marked i cs parts)
    (hfirst : inside = true → ∀ part ∈ parts.head?, ∀ x ∈ part, marked x.2 = false) :
    bracketFrom marked i inside cs =
      (if inside then [']'] else []) ++ (parts.flatMap (written marked)).map Prod.fst := by
  induction parts generalizing i inside cs with
  | nil =>
      obtain rfl : cs = [] := by
        have hnil := h.flatten_eq
        rw [List.flatten_nil, eq_comm, List.zipIdx_eq_nil_iff] at hnil
        exact hnil
      cases inside <;> rfl
  | cons part parts ih =>
      obtain ⟨front, back, rfl, rfl, hback⟩ := List.zipIdx_eq_append_iff.mp h.flatten_eq.symm
      obtain ⟨b, hb⟩ := h.uniform _ List.mem_cons_self
      have hne : front ≠ [] := mt List.zipIdx_eq_nil_iff.mpr (h.nonempty _ List.mem_cons_self)
      obtain ⟨c, front, rfl⟩ := List.exists_cons_of_ne_nil hne
      have hc : (c, i) ∈ (c :: front).zipIdx i := List.mem_cons_self
      have hmaximal := List.isChain_cons.mp h.maximal
      have htail : CutAtMarks marked (i + (c :: front).length) back parts :=
        ⟨hback, fun p hp => h.nonempty p (List.mem_cons_of_mem _ hp),
          fun p hp => h.uniform p (List.mem_cons_of_mem _ hp), hmaximal.2⟩
      have hrest : bracketFrom marked i b (c :: front ++ back) = c :: front ++
          ((if b then [']'] else []) ++ (parts.flatMap (written marked)).map Prod.fst) := by
        rw [bracketFrom_append hb, ih htail]
        rintro rfl part hpart y hy
        have hdiffer := hmaximal.1 part hpart _ hc y hy
        rw [hb _ hc] at hdiffer
        simpa using hdiffer.symm
      rw [List.flatMap_cons, List.map_append, map_fst_written hb hne]
      cases hinside : inside with
      | true =>
          obtain rfl : b = false := (hb _ hc).symm.trans (hfirst hinside _ rfl _ hc)
          rw [List.cons_append, bracketFrom_cons_of_ne (hb _ hc), ← List.cons_append,
            Bool.not_true, hrest]
          simp
      | false =>
          cases b with
          | true =>
              rw [List.cons_append, bracketFrom_cons_of_ne (hb _ hc), ← List.cons_append,
                Bool.not_false, hrest]
              simp
          | false =>
              rw [hrest]
              simp

/-- The brackets open and close by turns, one pair for each part that is marked. -/
theorem map_fst_brackets (marked : Nat → Bool) (parts : List (List (Char × Nat))) :
    ((parts.flatMap (written marked)).filter Prod.snd).map Prod.fst =
      (List.replicate (parts.countP fun part => part.any fun x => marked x.2)
        ['[', ']']).flatten := by
  induction parts with
  | nil => rfl
  | cons part parts ih =>
      have hchars : (part.map fun x => (x.1, false)).filter Prod.snd = [] :=
        List.filter_eq_nil_iff.mpr fun y hy => by
          obtain ⟨x, -, rfl⟩ := List.mem_map.mp hy
          exact Bool.false_ne_true
      rw [List.flatMap_cons, List.filter_append, List.map_append, ih, List.countP_cons, written]
      split
      · simp [hchars, List.replicate_succ]
      · simp [hchars]

/-- Without the brackets a row is the text it was made of. -/
theorem map_fst_chars (marked : Nat → Bool) (parts : List (List (Char × Nat))) :
    ((parts.flatMap (written marked)).filter fun y => !y.2).map Prod.fst =
      parts.flatten.map Prod.fst := by
  induction parts with
  | nil => rfl
  | cons part parts ih =>
      have hchars : (part.map fun x => (x.1, false)).filter (fun y => !y.2) =
          part.map fun x => (x.1, false) :=
        List.filter_eq_self.mpr fun y hy => by
          obtain ⟨x, -, rfl⟩ := List.mem_map.mp hy
          rfl
      rw [List.flatMap_cons, List.filter_append, List.map_append, ih, List.flatten_cons,
        List.map_append, written]
      split <;> simp [hchars]

end Excerpt

open Excerpt (CutAtMarks written)

/-- An excerpt shows one block of its line with an ellipsis at each end that is cut off, and its
marks are those of the block. The row of the line writes the excerpt with a pair of brackets around
each of its longest parts that are marked, and no others. -/
theorem matchRow_excerpt (c : Config) (line : MatchedLine Float) :
    (∀ limit, ∃ first last, line.Cut limit (line.excerpt limit) first last) ∧
    let e := line.excerpt (c.truncate.limit .line (LinesMatcher.isWide line.text.toList))
    let marked := e.positions.contains
    ∃ parts, CutAtMarks marked 0 e.text.toList parts ∧
      let row := parts.flatMap (written marked)
      Cli.matchRow c line =
        Cli.rowNumber line.row ++ ": " ++ String.ofList (row.map Prod.fst) ∧
      (row.filter fun y => !y.2).map Prod.fst = e.text.toList ∧
      (row.filter Prod.snd).map Prod.fst =
        (List.replicate (parts.countP fun part => part.any fun x => marked x.2)
          ['[', ']']).flatten := by
  refine ⟨line.excerpt_cut, ?_⟩
  intro e marked
  obtain ⟨parts, hparts⟩ := Excerpt.exists_cutAtMarks marked 0 e.text.toList
  refine ⟨parts, hparts, ?_, ?_, Excerpt.map_fst_brackets marked parts⟩
  · have hbrackets : e.bracketed =
        String.ofList ((parts.flatMap (written marked)).map Prod.fst) := by
      rw [Excerpt.bracketed, Excerpt.bracketFrom_eq hparts fun h => absurd h Bool.false_ne_true]
      rfl
    rw [← hbrackets]
    rfl
  · rw [Excerpt.map_fst_chars, hparts.flatten_eq]
    exact List.zipIdx_map_fst 0 e.text.toList

example : ((⟨"the quick brown fox", 0, 10, [10, 11, 12, 13, 14], 1⟩ : MatchedLine Nat).excerpt
    { maxPreChars := 4, maxPostChars := 7 }).bracketed = "…ick [brown] f…" := by decide +kernel

end VaultSearch
