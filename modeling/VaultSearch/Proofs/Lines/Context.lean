import Mathlib.Data.List.TakeDrop
import Mathlib.Data.List.TakeWhile
import VaultSearch.Lines.Excerpt

/-!
# The paragraph around a line

The context of a row is a block of lines around the one with this row, as
long as the limit allows on each side and without lines that are too short
(`ShownAround`). It cannot be longer on either side (`IsParagraph`), and so
it is the only block that cannot (`IsParagraph.holds_shown`).

The two ends of the block can be searched for line by line. `turnUp` and
`turnDown` are the turns of these searches, where a line that the list does
not have and a difference below zero are faults. Both searches end without
one, and what lies between their ends is the context
(`context_isParagraph`).
-/

namespace VaultSearch.LinesMatcher

/-! ## Blocks around a line -/

variable {lines : List Line} {limit : TruncateLimit} {row i first last : Nat}

/-- The lines with the numbers from `first` to `last` may be shown around the line with number
`i`, which itself may be short. -/
structure ShownAround (lines : List Line) (limit : TruncateLimit) (i first last : Nat) :
    Prop where
  first_le : first ≤ i
  le_last : i ≤ last
  inside : last < lines.length
  pre : i - first ≤ limit.maxPreLines
  post : last - i ≤ limit.maxPostLines
  long : ∀ (j : Nat) (line : Line), first ≤ j → j ≤ last → j ≠ i → lines[j]? = some line →
    limit.boundaryLineMinChars ≤ (Text.trim line.text.toList).length

/-- The lines may be shown, and with one more line before or after them they may not. -/
structure IsParagraph (lines : List Line) (limit : TruncateLimit) (i first last : Nat) :
    Prop where
  shown : ShownAround lines limit i first last
  no_earlier : ∀ n, n + 1 = first → ¬ShownAround lines limit i n last
  no_later : ¬ShownAround lines limit i first (last + 1)

/-- Every block that may be shown is part of the paragraph. -/
theorem IsParagraph.holds_shown (h : IsParagraph lines limit i first last) {first' last' : Nat}
    (h' : ShownAround lines limit i first' last') : first ≤ first' ∧ last' ≤ last := by
  obtain ⟨hfirst, hlast, hinside, hpre, hpost, hlong⟩ := h.shown
  obtain ⟨hfirst', hlast', hinside', hpre', hpost', hlong'⟩ := h'
  constructor
  · by_contra hlt
    obtain ⟨n, rfl⟩ : ∃ n, n + 1 = first := ⟨first - 1, by omega⟩
    refine h.no_earlier n rfl ⟨by omega, hlast, hinside, by omega, hpost, fun j line hj => ?_⟩
    by_cases hn : j = n
    · exact fun _ => hlong' j line (by omega) (by omega)
    · exact hlong j line (by omega)
  · by_contra hlt
    refine h.no_later ⟨hfirst, by omega, by omega, hpre, by omega, fun j line hj hj' => ?_⟩
    by_cases hn : j = last + 1
    · exact hlong' j line (by omega) (by omega)
    · exact hlong j line hj (by omega)

/-! ## Searches for the ends -/

/-- What one turn of a search comes to. -/
inductive Turn where
  | stop
  | goOn (next : Nat)
  /-- There is no such line, or a difference is below zero. -/
  | fault

/-- A turn of the search for the first line, which has come to the line with number `start`. -/
def turnUp (lines : List Line) (limit : TruncateLimit) (center start : Nat) : Turn :=
  if start = 0 then .stop
  else if center < start then .fault
  else if limit.maxPreLines ≤ center - start then .stop
  else match lines[start - 1]? with
    | none => .fault
    | some line => if isBoundary limit line then .stop else .goOn (start - 1)

/-- A turn of the search for the last line, which has come to the line with number `stop`. -/
def turnDown (lines : List Line) (limit : TruncateLimit) (center stop : Nat) : Turn :=
  if lines.length ≤ stop + 1 then .stop
  else if stop < center then .fault
  else if limit.maxPostLines ≤ stop - center then .stop
  else match lines[stop + 1]? with
    | none => .fault
    | some line => if isBoundary limit line then .stop else .goOn (stop + 1)

/-- The search that starts with the first number ends, without a fault, with the second. -/
inductive Search (turn : Nat → Turn) : Nat → Nat → Prop where
  | stop {n : Nat} (h : turn n = .stop) : Search turn n n
  | goOn {n next final : Nat} (h : turn n = .goOn next) (rest : Search turn next final) :
      Search turn n final

/-- A search that goes on through some positions and stops at the last of them ends there. -/
theorem search_of_turns {turn : Nat → Turn} (position : Nat → Nat) {k : Nat}
    (hstop : turn (position k) = .stop)
    (hgo : ∀ j < k, turn (position j) = .goOn (position (j + 1))) :
    Search turn (position 0) (position k) := by
  have hrest : ∀ n j, j + n = k → Search turn (position j) (position k) := by
    intro n
    induction n with
    | zero =>
        rintro j rfl
        exact .stop hstop
    | succ n ih =>
        intro j hj
        exact .goOn (hgo j (by omega)) (ih (j + 1) (by omega))
  exact hrest k 0 (Nat.zero_add k)

/-! ## Runs of long lines -/

/-- The list begins with `k` lines, and no more, of its first `n` that are no boundary lines. -/
structure IsRun (limit : TruncateLimit) (n : Nat) (ls : List Line) (k : Nat) : Prop where
  le_count : k ≤ n
  le_length : k ≤ ls.length
  long : ∀ j < k, ∀ line : Line, ls[j]? = some line → isBoundary limit line = false
  ends : k < n → ∀ line : Line, ls[k]? = some line → isBoundary limit line = true

theorem isRun_takeWhile (limit : TruncateLimit) : ∀ (n : Nat) (ls : List Line),
    IsRun limit n ls ((ls.take n).takeWhile (!isBoundary limit ·)).length
  | 0, ls => by constructor <;> simp
  | n + 1, [] => by constructor <;> simp
  | n + 1, line :: ls => by
      rw [List.take_succ_cons]
      cases hline : isBoundary limit line with
      | true =>
          rw [List.takeWhile_cons_of_neg (by simp [hline])]
          constructor <;> simp [hline]
      | false =>
          rw [List.takeWhile_cons_of_pos (by simp [hline]), List.length_cons]
          obtain ⟨hcount, hlength, hlong, hends⟩ := isRun_takeWhile limit n ls
          refine ⟨by omega, by simpa using hlength, fun j hj => ?_, fun hlt => ?_⟩
          · cases j with
            | zero => simp [hline]
            | succ j => simpa using hlong j (by omega)
          · simpa using hends (by omega)

theorem isBoundary_eq_false_iff {line : Line} : isBoundary limit line = false ↔
    limit.boundaryLineMinChars ≤ (Text.trim line.text.toList).length := by
  rw [isBoundary, decide_eq_false_iff_not, Nat.not_lt]

theorem exists_getElem? (ls : List Line) {j : Nat} (h : j < ls.length) :
    ∃ line, ls[j]? = some line :=
  ⟨ls[j], List.getElem?_eq_getElem h⟩

/-! ## The context -/

section Split

variable (before after : List Line) (center : Line) {up down : Nat}

theorem length_around :
    (before ++ center :: after).length = before.length + 1 + after.length := by
  rw [List.length_append, List.length_cons]
  omega

theorem getElem?_before (hi : i < before.length) :
    (before ++ center :: after)[before.length - 1 - i]? = before.reverse[i]? := by
  rw [List.getElem?_append_left (by omega), List.getElem?_reverse hi]

theorem getElem?_after : (before ++ center :: after)[before.length + 1 + i]? = after[i]? := by
  rw [List.getElem?_append_right (by omega),
    show before.length + 1 + i - before.length = i + 1 by omega, List.getElem?_cons_succ]

theorem search_up (h : IsRun limit limit.maxPreLines before.reverse up) :
    Search (turnUp (before ++ center :: after) limit before.length) before.length
      (before.length - up) := by
  obtain ⟨hcount, hlength, hlong, hends⟩ := h
  rw [List.length_reverse] at hlength
  -- the line above the one with `j` lines of the block between it and the center
  have hread : ∀ j < before.length, ∃ line, before.reverse[j]? = some line ∧
      (before ++ center :: after)[before.length - j - 1]? = some line := by
    intro j hj
    obtain ⟨line, hline⟩ := exists_getElem? before.reverse (by simpa using hj)
    exact ⟨line, hline, by rw [Nat.sub_right_comm, getElem?_before before after center hj, hline]⟩
  refine search_of_turns (fun j => before.length - j) ?_ fun j hj => ?_
  · rw [turnUp]
    by_cases hzero : before.length - up = 0
    · rw [if_pos hzero]
    · rw [if_neg hzero, if_neg (by omega)]
      by_cases hfull : limit.maxPreLines ≤ before.length - (before.length - up)
      · rw [if_pos hfull]
      · obtain ⟨line, hline, hread⟩ := hread up (by omega)
        rw [if_neg hfull, hread]
        simp only [hends (by omega) line hline, if_true]
  · obtain ⟨line, hline, hread⟩ := hread j (by omega)
    rw [turnUp, if_neg (by omega), if_neg (by omega), if_neg (by omega), hread]
    simp only [hlong j hj line hline, Bool.false_eq_true, if_false, Nat.sub_sub]

theorem search_down (h : IsRun limit limit.maxPostLines after down) :
    Search (turnDown (before ++ center :: after) limit before.length) before.length
      (before.length + down) := by
  obtain ⟨hcount, hlength, hlong, hends⟩ := h
  have htotal := length_around before after center
  have hread : ∀ j < after.length, ∃ line, after[j]? = some line ∧
      (before ++ center :: after)[before.length + j + 1]? = some line := by
    intro j hj
    obtain ⟨line, hline⟩ := exists_getElem? after hj
    exact ⟨line, hline, by rw [Nat.add_right_comm, getElem?_after, hline]⟩
  refine search_of_turns (fun j => before.length + j) ?_ fun j hj => ?_
  · rw [turnDown, htotal]
    by_cases hend : before.length + 1 + after.length ≤ before.length + down + 1
    · rw [if_pos hend]
    · rw [if_neg hend, if_neg (by omega)]
      by_cases hfull : limit.maxPostLines ≤ before.length + down - before.length
      · rw [if_pos hfull]
      · obtain ⟨line, hline, hread⟩ := hread down (by omega)
        rw [if_neg hfull, hread]
        simp only [hends (by omega) line hline, if_true]
  · obtain ⟨line, hline, hread⟩ := hread j (by omega)
    rw [turnDown, htotal, if_neg (by omega), if_neg (by omega), if_neg (by omega), hread]
    simp only [hlong j hj line hline, Bool.false_eq_true, if_false, Nat.add_assoc]

theorem isParagraph_of_runs (hup : IsRun limit limit.maxPreLines before.reverse up)
    (hdown : IsRun limit limit.maxPostLines after down) :
    IsParagraph (before ++ center :: after) limit before.length (before.length - up)
      (before.length + down) := by
  obtain ⟨hcount, hlength, hlong, hends⟩ := hup
  obtain ⟨hcount', hlength', hlong', hends'⟩ := hdown
  rw [List.length_reverse] at hlength
  have htotal := length_around before after center
  refine ⟨⟨by omega, by omega, by omega, by omega, by omega, fun j line hj hj' hne hline => ?_⟩,
    fun n hn hshown => ?_, fun hshown => ?_⟩
  · rw [← isBoundary_eq_false_iff]
    rcases Nat.lt_or_gt_of_ne hne with hlt | hlt
    · refine hlong (before.length - 1 - j) (by omega) line ?_
      rwa [← getElem?_before before after center (by omega),
        show before.length - 1 - (before.length - 1 - j) = j by omega]
    · refine hlong' (j - before.length - 1) (by omega) line ?_
      rwa [← getElem?_after before after center,
        show before.length + 1 + (j - before.length - 1) = j by omega]
  · -- the line before the block is a boundary unless the block has as many lines as it may
    have hpre := hshown.pre
    obtain ⟨line, hline⟩ := exists_getElem? before.reverse (j := up)
      (by rw [List.length_reverse]; omega)
    have hshort := hends (by omega) line hline
    rw [← getElem?_before before after center (by omega),
      show before.length - 1 - up = n by omega] at hline
    have hlong := hshown.long n line (Nat.le_refl n) (by omega) (by omega) hline
    rw [← isBoundary_eq_false_iff, hshort] at hlong
    cases hlong
  · have hinside := hshown.inside
    have hpost := hshown.post
    obtain ⟨line, hline⟩ := exists_getElem? after (j := down) (by omega)
    have hshort := hends' (by omega) line hline
    rw [← getElem?_after before after center, Nat.add_right_comm] at hline
    have hlong := hshown.long _ line (by omega) (Nat.le_refl _) (by omega) hline
    rw [← isBoundary_eq_false_iff, hshort] at hlong
    cases hlong

/-- The context of a row, from the first line that has it. -/
theorem context_of_split (hbefore : ∀ line ∈ before, line.row ≠ row) (hcenter : center.row = row) :
    context (before ++ center :: after) row limit =
      ((before.reverse.take limit.maxPreLines).takeWhile (!isBoundary limit ·)).reverse ++
        center :: (after.take limit.maxPostLines).takeWhile (!isBoundary limit ·) := by
  have hspan : (before ++ center :: after).span (·.row ≠ row) = (before, center :: after) := by
    rw [List.span_eq_takeWhile_dropWhile,
      List.takeWhile_append_of_pos (by simpa using hbefore),
      List.dropWhile_append_of_pos (by simpa using hbefore),
      List.takeWhile_cons_of_neg (by simpa using hcenter),
      List.dropWhile_cons_of_neg (by simpa using hcenter), List.append_nil]
  rw [context, hspan]

/-- The context is what lies between the two ends. -/
theorem context_eq_slice (limit : TruncateLimit) (hbefore : ∀ line ∈ before, line.row ≠ row)
    (hcenter : center.row = row) :
    ∃ up down, IsRun limit limit.maxPreLines before.reverse up ∧
      IsRun limit limit.maxPostLines after down ∧
      context (before ++ center :: after) row limit =
        ((before ++ center :: after).take (before.length + down + 1)).drop
          (before.length - up) := by
  refine ⟨_, _, isRun_takeWhile limit _ _, isRun_takeWhile limit _ _, ?_⟩
  have hpre : ((before.reverse.take limit.maxPreLines).takeWhile
      (!isBoundary limit ·)).reverse <:+ before := by
    rw [← List.reverse_prefix, List.reverse_reverse]
    exact (List.takeWhile_prefix _).trans (List.take_prefix _ _)
  have hpost : (after.take limit.maxPostLines).takeWhile (!isBoundary limit ·) <+: after :=
    (List.takeWhile_prefix _).trans (List.take_prefix _ _)
  rw [context_of_split before after center hbefore hcenter, Nat.add_assoc,
    List.take_length_add_append, List.take_succ_cons,
    List.drop_append_of_le_length (Nat.sub_le _ _), ← List.prefix_iff_eq_take.mp hpost]
  conv_lhs => rw [List.suffix_iff_eq_drop.mp hpre]
  rw [List.length_reverse]

end Split

/-- Both searches from the line with number `i` end, neither asks for a line that is not there,
and the block is what lies between their ends: the paragraph around this line. -/
def IsFoundAround (lines : List Line) (limit : TruncateLimit) (i : Nat) (block : List Line) :
    Prop :=
  ∃ first last, Search (turnUp lines limit i) i first ∧ Search (turnDown lines limit i) i last ∧
    block = (lines.take (last + 1)).drop first ∧ IsParagraph lines limit i first last

theorem IsFoundAround.ne_nil {block : List Line} (h : IsFoundAround lines limit i block) :
    block ≠ [] := by
  obtain ⟨first, last, -, -, rfl, hparagraph⟩ := h
  obtain ⟨hfirst, hlast, hinside, -⟩ := hparagraph.shown
  rw [← List.length_pos_iff, List.length_drop, List.length_take]
  omega

theorem context_eq_nil (h : ∀ line ∈ lines, line.row ≠ row) : context lines row limit = [] := by
  have hall : ∀ line ∈ lines, decide (line.row ≠ row) = true := fun line hline =>
    decide_eq_true (h line hline)
  rw [context, List.span_eq_takeWhile_dropWhile, List.dropWhile_eq_nil_iff.mpr hall]

theorem context_isFoundAround (hrows : (lines.map Line.row).Nodup) {center : Line}
    (hcenter : lines[i]? = some center) (hrow : center.row = row) :
    IsFoundAround lines limit i (context lines row limit) := by
  obtain ⟨hi, rfl⟩ := List.getElem?_eq_some_iff.mp hcenter
  have hsplit : lines = lines.take i ++ lines[i] :: lines.drop (i + 1) := by
    rw [List.getElem_cons_drop, List.take_append_drop]
  have hbefore : ∀ line ∈ lines.take i, line.row ≠ row := by
    intro line hline hsame
    rw [hsplit, List.map_append, List.nodup_append] at hrows
    exact hrows.2.2 line.row (List.mem_map_of_mem hline) lines[i].row
      (List.mem_map_of_mem List.mem_cons_self) (hsame.trans hrow.symm)
  obtain ⟨up, down, hup, hdown, hcontext⟩ := context_eq_slice (lines.take i)
    (lines.drop (i + 1)) lines[i] limit hbefore hrow
  have hlength : (lines.take i).length = i := List.length_take_of_le (Nat.le_of_lt hi)
  have hsearchUp := search_up (lines.take i) (lines.drop (i + 1)) lines[i] hup
  have hsearchDown := search_down (lines.take i) (lines.drop (i + 1)) lines[i] hdown
  have hparagraph := isParagraph_of_runs (lines.take i) (lines.drop (i + 1)) lines[i] hup hdown
  rw [← hsplit, hlength] at hcontext hsearchUp hsearchDown hparagraph
  exact ⟨i - up, i + down, hsearchUp, hsearchDown, hcontext, hparagraph⟩

/-- The context of a row is empty exactly if no line has this row. Else it is the paragraph around
the line that has it, which the searches for its ends find. -/
theorem context_isParagraph (hrows : (lines.map Line.row).Nodup) (row : Nat)
    (limit : TruncateLimit) :
    (context lines row limit = [] ↔ ∀ line ∈ lines, line.row ≠ row) ∧
    ∀ (i : Nat) (center : Line), lines[i]? = some center → center.row = row →
      IsFoundAround lines limit i (context lines row limit) := by
  refine ⟨⟨fun hnil line hline hrow => ?_, context_eq_nil⟩,
    fun i center hcenter hrow => context_isFoundAround hrows hcenter hrow⟩
  obtain ⟨i, hi⟩ := List.mem_iff_getElem?.mp hline
  exact (context_isFoundAround hrows hi hrow).ne_nil hnil

/-- A line with a short one before it and a blank one behind it, without room for lines after it. -/
theorem context_between_short_lines :
    let lines : List Line := [⟨"intro", 2⟩, ⟨"of", 4⟩, ⟨"first", 5⟩, ⟨"", 7⟩, ⟨"  ", 9⟩]
    let limit : TruncateLimit :=
      { maxPreLines := 2, maxPostLines := 0, boundaryLineMinChars := 3 }
    (lines.map Line.row).Nodup ∧ context lines 6 limit = [] ∧
      IsFoundAround lines limit 3 (context lines 7 limit) := by
  intro lines limit
  have hrows : (lines.map Line.row).Nodup := by decide
  refine ⟨hrows, (context_isParagraph hrows 6 limit).1.mpr (by decide), ?_⟩
  exact (context_isParagraph hrows 7 limit).2 3 ⟨"", 7⟩ rfl rfl

end VaultSearch.LinesMatcher
