import Mathlib.Order.Bounds.Basic
import Mathlib.Order.MinMax
import VaultSearch.Search

/-!
# The edit distance is one

`TextEdits n a b` says that `n` edits of one character each lead from `a`
to `b`, wherever in the text they are made and in whatever order. The rows
of `editDistance` know nothing of such a sequence: they go through the two
texts side by side. `Alignment` does so too, and costs as little: the
edits that an alignment makes are a sequence of edits
(`Alignment.edits`), and a sequence of edits can be carried out along an
alignment (`TextEdits.exists_alignment`), because an alignment followed by
another is an alignment at no more than the sum of the costs. What a
row holds is then the least cost for each beginning of `b`. While a row
is written over, its first entries are those of the new row already, and
no other one is read (`Midway`); so `editDistance` is the least number of
edits (`isLeast_editDistance`), and a metric (`editDistance_metric`).
-/

namespace VaultSearch

/-! ## Edits -/

/-- One character comes in, goes out or is replaced. -/
inductive TextEdit : List Char → List Char → Prop
  | insert (front back : List Char) (c : Char) : TextEdit (front ++ back) (front ++ c :: back)
  | delete (front back : List Char) (c : Char) : TextEdit (front ++ c :: back) (front ++ back)
  | substitute (front back : List Char) (c d : Char) :
      TextEdit (front ++ c :: back) (front ++ d :: back)

/-- As many edits lead from one text to the other. -/
inductive TextEdits : Nat → List Char → List Char → Prop
  | none (a : List Char) : TextEdits 0 a a
  | more {n : Nat} {a b c : List Char} : TextEdit a b → TextEdits n b c → TextEdits (n + 1) a c

theorem TextEdit.cons {a b : List Char} (h : TextEdit a b) (x : Char) :
    TextEdit (x :: a) (x :: b) := by
  cases h with
  | insert front back c => exact .insert (x :: front) back c
  | delete front back c => exact .delete (x :: front) back c
  | substitute front back c d => exact .substitute (x :: front) back c d

theorem TextEdits.cons {n : Nat} {a b : List Char} (h : TextEdits n a b) (x : Char) :
    TextEdits n (x :: a) (x :: b) := by
  induction h with
  | none a => exact .none (x :: a)
  | more hedit _ ih => exact .more (hedit.cons x) ih

/-! ## Alignments -/

/-- The two texts can be gone through side by side with so many edits. -/
inductive Alignment : Nat → List Char → List Char → Prop
  | nil : Alignment 0 [] []
  | keep {n : Nat} {a b : List Char} (c : Char) : Alignment n a b → Alignment n (c :: a) (c :: b)
  | substitute {n : Nat} {a b : List Char} (c d : Char) :
      Alignment n a b → Alignment (n + 1) (c :: a) (d :: b)
  | delete {n : Nat} {a b : List Char} (c : Char) :
      Alignment n a b → Alignment (n + 1) (c :: a) b
  | insert {n : Nat} {a b : List Char} (d : Char) :
      Alignment n a b → Alignment (n + 1) a (d :: b)

namespace Alignment

variable {m n : Nat} {a b c : List Char}

theorem refl : ∀ a : List Char, Alignment 0 a a
  | [] => .nil
  | c :: a => .keep c (refl a)

/-- A sequence of as many edits does the same. -/
theorem edits (h : Alignment n a b) : TextEdits n a b := by
  induction h with
  | nil => exact .none []
  | keep c _ ih => exact ih.cons c
  | @substitute n a b c d _ ih => exact .more (.substitute [] a c d) (ih.cons d)
  | @delete n a b c _ ih => exact .more (.delete [] a c) ih
  | @insert n a b d _ ih => exact .more (.insert [] a d) (ih.cons d)

/-- What leads on from the second text leads on from the first, at no more than both costs. -/
theorem trans : ∀ {m n : Nat} {a b c : List Char}, Alignment m a b → Alignment n b c →
    ∃ k ≤ m + n, Alignment k a c
  | _, _, _, _, _, h, .insert d h' => by
      obtain ⟨k, hk, hac⟩ := trans h h'
      exact ⟨k + 1, by omega, hac.insert d⟩
  | _, _, _, _, _, .delete x h, h' => by
      obtain ⟨k, hk, hac⟩ := trans h h'
      exact ⟨k + 1, by omega, hac.delete x⟩
  | _, _, _, _, _, .nil, .nil => ⟨0, le_rfl, .nil⟩
  | _, _, _, _, _, .keep x h, .keep _ h' => by
      obtain ⟨k, hk, hac⟩ := trans h h'
      exact ⟨k, hk, hac.keep x⟩
  | _, _, _, _, _, .keep x h, .substitute _ z h' => by
      obtain ⟨k, hk, hac⟩ := trans h h'
      exact ⟨k + 1, by omega, hac.substitute x z⟩
  | _, _, _, _, _, .keep x h, .delete _ h' => by
      obtain ⟨k, hk, hac⟩ := trans h h'
      exact ⟨k + 1, by omega, hac.delete x⟩
  | _, _, _, _, _, .substitute x y h, .keep _ h' => by
      obtain ⟨k, hk, hac⟩ := trans h h'
      exact ⟨k + 1, by omega, hac.substitute x y⟩
  | _, _, _, _, _, .substitute x _ h, .substitute _ z h' => by
      obtain ⟨k, hk, hac⟩ := trans h h'
      exact ⟨k + 1, by omega, hac.substitute x z⟩
  | _, _, _, _, _, .substitute x _ h, .delete _ h' => by
      obtain ⟨k, hk, hac⟩ := trans h h'
      exact ⟨k + 1, by omega, hac.delete x⟩
  | _, _, _, _, _, .insert y h, .keep _ h' => by
      obtain ⟨k, hk, hac⟩ := trans h h'
      exact ⟨k + 1, by omega, hac.insert y⟩
  | _, _, _, _, _, .insert _ h, .substitute _ z h' => by
      obtain ⟨k, hk, hac⟩ := trans h h'
      exact ⟨k + 1, by omega, hac.insert z⟩
  | _, _, _, _, _, .insert _ h, .delete _ h' => by
      obtain ⟨k, hk, hac⟩ := trans h h'
      exact ⟨k, by omega, hac⟩
termination_by _ _ a b c => a.length + b.length + c.length
decreasing_by all_goals simp only [List.length_cons]; omega

theorem append (h : Alignment m a b) {a' b' : List Char} (h' : Alignment n a' b') :
    Alignment (m + n) (a ++ a') (b ++ b') := by
  induction h with
  | nil => simpa using h'
  | keep c _ ih => exact ih.keep c
  | substitute c d _ ih => rw [Nat.add_right_comm]; exact ih.substitute c d
  | delete c _ ih => rw [Nat.add_right_comm]; exact ih.delete c
  | insert d _ ih => rw [Nat.add_right_comm]; exact ih.insert d

theorem reverse (h : Alignment n a b) : Alignment n a.reverse b.reverse := by
  induction h with
  | nil => exact .nil
  | keep c _ ih =>
      rw [List.reverse_cons, List.reverse_cons]
      exact ih.append (.refl [c])
  | substitute c d _ ih =>
      rw [List.reverse_cons, List.reverse_cons]
      exact ih.append (.substitute c d .nil)
  | @delete n a b c _ ih =>
      rw [List.reverse_cons, ← List.append_nil b.reverse]
      exact ih.append (.delete c .nil)
  | @insert n a b d _ ih =>
      rw [List.reverse_cons, ← List.append_nil a.reverse]
      exact ih.append (.insert d .nil)

/-- The last characters stand beside each other, or one of them is left out. -/
theorem of_concat {x y : Char} (h : Alignment n (a ++ [x]) (b ++ [y])) :
    (x = y ∧ Alignment n a b) ∨ ∃ m, n = m + 1 ∧
      (Alignment m a b ∨ Alignment m a (b ++ [y]) ∨ Alignment m (a ++ [x]) b) := by
  have hrev := h.reverse
  rw [List.reverse_concat, List.reverse_concat] at hrev
  cases hrev with
  | keep _ hrest =>
      have hrest := hrest.reverse
      rw [List.reverse_reverse, List.reverse_reverse] at hrest
      exact .inl ⟨rfl, hrest⟩
  | @substitute m _ _ _ _ hrest =>
      have hrest := hrest.reverse
      rw [List.reverse_reverse, List.reverse_reverse] at hrest
      exact .inr ⟨m, rfl, .inl hrest⟩
  | @delete m _ _ _ hrest =>
      have hrest := hrest.reverse
      rw [List.reverse_reverse, List.reverse_cons, List.reverse_reverse] at hrest
      exact .inr ⟨m, rfl, .inr (.inl hrest)⟩
  | @insert m _ _ _ hrest =>
      have hrest := hrest.reverse
      rw [List.reverse_reverse, List.reverse_cons, List.reverse_reverse] at hrest
      exact .inr ⟨m, rfl, .inr (.inr hrest)⟩

/-- Each edit changes the length by one at most. -/
theorem length_le (h : Alignment n a b) : a.length ≤ b.length + n ∧ b.length ≤ a.length + n := by
  induction h with
  | nil => exact ⟨le_rfl, le_rfl⟩
  | keep | substitute | delete | insert =>
      simp only [List.length_cons]
      omega

end Alignment

theorem TextEdit.alignment {a b : List Char} (h : TextEdit a b) : Alignment 1 a b := by
  cases h with
  | insert front back c => exact (Alignment.refl front).append ((Alignment.refl back).insert c)
  | delete front back c => exact (Alignment.refl front).append ((Alignment.refl back).delete c)
  | substitute front back c d =>
      exact (Alignment.refl front).append ((Alignment.refl back).substitute c d)

/-- What a sequence of edits does can be done along an alignment. -/
theorem TextEdits.exists_alignment {n : Nat} {a b : List Char} (h : TextEdits n a b) :
    ∃ k ≤ n, Alignment k a b := by
  induction h with
  | none a => exact ⟨0, le_rfl, .refl a⟩
  | more hedit _ ih =>
      obtain ⟨k, hk, h⟩ := ih
      obtain ⟨l, hl, h⟩ := hedit.alignment.trans h
      exact ⟨l, by omega, h⟩

/-! ## The least cost -/

/-- The least cost of an alignment. -/
def Distance (a b : List Char) (n : Nat) : Prop := IsLeast {k | Alignment k a b} n

namespace Distance

variable {a b : List Char} {m n : Nat}

/-- An alignment costs no less than the shortest sequence of edits, and no more. -/
theorem isLeast_edits (h : Distance a b n) : IsLeast {k | TextEdits k a b} n := by
  refine ⟨h.1.edits, fun k hk => ?_⟩
  obtain ⟨l, hl, halign⟩ := TextEdits.exists_alignment hk
  exact (h.2 halign).trans hl

theorem nil_left : ∀ b : List Char, Distance [] b b.length
  | [] => ⟨.nil, fun _ _ => Nat.zero_le _⟩
  | d :: b => ⟨(nil_left b).1.insert d, fun n hn => by simpa using hn.length_le.2⟩

theorem nil_right : ∀ a : List Char, Distance a [] a.length
  | [] => ⟨.nil, fun _ _ => Nat.zero_le _⟩
  | c :: a => ⟨(nil_right a).1.delete c, fun n hn => by simpa using hn.length_le.1⟩

/-- The recurrence: the last characters stand beside each other, or one of them is left out. -/
theorem concat {c d : Char} {above left diagonal : Nat} (habove : Distance a (b ++ [d]) above)
    (hleft : Distance (a ++ [c]) b left) (hdiagonal : Distance a b diagonal) :
    Distance (a ++ [c]) (b ++ [d])
      (min (min (above + 1) (left + 1)) (diagonal + if c = d then 0 else 1)) := by
  have hdelete : Alignment (above + 1) (a ++ [c]) (b ++ [d]) := by
    have h := habove.1.append (.delete c .nil)
    rwa [List.append_nil] at h
  have hinsert : Alignment (left + 1) (a ++ [c]) (b ++ [d]) := by
    have h := hleft.1.append (.insert d .nil)
    rwa [List.append_nil] at h
  have hboth : Alignment (diagonal + if c = d then 0 else 1) (a ++ [c]) (b ++ [d]) := by
    split
    · subst d
      exact hdiagonal.1.append (.refl [c])
    · exact hdiagonal.1.append (.substitute c d .nil)
  constructor
  · change Alignment _ _ _
    rcases min_choice (min (above + 1) (left + 1)) (diagonal + if c = d then 0 else 1) with h | h
    · rw [h]
      rcases min_choice (above + 1) (left + 1) with h | h
      · rwa [h]
      · rwa [h]
    · rwa [h]
  · intro n hn
    rcases hn.of_concat with ⟨rfl, h⟩ | ⟨m, rfl, h | h | h⟩
    · have hle := hdiagonal.2 h
      rw [if_pos rfl]
      omega
    · have hle := hdiagonal.2 h
      split <;> omega
    · have hle := habove.2 h
      omega
    · have hle := hleft.2 h
      omega

end Distance

/-! ## The rows -/

/-- The first `n` entries of a row are the distances of `a` to the beginnings of `b`. -/
def RowHolds (a b : List Char) (n : Nat) (row : Array Nat) : Prop :=
  row.size = b.length + 1 ∧ ∀ k < n, Distance a (b.take k) (row.getD k 0)

namespace RowHolds

variable {a b : List Char} {n : Nat} {row : Array Nat}

theorem nil (b : List Char) : RowHolds [] b (b.length + 1) (EditRows.first b).last := by
  refine ⟨Array.size_range, fun k hk => ?_⟩
  have hdist := Distance.nil_left (b.take k)
  rw [List.length_take_of_le (by omega)] at hdist
  rwa [Array.getD_eq_getD_getElem?, EditRows.first, Array.getElem?_range, if_pos hk]

theorem write (h : RowHolds a b n row) (hn : n ≤ b.length) {x : Nat}
    (hx : Distance a (b.take n) x) : RowHolds a b (n + 1) (row.setIfInBounds n x) := by
  refine ⟨by rw [Array.size_setIfInBounds, h.1], fun k hk => ?_⟩
  rw [Array.getD_eq_getD_getElem?]
  rcases Nat.lt_succ_iff_lt_or_eq.mp hk with hlt | rfl
  · rw [Array.getElem?_setIfInBounds_ne hlt.ne', ← Array.getD_eq_getD_getElem?]
    exact h.2 k hlt
  · rw [Array.getElem?_setIfInBounds_self_of_lt (by rw [h.1]; omega)]
    exact hx

end RowHolds

/-- Midway in the next row: the last one is complete, and `c` and the beginnings of `b` with up
to `j` characters have been dealt with in the next one. -/
structure Midway (a : List Char) (c : Char) (b : List Char) (j : Nat) (rows : EditRows) : Prop where
  last : RowHolds a b (b.length + 1) rows.last
  next : RowHolds (a ++ [c]) b (j + 1) rows.next

namespace Midway

variable {a b : List Char} {c : Char} {rows : EditRows}

theorem writeEntry {front back : List Char} {d : Char} (hb : b = front ++ d :: back)
    (h : Midway a c b front.length rows) :
    Midway a c b (front.length + 1) (rows.writeEntry c (d, front.length)) := by
  have hlen : front.length < b.length := by
    rw [hb, List.length_append, List.length_cons]
    omega
  have hbefore : b.take front.length = front := by rw [hb, List.take_left]
  have hupTo : b.take (front.length + 1) = front ++ [d] := by
    rw [List.take_add_one, hbefore, hb, List.getElem?_append_right le_rfl, Nat.sub_self]
    rfl
  have habove := h.last.2 (front.length + 1) (by omega)
  have hdiagonal := h.last.2 front.length (by omega)
  have hleft := h.next.2 front.length (by omega)
  rw [hbefore] at hdiagonal hleft
  rw [hupTo] at habove
  refine ⟨h.last, h.next.write (by omega) ?_⟩
  rw [hupTo]
  exact habove.concat hleft hdiagonal

theorem writeEntries : ∀ {front back : List Char} {rows : EditRows}, b = front ++ back →
    Midway a c b front.length rows →
      Midway a c b b.length ((back.zipIdx front.length).foldl (EditRows.writeEntry c) rows)
  | front, [], _, hb, h => by
      rw [List.append_nil] at hb
      rw [hb] at h ⊢
      exact h
  | front, d :: back, rows, hb, h => by
      have hfront : (front ++ [d]).length = front.length + 1 := List.length_append
      have hstep := h.writeEntry hb
      rw [← hfront] at hstep
      have hrest := writeEntries (by rw [hb, List.append_assoc]; rfl) hstep
      rwa [hfront] at hrest

end Midway

/-- Between two rows: the last one is complete, and the other one can be written over. -/
structure Complete (a b : List Char) (rows : EditRows) : Prop where
  last : RowHolds a b (b.length + 1) rows.last
  size_next : rows.next.size = b.length + 1

namespace Complete

variable {a b : List Char} {rows : EditRows}

theorem first (b : List Char) : Complete [] b (EditRows.first b) :=
  ⟨.nil b, Array.size_replicate⟩

theorem writeRow (h : Complete a b rows) (c : Char) :
    Complete (a ++ [c]) b (rows.writeRow b (c, a.length)) := by
  have hnone : Distance (a ++ [c]) (b.take 0) (a.length + 1) := by
    have hnil := Distance.nil_right (a ++ [c])
    rwa [List.length_append] at hnil
  have hbegun : RowHolds (a ++ [c]) b 1 (rows.next.setIfInBounds 0 (a.length + 1)) :=
    RowHolds.write ⟨h.size_next, fun k hk => absurd hk (Nat.not_lt_zero k)⟩ (Nat.zero_le _) hnone
  have hmidway : Midway a c b ([] : List Char).length
      { rows with next := rows.next.setIfInBounds 0 (a.length + 1) } := ⟨h.last, hbegun⟩
  have hwritten := hmidway.writeEntries b.nil_append.symm
  exact ⟨hwritten.next, hwritten.last.1⟩

theorem writeRows : ∀ (rest : List Char) {done : List Char} {rows : EditRows},
    Complete done b rows →
      Complete (done ++ rest) b ((rest.zipIdx done.length).foldl (EditRows.writeRow b) rows)
  | [], done, _, h => by rwa [List.append_nil]
  | c :: rest, done, _, h => by
      have hrest := writeRows rest (h.writeRow c)
      rwa [List.length_append, List.append_assoc] at hrest

end Complete

theorem distance_editDistance (a b : List Char) : Distance a b (editDistance a b) := by
  rw [editDistance]
  split
  · rename_i ha
    rw [List.isEmpty_iff.mp ha]
    exact .nil_left b
  · split
    · rename_i hb
      rw [List.isEmpty_iff.mp hb]
      exact .nil_right a
    · have hrows := (Complete.first b).writeRows a
      have hlast := hrows.last.2 b.length (Nat.lt_succ_self _)
      rwa [List.take_length] at hlast

/-- The edit distance is the least number of edits. -/
theorem isLeast_editDistance (a b : List Char) :
    IsLeast {n | TextEdits n a b} (editDistance a b) :=
  (distance_editDistance a b).isLeast_edits

/-- The lengths of two texts differ by no more than their edit distance. -/
theorem length_le_editDistance (a b : List Char) :
    a.length ≤ b.length + editDistance a b ∧ b.length ≤ a.length + editDistance a b :=
  (distance_editDistance a b).1.length_le

/-! ## A metric -/

namespace Alignment

variable {n : Nat} {a b : List Char}

theorem symm (h : Alignment n a b) : Alignment n b a := by
  induction h with
  | nil => exact .nil
  | keep c _ ih => exact ih.keep c
  | substitute c d _ ih => exact ih.substitute d c
  | delete c _ ih => exact ih.insert c
  | insert d _ ih => exact ih.delete d

theorem zero_iff : Alignment 0 a b ↔ a = b := by
  constructor
  · intro h
    induction a generalizing b with
    | nil => cases h; rfl
    | cons c a ih =>
        cases h with
        | keep _ h => rw [ih h]
  · rintro rfl
    exact refl a

end Alignment

/-- The edit distance of two texts is the least number of insertions, deletions and
substitutions of one character that lead from the one to the other. It is a metric, and no less
than the difference of the lengths. -/
theorem editDistance_metric (a b : List Char) :
    IsLeast {n | TextEdits n a b} (editDistance a b) ∧
      editDistance a b = editDistance b a ∧
      (editDistance a b = 0 ↔ a = b) ∧
      (∀ c, editDistance a c ≤ editDistance a b + editDistance b c) ∧
      a.length - b.length ≤ editDistance a b ∧ b.length - a.length ≤ editDistance a b := by
  have hab := distance_editDistance a b
  have hba := distance_editDistance b a
  have hlen := hab.1.length_le
  refine ⟨hab.isLeast_edits, ?_, ?_, fun c => ?_, by omega, by omega⟩
  · exact le_antisymm (hab.2 hba.1.symm) (hba.2 hab.1.symm)
  · rw [← Alignment.zero_iff]
    constructor
    · intro hzero
      exact hzero ▸ hab.1
    · intro hnone
      exact Nat.le_zero.mp (hab.2 hnone)
  · obtain ⟨k, hk, hac⟩ := hab.1.trans (distance_editDistance b c).1
    exact ((distance_editDistance a c).2 hac).trans hk

end VaultSearch
