import Mathlib.Logic.Equiv.Basic
import Mathlib.Order.Nat
import VaultSearch.TopK

/-!
# Heap order

No item of a heap is worse than the one above it (`HeapOrdered`). Each of
the two loops that repair this order has one place at which it may be
broken: `siftUp` between an item and the one above it (`OrderedButUp`),
`siftDown` between an item and those below it (`OrderedButDown`). Either
way what stands below the item in question is not worse than what stands
above it. A move keeps this with the next place, and the loop ends where
nothing is broken (`heapOrdered_siftUp`, `heapOrdered_siftDown`).

A swap of two items is a change of the places that are compared
(`worseAt_swapIfInBounds`), so that what a move does is a matter of places.
-/

namespace VaultSearch.TopK

variable {α : Type} {cmp : α → α → Ordering} {items : Array α} {i j k : Nat}

/-! ## Comparisons by place -/

/-- The place above another one. -/
def parent (i : Nat) : Nat := (i - 1) / 2

theorem parent_lt (h : 0 < i) : parent i < i := by
  unfold parent
  omega

theorem eq_of_parent_eq (h : 0 < j) (hj : parent j = i) : j = 2 * i + 1 ∨ j = 2 * i + 2 := by
  unfold parent at hj
  omega

theorem worseAt_iff : worseAt cmp items i j = true ↔
    ∃ a b, items[i]? = some a ∧ items[j]? = some b ∧ cmp a b = .lt := by
  rw [worseAt]
  split
  · rename_i a b ha hb
    simp [ha, hb]
  · rename_i hnone
    constructor
    · nofun
    · rintro ⟨a, b, ha, hb, -⟩
      exact (hnone a b ha hb).elim

theorem lt_size_of_worseAt (h : worseAt cmp items i j = true) :
    i < items.size ∧ j < items.size := by
  obtain ⟨a, b, ha, hb, -⟩ := worseAt_iff.mp h
  exact ⟨(Array.getElem?_eq_some_iff.mp ha).1, (Array.getElem?_eq_some_iff.mp hb).1⟩

theorem worseAt_eq_false_of_size_le (h : items.size ≤ i) : worseAt cmp items i j = false :=
  eq_false_of_ne_true fun hworse => absurd (lt_size_of_worseAt hworse).1 (Nat.not_lt.mpr h)

theorem worseAt_congr {other : Array α} {i' j' : Nat} (hi : other[i']? = items[i]?)
    (hj : other[j']? = items[j]?) : worseAt cmp other i' j' = worseAt cmp items i j := by
  rw [worseAt, worseAt, hi, hj]

theorem getElem?_swapIfInBounds (hi : i < items.size) (hj : j < items.size) (k : Nat) :
    (items.swapIfInBounds i j)[k]? = items[Equiv.swap i j k]? := by
  rw [Array.swapIfInBounds_def, dif_pos hi, dif_pos hj, Array.getElem?_swap, Equiv.swap_apply_def]
  by_cases hki : k = i
  · subst hki
    rw [if_pos rfl, if_pos rfl, Array.getElem?_eq_getElem hj]
    split
    · rename_i hjk
      subst hjk
      rfl
    · rfl
  · rw [if_neg hki]
    by_cases hkj : k = j
    · subst hkj
      rw [if_pos rfl, if_pos rfl, Array.getElem?_eq_getElem hi]
    · rw [if_neg (Ne.symm hkj), if_neg (Ne.symm hki), if_neg hkj]

/-- After a swap the items at two places compare as those did that came there. -/
theorem worseAt_swapIfInBounds (hi : i < items.size) (hj : j < items.size) (k l : Nat) :
    worseAt cmp (items.swapIfInBounds i j) k l =
      worseAt cmp items (Equiv.swap i j k) (Equiv.swap i j l) :=
  worseAt_congr (getElem?_swapIfInBounds hi hj k) (getElem?_swapIfInBounds hi hj l)

theorem perm_swapIfInBounds (items : Array α) (i j : Nat) :
    (items.swapIfInBounds i j).Perm items := by
  rw [Array.swapIfInBounds_def]
  split
  · split
    · exact Array.swap_perm _ _
    · exact .refl _
  · exact .refl _

section Order

variable [Std.TransCmp cmp]

theorem worseAt_eq_false_iff : worseAt cmp items i j = false ↔
    ∀ a b, items[i]? = some a → items[j]? = some b → (cmp b a).isLE := by
  rw [← Bool.not_eq_true, worseAt_iff]
  constructor
  · intro h a b ha hb
    by_contra hba
    exact h ⟨a, b, ha, hb, Std.OrientedCmp.lt_of_not_isLE hba⟩
  · rintro h ⟨a, b, ha, hb, hab⟩
    exact Std.OrientedCmp.not_isLE_of_lt hab (h a b ha hb)

theorem not_worseAt_self (items : Array α) (i : Nat) : worseAt cmp items i i = false := by
  rw [worseAt_eq_false_iff]
  intro a b ha hb
  obtain rfl := Option.some.inj (ha.symm.trans hb)
  exact Std.ReflCmp.isLE_rfl

theorem not_worseAt_of_worseAt (h : worseAt cmp items i j = true) :
    worseAt cmp items j i = false := by
  obtain ⟨a, b, ha, hb, hab⟩ := worseAt_iff.mp h
  rw [worseAt_eq_false_iff]
  intro b' a' hb' ha'
  obtain rfl := Option.some.inj (ha.symm.trans ha')
  obtain rfl := Option.some.inj (hb.symm.trans hb')
  rw [hab]
  rfl

theorem not_worseAt_trans (hk : k < items.size) (hik : worseAt cmp items i k = false)
    (hkj : worseAt cmp items k j = false) : worseAt cmp items i j = false := by
  rw [worseAt_eq_false_iff] at *
  intro a b ha hb
  have hc := Array.getElem?_eq_getElem hk
  exact Std.TransCmp.isLE_trans (hkj _ b hc hb) (hik a _ ha hc)

theorem worseAt_trans (hij : worseAt cmp items i j = true) (hjk : worseAt cmp items j k = true) :
    worseAt cmp items i k = true := by
  obtain ⟨a, b, ha, hb, hab⟩ := worseAt_iff.mp hij
  obtain ⟨b', c, hb', hc, hbc⟩ := worseAt_iff.mp hjk
  obtain rfl := Option.some.inj (hb.symm.trans hb')
  exact worseAt_iff.mpr ⟨a, c, ha, hc, Std.TransCmp.lt_trans hab hbc⟩

end Order

/-! ## The order of a heap -/

/-- No item is worse than the one above it. -/
def HeapOrdered (cmp : α → α → Ordering) (items : Array α) : Prop :=
  ∀ j, 0 < j → worseAt cmp items j (parent j) = false

/-- What stands below the item at `i` is not worse than what stands above it. -/
def OrderedAround (cmp : α → α → Ordering) (items : Array α) (i : Nat) : Prop :=
  0 < i → ∀ j, 0 < j → parent j = i → worseAt cmp items j (parent i) = false

/-- The order of a heap, but for the item at `i` and the one above it. -/
structure OrderedButUp (cmp : α → α → Ordering) (items : Array α) (i : Nat) : Prop where
  others : ∀ j, 0 < j → j ≠ i → worseAt cmp items j (parent j) = false
  around : OrderedAround cmp items i

/-- The order of a heap, but for the item at `i` and those below it. -/
structure OrderedButDown (cmp : α → α → Ordering) (items : Array α) (i : Nat) : Prop where
  others : ∀ j, 0 < j → parent j ≠ i → worseAt cmp items j (parent j) = false
  around : OrderedAround cmp items i

/-- The first item of a heap is as bad as any. -/
theorem HeapOrdered.root [Std.TransCmp cmp] (h : HeapOrdered cmp items) :
    ∀ j, worseAt cmp items j 0 = false := by
  intro j
  induction j using Nat.strongRecOn with
  | ind j ih =>
    rcases Nat.eq_zero_or_pos j with rfl | hj
    · exact not_worseAt_self items 0
    · have hlt := parent_lt hj
      rcases Nat.lt_or_ge j items.size with hsize | hsize
      · exact not_worseAt_trans (hlt.trans hsize) (h j hj) (ih (parent j) hlt)
      · exact worseAt_eq_false_of_size_le hsize

/-! ## Towards the root -/

section Up

theorem OrderedButUp.heapOrdered (h : OrderedButUp cmp items i)
    (hstop : 0 < i → worseAt cmp items i (parent i) = false) : HeapOrdered cmp items := by
  intro j hj
  by_cases hji : j = i
  · subst hji
    exact hstop hj
  · exact h.others j hj hji

variable [Std.TransCmp cmp]

theorem OrderedButUp.move (h : OrderedButUp cmp items i) (hi : 0 < i)
    (hworse : worseAt cmp items i (parent i) = true) :
    OrderedButUp cmp (items.swapIfInBounds i (parent i)) (parent i) := by
  obtain ⟨hisize, hpsize⟩ := lt_size_of_worseAt hworse
  have hpi := parent_lt hi
  have hback := not_worseAt_of_worseAt hworse
  constructor
  · intro j hj hjp
    rw [worseAt_swapIfInBounds hisize hpsize]
    by_cases hji : j = i
    · -- the two items that changed places
      subst hji
      rwa [Equiv.swap_apply_left, Equiv.swap_apply_right]
    · rw [Equiv.swap_apply_of_ne_of_ne hji hjp]
      by_cases hchild : parent j = i
      · rw [hchild, Equiv.swap_apply_left]
        exact h.around hi j hj hchild
      · by_cases hsibling : parent j = parent i
        · -- what stands beside the item is not worse than the item that came down
          rw [hsibling, Equiv.swap_apply_right]
          have hjp := h.others j hj hji
          rw [hsibling] at hjp
          exact not_worseAt_trans hpsize hjp hback
        · rw [Equiv.swap_apply_of_ne_of_ne hchild hsibling]
          exact h.others j hj hji
  · intro hp j hj hjp
    have hpp := parent_lt hp
    have habove := h.others (parent i) hp hpi.ne
    rw [worseAt_swapIfInBounds hisize hpsize,
      Equiv.swap_apply_of_ne_of_ne (hpp.trans hpi).ne hpp.ne]
    by_cases hji : j = i
    · subst hji
      rwa [Equiv.swap_apply_left]
    · have hjne : j ≠ parent i := by
        intro heq
        have hlt := parent_lt hj
        omega
      rw [Equiv.swap_apply_of_ne_of_ne hji hjne]
      have hjparent := h.others j hj hji
      rw [hjp] at hjparent
      exact not_worseAt_trans hpsize hjparent habove

/-- `siftUp` repairs the order. -/
theorem heapOrdered_siftUp (items : Array α) (i : Nat) (h : OrderedButUp cmp items i) :
    HeapOrdered cmp (siftUp cmp items i) := by
  induction items, i using siftUp.induct cmp with
  | case1 items i hi p hworse ih =>
      rw [siftUp, dif_pos hi, if_pos hworse]
      exact ih (h.move hi hworse)
  | case2 items i hi p hworse =>
      rw [siftUp, dif_pos hi, if_neg hworse]
      exact h.heapOrdered fun _ => eq_false_of_ne_true hworse
  | case3 items i hi =>
      rw [siftUp, dif_neg hi]
      exact h.heapOrdered fun hpos => absurd hpos hi

end Up

theorem perm_siftUp (cmp : α → α → Ordering) (items : Array α) (i : Nat) :
    (siftUp cmp items i).Perm items := by
  induction items, i using siftUp.induct cmp with
  | case1 items i hi p hworse ih =>
      rw [siftUp, dif_pos hi, if_pos hworse]
      exact ih.trans (perm_swapIfInBounds items i (parent i))
  | case2 items i hi p hworse =>
      rw [siftUp, dif_pos hi, if_neg hworse]
  | case3 items i hi =>
      rw [siftUp, dif_neg hi]

/-! ## Away from the root -/

section Down

/-- What is chosen of an item and those below it: no other one is worse, and if it is not the
item itself, it is worse than that. -/
structure IsWorstOfFamily (cmp : α → α → Ordering) (items : Array α) (i worst : Nat) : Prop where
  member : worst = i ∨ (0 < worst ∧ parent worst = i ∧ worseAt cmp items worst i = true)
  least : ∀ j, 0 < j → parent j = i → worseAt cmp items j worst = false

theorem OrderedButDown.heapOrdered (h : OrderedButDown cmp items i)
    (hstop : ∀ j, 0 < j → parent j = i → worseAt cmp items j i = false) :
    HeapOrdered cmp items := by
  intro j hj
  by_cases hji : parent j = i
  · rw [hji]
    exact hstop j hj hji
  · exact h.others j hj hji

theorem isWorstOfFamily (cmp : α → α → Ordering) [Std.TransCmp cmp] (items : Array α) (i : Nat) :
    IsWorstOfFamily cmp items i (worstOfFamily cmp items i) := by
  have hleft : parent (2 * i + 1) = i := by unfold parent; omega
  have hright : parent (2 * i + 1 + 1) = i := by unfold parent; omega
  unfold worstOfFamily
  dsimp only
  split_ifs with hli hrl hri
  · refine ⟨.inr ⟨by omega, hright, worseAt_trans hrl hli⟩, fun j hj hji => ?_⟩
    rcases eq_of_parent_eq hj hji with rfl | rfl
    · exact not_worseAt_of_worseAt hrl
    · exact not_worseAt_self items _
  · refine ⟨.inr ⟨by omega, hleft, hli⟩, fun j hj hji => ?_⟩
    rcases eq_of_parent_eq hj hji with rfl | rfl
    · exact not_worseAt_self items _
    · exact eq_false_of_ne_true hrl
  · refine ⟨.inr ⟨by omega, hright, hri⟩, fun j hj hji => ?_⟩
    rcases eq_of_parent_eq hj hji with rfl | rfl
    · exact not_worseAt_trans (lt_size_of_worseAt hri).2 (eq_false_of_ne_true hli)
        (not_worseAt_of_worseAt hri)
    · exact not_worseAt_self items _
  · refine ⟨.inl rfl, fun j hj hji => ?_⟩
    rcases eq_of_parent_eq hj hji with rfl | rfl
    · exact eq_false_of_ne_true hli
    · exact eq_false_of_ne_true hri

variable [Std.TransCmp cmp]

theorem OrderedButDown.move (h : OrderedButDown cmp items i) (hk : 0 < k) (hki : parent k = i)
    (hworse : worseAt cmp items k i = true)
    (hleast : ∀ j, 0 < j → parent j = i → worseAt cmp items j k = false) :
    OrderedButDown cmp (items.swapIfInBounds i k) k := by
  obtain ⟨hksize, hisize⟩ := lt_size_of_worseAt hworse
  have hik : i < k := hki ▸ parent_lt hk
  have hback := not_worseAt_of_worseAt hworse
  constructor
  · intro j hj hjk
    rw [worseAt_swapIfInBounds hisize hksize]
    by_cases hji : j = i
    · -- the item that came up stands below what stood above the other one
      subst hji
      have hlt := parent_lt hj
      rw [Equiv.swap_apply_left, Equiv.swap_apply_of_ne_of_ne hlt.ne (hlt.trans hik).ne]
      exact h.around hj k hk hki
    · by_cases hjk' : j = k
      · subst hjk'
        rwa [hki, Equiv.swap_apply_left, Equiv.swap_apply_right]
      · rw [Equiv.swap_apply_of_ne_of_ne hji hjk']
        by_cases hsibling : parent j = i
        · rw [hsibling, Equiv.swap_apply_left]
          exact hleast j hj hsibling
        · rw [Equiv.swap_apply_of_ne_of_ne hsibling hjk]
          exact h.others j hj hsibling
  · intro _ j hj hjk
    have hkj : k < j := hjk ▸ parent_lt hj
    rw [worseAt_swapIfInBounds hisize hksize, hki, Equiv.swap_apply_left,
      Equiv.swap_apply_of_ne_of_ne (hik.trans hkj).ne' hkj.ne']
    have hjparent := h.others j hj (by omega)
    rwa [hjk] at hjparent

/-- `siftDown` repairs the order, if it may make as many moves as there are places from `i` on. -/
theorem heapOrdered_siftDown : ∀ (fuel : Nat) {items : Array α} {i : Nat},
    items.size ≤ i + fuel → OrderedButDown cmp items i → HeapOrdered cmp (siftDown cmp fuel items i)
  | 0, items, i, hfuel, h => h.heapOrdered fun j hj hji =>
      worseAt_eq_false_of_size_le (hfuel.trans (hji ▸ (parent_lt hj).le))
  | fuel + 1, items, i, hfuel, h => by
      obtain ⟨hmember, hleast⟩ := isWorstOfFamily cmp items i
      rw [siftDown]
      split
      · rename_i hstop
        rw [hstop] at hleast
        exact h.heapOrdered hleast
      · rename_i hmove
        obtain ⟨hpos, hparent, hworse⟩ := hmember.resolve_left hmove
        have hlt := parent_lt hpos
        rw [hparent] at hlt
        refine heapOrdered_siftDown fuel ?_ (h.move hpos hparent hworse hleast)
        rw [Array.size_swapIfInBounds]
        omega

end Down

theorem perm_siftDown (cmp : α → α → Ordering) : ∀ (fuel : Nat) (items : Array α) (i : Nat),
    (siftDown cmp fuel items i).Perm items
  | 0, items, _ => .refl items
  | fuel + 1, items, i => by
      rw [siftDown]
      split
      · exact .refl items
      · exact (perm_siftDown cmp fuel _ _).trans (perm_swapIfInBounds items _ _)

end VaultSearch.TopK
