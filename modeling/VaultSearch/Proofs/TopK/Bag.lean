import Mathlib.Data.Multiset.AddSub
import VaultSearch.Proofs.TopK.HeapOrder

/-!
# A heap is a bounded bag

What matters of a heap is its `bag`, the items in it. A bag with room for
so many items says what a heap has to do: `Offer` when an item is pushed
and `Withdrawal` when one is popped. A heap in order within its bounds
(`WellFormed`) does that, and stays one (`WellFormed.push`,
`WellFormed.pop`). The only use that is made of the heap order is that the
first item is as bad as any (`WellFormed.isWorst`).
-/

namespace VaultSearch.TopK

variable {α : Type} {cmp : α → α → Ordering}

/-! ## Bags -/

/-- The items that are kept. -/
def bag (q : TopK α) : Multiset α := q.items.toList

/-- An item of the bag than which none is worse. -/
def IsWorst (cmp : α → α → Ordering) (s : Multiset α) (w : α) : Prop :=
  w ∈ s ∧ ∀ a ∈ s, (cmp w a).isLE

/-- How a bag with room for `capacity` items takes `a`: whether it is kept, and what is in the bag
then. In a full bag it takes the place of a worst item, if it is better than that. -/
inductive Offer (cmp : α → α → Ordering) (capacity : Nat) (a : α) :
    Multiset α → Bool → Multiset α → Prop
  | room {s : Multiset α} : s.card < capacity → Offer cmp capacity a s true (a ::ₘ s)
  | better {s : Multiset α} {w : α} : (w ::ₘ s).card = capacity → IsWorst cmp (w ::ₘ s) w →
      cmp a w = .gt → Offer cmp capacity a (w ::ₘ s) true (a ::ₘ s)
  | noBetter {s : Multiset α} : s.card = capacity → (∀ w, IsWorst cmp s w → cmp a w ≠ .gt) →
      Offer cmp capacity a s false s

/-- How an item is taken out of a bag: a worst one, if there is any. -/
inductive Withdrawal (cmp : α → α → Ordering) : Multiset α → Option α → Multiset α → Prop
  | none : Withdrawal cmp 0 none 0
  | worst {s : Multiset α} {w : α} : IsWorst cmp (w ::ₘ s) w →
      Withdrawal cmp (w ::ₘ s) (some w) s

/-- No item that is worse than another is a worst one. -/
theorem IsWorst.not_gt [Std.TransCmp cmp] {s : Multiset α} {a w w' : α} (hw : IsWorst cmp s w)
    (hw' : IsWorst cmp s w') (h : cmp a w ≠ .gt) : cmp a w' ≠ .gt := by
  rw [ne_eq, Ordering.ne_gt_iff_isLE] at h ⊢
  exact Std.TransCmp.isLE_trans h (hw.2 w' hw'.1)

/-! ## The bags of a heap -/

variable {q : TopK α}

theorem card_bag (q : TopK α) : q.bag.card = q.size := by
  rw [bag, Multiset.coe_card, Array.length_toList, size]

theorem coe_toList_eq_of_perm {items other : Array α} (h : items.Perm other) :
    (items.toList : Multiset α) = other.toList :=
  Multiset.coe_eq_coe.mpr (Array.perm_iff_toList_perm.mp h)

/-- The first item and the others. -/
theorem exists_cons_of_peek? {w : α} (h : q.peek? = some w) :
    ∃ rest, q.items.toList = w :: rest := by
  rw [peek?, ← Array.getElem?_toList] at h
  cases hitems : q.items.toList with
  | nil => rw [hitems] at h; cases h
  | cons a rest =>
      rw [hitems] at h
      obtain rfl := Option.some.inj h
      exact ⟨rest, rfl⟩

theorem peek?_eq_none_iff : q.peek? = none ↔ q.bag = 0 := by
  rw [peek?, Array.getElem?_eq_none_iff, Nat.le_zero, ← Multiset.card_eq_zero, card_bag, size]

/-- A heap with its items in order, no more of them than it may have. -/
structure WellFormed (cmp : α → α → Ordering) (q : TopK α) : Prop where
  ordered : HeapOrdered cmp q.items
  bounded : q.size ≤ q.capacity

namespace WellFormed

theorem empty (cmp : α → α → Ordering) (capacity : Nat) :
    WellFormed cmp ({ capacity } : TopK α) where
  ordered _ _ := worseAt_eq_false_of_size_le (Nat.zero_le _)
  bounded := Nat.zero_le _

/-- The first item is a worst one. -/
theorem isWorst [Std.TransCmp cmp] (h : WellFormed cmp q) {w : α} (hw : q.peek? = some w) :
    IsWorst cmp q.bag w := by
  refine ⟨?_, fun a ha => ?_⟩
  · obtain ⟨rest, hitems⟩ := exists_cons_of_peek? hw
    rw [bag, hitems]
    exact List.mem_cons_self
  · obtain ⟨j, hj⟩ := List.mem_iff_getElem?.mp ha
    rw [Array.getElem?_toList] at hj
    exact worseAt_eq_false_iff.mp (h.ordered.root j) a w hj hw

end WellFormed

/-! ## Pushing -/

theorem orderedButUp_push {items : Array α} (h : HeapOrdered cmp items) (a : α) :
    OrderedButUp cmp (items.push a) items.size := by
  constructor
  · intro j hj hne
    rcases Nat.lt_or_gt_of_ne hne with hlt | hgt
    · have hparent := (parent_lt hj).trans hlt
      have hkept : ∀ k < items.size, (items.push a)[k]? = items[k]? := by
        intro k hk
        rw [Array.getElem?_push_lt hk, Array.getElem?_eq_getElem hk]
      rw [← h j hj]
      exact worseAt_congr (hkept j hlt) (hkept _ hparent)
    · exact worseAt_eq_false_of_size_le (by rw [Array.size_push]; omega)
  · intro _ j hj hchild
    have hlt := parent_lt hj
    exact worseAt_eq_false_of_size_le (by rw [Array.size_push]; omega)

theorem orderedButDown_set {items : Array α} (h : HeapOrdered cmp items) (a : α) :
    OrderedButDown cmp (items.setIfInBounds 0 a) 0 := by
  refine ⟨fun j hj hparent => ?_, fun hpos => absurd hpos (Nat.lt_irrefl 0)⟩
  rw [← h j hj]
  exact worseAt_congr (Array.getElem?_setIfInBounds_ne hj.ne)
    (Array.getElem?_setIfInBounds_ne (Ne.symm hparent))

/-- What a push does. -/
theorem push_cases (cmp : α → α → Ordering) (q : TopK α) (a : α) :
    (q.size < q.capacity ∧
      q.push cmp a = ({ q with items := siftUp cmp (q.items.push a) q.size }, true)) ∨
    (¬q.size < q.capacity ∧ (∀ w, q.peek? = some w → q.capacity = 0 ∨ cmp a w ≠ .gt) ∧
      q.push cmp a = (q, false)) ∨
    (¬q.size < q.capacity ∧ ∃ w, q.peek? = some w ∧ cmp a w = .gt ∧
      q.push cmp a =
        ({ q with items := siftDown cmp q.size (q.items.setIfInBounds 0 a) 0 }, true)) := by
  rw [push]
  split
  · rename_i hroom
    exact .inl ⟨hroom, rfl⟩
  · rename_i hfull
    right
    split
    · rename_i hnone
      refine .inl ⟨hfull, fun w hw => ?_, rfl⟩
      cases hnone.symm.trans hw
    · rename_i w hw
      split
      · rename_i hstay
        refine .inl ⟨hfull, fun w' hw' => ?_, rfl⟩
        obtain rfl := Option.some.inj (hw.symm.trans hw')
        simpa using hstay
      · rename_i hbetter
        refine .inr ⟨hfull, w, hw, ?_, ?_⟩
        · simp only [Bool.or_eq_true, decide_eq_true_eq, bne_iff_ne, not_or, not_not] at hbetter
          exact hbetter.2
        · rw [size, ← Array.size_setIfInBounds]

theorem capacity_push (cmp : α → α → Ordering) (q : TopK α) (a : α) :
    (q.push cmp a).1.capacity = q.capacity := by
  rcases push_cases cmp q a with ⟨-, h⟩ | ⟨-, -, h⟩ | ⟨-, -, -, -, h⟩ <;> rw [h]

theorem bag_siftUp_push (cmp : α → α → Ordering) (q : TopK α) (a : α) :
    bag { q with items := siftUp cmp (q.items.push a) q.size } = a ::ₘ q.bag := by
  rw [bag, coe_toList_eq_of_perm (perm_siftUp cmp _ _), Array.toList_push, bag,
    Multiset.cons_coe, Multiset.coe_eq_coe]
  exact List.perm_append_singleton a _

/-- The item that is pushed takes the place of the first one. -/
theorem bag_siftDown_set (cmp : α → α → Ordering) {w : α} (hw : q.peek? = some w) (a : α) :
    ∃ s, q.bag = w ::ₘ s ∧
      bag { q with items := siftDown cmp q.size (q.items.setIfInBounds 0 a) 0 } = a ::ₘ s := by
  obtain ⟨rest, hitems⟩ := exists_cons_of_peek? hw
  refine ⟨rest, by rw [bag, hitems, Multiset.cons_coe], ?_⟩
  rw [bag, coe_toList_eq_of_perm (perm_siftDown cmp _ _ _), Array.toList_setIfInBounds, hitems,
    List.set_cons_zero, Multiset.cons_coe]

namespace WellFormed

theorem peek?_of_capacity_eq_zero (h : WellFormed cmp q) (hzero : q.capacity = 0) :
    q.peek? = none := by
  have hbounded := h.bounded
  rw [peek?_eq_none_iff, ← Multiset.card_eq_zero, card_bag]
  omega

variable [Std.TransCmp cmp]

theorem push (h : WellFormed cmp q) (a : α) : WellFormed cmp (q.push cmp a).1 := by
  rcases push_cases cmp q a with ⟨hroom, hpush⟩ | ⟨-, -, hpush⟩ | ⟨hfull, w, hw, -, hpush⟩
  · rw [hpush]
    constructor
    · exact heapOrdered_siftUp _ _ (orderedButUp_push h.ordered a)
    · rw [size, (perm_siftUp cmp _ _).size_eq, Array.size_push]
      exact hroom
  · rw [hpush]
    exact h
  · rw [hpush]
    constructor
    · refine heapOrdered_siftDown _ ?_ (orderedButDown_set h.ordered a)
      rw [Array.size_setIfInBounds, Nat.zero_add, size]
    · rw [size, (perm_siftDown cmp _ _ _).size_eq, Array.size_setIfInBounds]
      exact h.bounded

/-- A push is an offer to the bag. -/
theorem offer (h : WellFormed cmp q) (a : α) :
    Offer cmp q.capacity a q.bag (q.push cmp a).2 (q.push cmp a).1.bag := by
  have hcard := card_bag q
  have hbounded := h.bounded
  rcases push_cases cmp q a with ⟨hroom, hpush⟩ | ⟨hfull, hno, hpush⟩ | ⟨hfull, w, hw, hgt, hpush⟩
  · rw [hpush, bag_siftUp_push]
    exact .room (by omega)
  · rw [hpush]
    refine .noBetter (by omega) fun w' hw' => ?_
    cases hpeek : q.peek? with
    | none =>
        rw [peek?_eq_none_iff.mp hpeek] at hw'
        exact absurd hw'.1 (Multiset.notMem_zero w')
    | some w =>
        have hsome : q.capacity ≠ 0 := fun hzero => by
          rw [h.peek?_of_capacity_eq_zero hzero] at hpeek
          cases hpeek
        exact (h.isWorst hpeek).not_gt hw' ((hno w hpeek).resolve_left hsome)
  · obtain ⟨s, hbag, hnew⟩ := bag_siftDown_set cmp hw a
    have hworst := h.isWorst hw
    rw [hpush, hnew]
    rw [hbag] at hcard hworst ⊢
    exact .better (by omega) hworst hgt

end WellFormed

/-! ## Popping -/

/-- The items without the first one; the last one has its place. -/
def withoutFirst (items : Array α) : Array α := (items.swapIfInBounds 0 (items.size - 1)).pop

theorem size_withoutFirst (items : Array α) : (withoutFirst items).size = items.size - 1 := by
  rw [withoutFirst, Array.size_pop, Array.size_swapIfInBounds]

theorem orderedButDown_pop {items : Array α} (h : HeapOrdered cmp items) :
    OrderedButDown cmp (withoutFirst items) 0 := by
  refine ⟨fun j hj hparent => ?_, fun hpos => absurd hpos (Nat.lt_irrefl 0)⟩
  rcases Nat.lt_or_ge j (items.size - 1) with hlt | hge
  · -- neither of the two items stands at the places that are compared
    have hkept : ∀ k, 0 < k → k < items.size - 1 →
        (withoutFirst items)[k]? = items[k]? := by
      intro k hpos hk
      rw [withoutFirst, Array.getElem?_pop, if_pos (by rw [Array.size_swapIfInBounds]; exact hk),
        getElem?_swapIfInBounds (by omega) (by omega),
        Equiv.swap_apply_of_ne_of_ne hpos.ne' hk.ne]
    rw [← h j hj]
    exact worseAt_congr (hkept j hj hlt)
      (hkept _ (Nat.pos_of_ne_zero hparent) ((parent_lt hj).trans hlt))
  · exact worseAt_eq_false_of_size_le (by rwa [size_withoutFirst])

/-- The items without the first one. -/
theorem bag_eq_cons {w : α} (hw : q.peek? = some w) :
    q.bag = w ::ₘ ((withoutFirst q.items).toList : Multiset α) := by
  have hsize : 0 < q.items.size := (Array.getElem?_eq_some_iff.mp hw).1
  have hlast : (q.items.swapIfInBounds 0 (q.items.size - 1)).toList.getLast? = some w := by
    rw [List.getLast?_eq_getElem?, Array.getElem?_toList, Array.length_toList,
      Array.size_swapIfInBounds, getElem?_swapIfInBounds hsize (by omega),
      Equiv.swap_apply_right]
    exact hw
  rw [bag, ← coe_toList_eq_of_perm (perm_swapIfInBounds q.items 0 (q.items.size - 1)),
    ← List.dropLast_append_getLast? w hlast, ← Array.toList_pop, ← withoutFirst,
    Multiset.cons_coe, Multiset.coe_eq_coe]
  exact List.perm_append_singleton w _

/-- What a pop does. -/
theorem pop_cases (cmp : α → α → Ordering) (q : TopK α) :
    (q.peek? = none ∧ q.pop cmp = (q, none)) ∨ ∃ w, q.peek? = some w ∧
      q.pop cmp =
        ({ q with items :=
            siftDown cmp (withoutFirst q.items).size (withoutFirst q.items) 0 }, some w) := by
  rw [pop]
  split
  · rename_i hnone
    exact .inl ⟨hnone, rfl⟩
  · rename_i w hw
    exact .inr ⟨w, hw, rfl⟩

theorem capacity_pop (cmp : α → α → Ordering) (q : TopK α) :
    (q.pop cmp).1.capacity = q.capacity := by
  rcases pop_cases cmp q with ⟨-, h⟩ | ⟨w, -, h⟩ <;> rw [h]

/-- A pop takes the first item out of the bag. -/
theorem bag_pop (cmp : α → α → Ordering) {w : α} (hw : q.peek? = some w) :
    q.bag = w ::ₘ (q.pop cmp).1.bag ∧ (q.pop cmp).2 = some w := by
  rcases pop_cases cmp q with ⟨hnone, -⟩ | ⟨w', hw', hpop⟩
  · rw [hnone] at hw
    cases hw
  · obtain rfl := Option.some.inj (hw.symm.trans hw')
    refine ⟨?_, by rw [hpop]⟩
    rw [hpop, bag_eq_cons hw]
    exact congrArg _ (coe_toList_eq_of_perm (perm_siftDown cmp _ _ _)).symm

theorem pop_of_peek?_eq_none (cmp : α → α → Ordering) (h : q.peek? = none) :
    q.pop cmp = (q, none) := by
  rcases pop_cases cmp q with ⟨-, hpop⟩ | ⟨w, hw, -⟩
  · exact hpop
  · rw [h] at hw
    cases hw

namespace WellFormed

variable [Std.TransCmp cmp]

theorem pop (h : WellFormed cmp q) : WellFormed cmp (q.pop cmp).1 := by
  rcases pop_cases cmp q with ⟨-, hpop⟩ | ⟨w, -, hpop⟩
  · rw [hpop]
    exact h
  · rw [hpop]
    constructor
    · exact heapOrdered_siftDown _ (Nat.zero_add _).ge (orderedButDown_pop h.ordered)
    · rw [size, (perm_siftDown cmp _ _ _).size_eq, size_withoutFirst]
      exact (Nat.sub_le _ _).trans h.bounded

/-- A pop is a withdrawal from the bag. -/
theorem withdrawal (h : WellFormed cmp q) :
    Withdrawal cmp q.bag (q.pop cmp).2 (q.pop cmp).1.bag := by
  cases hpeek : q.peek? with
  | none =>
      rw [pop_of_peek?_eq_none cmp hpeek, peek?_eq_none_iff.mp hpeek]
      exact .none
  | some w =>
      obtain ⟨hbag, hout⟩ := bag_pop cmp hpeek
      have hworst := h.isWorst hpeek
      rw [hbag] at hworst ⊢
      rw [hout]
      exact .worst hworst

end WellFormed

end VaultSearch.TopK
