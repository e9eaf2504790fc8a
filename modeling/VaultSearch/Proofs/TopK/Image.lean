import VaultSearch.Proofs.TopK.Best

/-!
# Heaps that compare by an image

A heap of items that are compared by their images under a map is, item by
item, a heap of the images (`pushAll_map`, `toSortedList_map`). So what is
known of a comparison that orders all items is true of one that orders only
those that are pushed: they are taken as the members of their list
(`exists_best_of_members`).

A comparison may fail to order even those. A heap then lists no item but them
(`mem_of_mem_toSortedList`), and if it has room for one and any was pushed, it
lists some (`toSortedList_ne_nil`).
-/

namespace VaultSearch.TopK

variable {α β : Type} (cmp : α → α → Ordering) (f : β → α)

/-- The comparison of items by their images. -/
def comparedBy (a b : β) : Ordering := cmp (f a) (f b)

/-- The heap of the images. -/
def map (q : TopK β) : TopK α := { capacity := q.capacity, items := q.items.map f }

theorem worseAt_map (items : Array β) (i j : Nat) :
    worseAt cmp (items.map f) i j = worseAt (comparedBy cmp f) items i j := by
  rw [worseAt, worseAt, Array.getElem?_map, Array.getElem?_map]
  cases items[i]? <;> cases items[j]? <;> rfl

theorem map_swapIfInBounds (items : Array β) (i j : Nat) :
    (items.swapIfInBounds i j).map f = (items.map f).swapIfInBounds i j := by
  rw [Array.swapIfInBounds_def, Array.swapIfInBounds_def]
  by_cases hi : i < items.size
  · by_cases hj : j < items.size
    · rw [dif_pos hi, dif_pos hj, dif_pos (by rwa [Array.size_map]),
        dif_pos (by rwa [Array.size_map]), Array.swap_def, Array.swap_def]
      simp only [Array.map_set, Array.getElem_map]
    · rw [dif_pos hi, dif_neg hj, dif_pos (by rwa [Array.size_map]),
        dif_neg (by rwa [Array.size_map])]
  · rw [dif_neg hi, dif_neg (by rwa [Array.size_map])]

theorem siftUp_map (items : Array β) (i : Nat) :
    siftUp cmp (items.map f) i = (siftUp (comparedBy cmp f) items i).map f := by
  induction items, i using siftUp.induct (comparedBy cmp f) with
  | case1 items i hi p hworse ih =>
      rw [siftUp, siftUp, dif_pos hi, dif_pos hi, if_pos hworse,
        if_pos ((worseAt_map cmp f items i p).trans hworse), ← map_swapIfInBounds]
      exact ih
  | case2 items i hi p hworse =>
      rw [siftUp, siftUp, dif_pos hi, dif_pos hi, if_neg hworse,
        if_neg (by rwa [worseAt_map])]
  | case3 items i hi => rw [siftUp, siftUp, dif_neg hi, dif_neg hi]

theorem worstOfFamily_map (items : Array β) (i : Nat) :
    worstOfFamily cmp (items.map f) i = worstOfFamily (comparedBy cmp f) items i := by
  simp only [worstOfFamily, worseAt_map]

theorem siftDown_map : ∀ (fuel : Nat) (items : Array β) (i : Nat),
    siftDown cmp fuel (items.map f) i = (siftDown (comparedBy cmp f) fuel items i).map f
  | 0, _, _ => rfl
  | fuel + 1, items, i => by
      rw [siftDown, siftDown, worstOfFamily_map]
      split
      · rfl
      · rw [← map_swapIfInBounds]
        exact siftDown_map fuel _ _

theorem push_map (q : TopK β) (b : β) :
    ((map f q).push cmp (f b)).1 = map f (q.push (comparedBy cmp f) b).1 := by
  rw [map, push, push]
  dsimp only
  rw [Array.size_map, Array.getElem?_map]
  split
  · rw [← Array.map_push, siftUp_map]
    rfl
  · cases q.items[0]? with
    | none => rfl
    | some w =>
        have hcmp : cmp (f b) (f w) = comparedBy cmp f b w := rfl
        dsimp only [Option.map_some]
        rw [hcmp]
        split
        · rfl
        · rw [← Array.map_setIfInBounds, Array.size_map, siftDown_map]
          rfl

theorem pop_map (q : TopK β) : (map f q).pop cmp =
    (map f (q.pop (comparedBy cmp f)).1, (q.pop (comparedBy cmp f)).2.map f) := by
  simp only [pop, map, Array.size_map, Array.getElem?_map]
  cases q.items[0]? with
  | none => rfl
  | some w =>
      dsimp only [Option.map_some]
      rw [← map_swapIfInBounds, ← Array.map_pop, Array.size_map, siftDown_map]

theorem drain_map : ∀ (fuel : Nat) (q : TopK β) (done : List β),
    drain cmp fuel (map f q) (done.map f) = (drain (comparedBy cmp f) fuel q done).map f
  | 0, _, _ => rfl
  | fuel + 1, q, done => by
      rw [drain, drain, pop_map]
      generalize q.pop (comparedBy cmp f) = popped
      obtain ⟨q', out⟩ := popped
      cases out with
      | none => rfl
      | some w => exact drain_map fuel q' (w :: done)

theorem toSortedList_map (q : TopK β) :
    (map f q).toSortedList cmp = (q.toSortedList (comparedBy cmp f)).map f := by
  have hsize : (map f q).size = q.size := Array.size_map
  rw [toSortedList, hsize]
  exact drain_map cmp f q.size q []

theorem pushAll_map : ∀ (bs : List β) (q : TopK β),
    pushAll cmp (map f q) (bs.map f) = map f (pushAll (comparedBy cmp f) q bs)
  | [], _ => rfl
  | b :: bs, q => by
      rw [List.map_cons, pushAll, List.foldl_cons, push_map]
      exact pushAll_map bs _

/-- The heap of a list is the image of a heap of its members. -/
theorem pushAll_eq_map_members (as : List α) (capacity : Nat) :
    pushAll cmp { capacity } as = map Subtype.val
      (pushAll (comparedBy cmp (Subtype.val : {a // a ∈ as} → α)) { capacity } as.attach) := by
  have hpushed := pushAll_map cmp (Subtype.val : {a // a ∈ as} → α) as.attach { capacity }
  have hempty : map (Subtype.val : {a // a ∈ as} → α) { capacity } = { capacity } := by
    rw [map, Array.map_empty]
  rwa [List.attach_map_subtype_val, hempty] at hpushed

/-- If a comparison orders the items that are pushed, the best of them are kept. -/
theorem exists_best_of_members (as : List α)
    [Std.TransCmp (comparedBy cmp (Subtype.val : {a // a ∈ as} → α))] (capacity : Nat) :
    ∃ best : List α, best.Perm as ∧ Descending cmp best ∧
      (pushAll cmp { capacity } as).toSortedList cmp = best.take capacity := by
  obtain ⟨best, hperm, hdesc, hbest⟩ :=
    History.exists_best (comparedBy cmp (Subtype.val : {a // a ∈ as} → α)) capacity as.attach
  refine ⟨best.map Subtype.val, ?_, List.pairwise_map.mpr hdesc, ?_⟩
  · have hmap := hperm.map Subtype.val
    rwa [List.attach_map_subtype_val] at hmap
  · rw [pushAll_eq_map_members, toSortedList_map, hbest, List.map_take]

end VaultSearch.TopK

/-! ## What a heap lists, whatever the comparison -/

namespace VaultSearch.TopK

variable {α : Type} {cmp : α → α → Ordering} {q : TopK α}

/-- A heap lists items that were pushed. -/
theorem mem_of_mem_toSortedList {capacity : Nat} {as : List α} {a : α}
    (h : a ∈ (pushAll cmp { capacity } as).toSortedList cmp) : a ∈ as := by
  rw [pushAll_eq_map_members, toSortedList_map] at h
  obtain ⟨b, -, rfl⟩ := List.mem_map.mp h
  exact b.2

theorem size_push_pos (cmp : α → α → Ordering) (a : α) (h : 0 < q.capacity) :
    0 < (q.push cmp a).1.size := by
  rcases push_cases cmp q a with ⟨-, hpush⟩ | ⟨hfull, -, hpush⟩ | ⟨hfull, -, -, -, hpush⟩
  · rw [hpush, size, (perm_siftUp cmp _ _).size_eq, Array.size_push]
    exact Nat.succ_pos _
  · rw [hpush]
    exact h.trans_le (not_lt.mp hfull)
  · rw [hpush, size, (perm_siftDown cmp _ _ _).size_eq, Array.size_setIfInBounds]
    exact h.trans_le (not_lt.mp hfull)

theorem size_pushAll_pos (cmp : α → α → Ordering) : ∀ (as : List α) {q : TopK α}, 0 < q.capacity →
    0 < q.size ∨ as ≠ [] → 0 < (pushAll cmp q as).size
  | [], _, _, h => h.resolve_right fun hne => hne rfl
  | a :: as, q, hcap, _ => by
      have hcap' : 0 < (q.push cmp a).1.capacity := by rwa [capacity_push]
      exact size_pushAll_pos cmp as hcap' (Or.inl (size_push_pos cmp a hcap))

/-- Draining keeps what is done. -/
theorem suffix_drain (cmp : α → α → Ordering) : ∀ (fuel : Nat) (q : TopK α) (done : List α),
    done <:+ drain cmp fuel q done
  | 0, _, done => List.suffix_refl done
  | fuel + 1, q, done => by
      rw [drain]
      split
      · exact List.suffix_refl done
      · rename_i q' a _
        exact (List.suffix_cons a done).trans (suffix_drain cmp fuel q' (a :: done))

theorem toSortedList_ne_nil_of_size_pos (cmp : α → α → Ordering) (h : 0 < q.size) :
    q.toSortedList cmp ≠ [] := by
  obtain ⟨n, hn⟩ := Nat.exists_eq_succ_of_ne_zero h.ne'
  obtain ⟨w, hw⟩ : ∃ w, q.peek? = some w := ⟨q.items[0], Array.getElem?_eq_getElem h⟩
  obtain ⟨-, hout⟩ := bag_pop cmp hw
  rw [toSortedList, hn, drain]
  generalize q.pop cmp = popped at hout
  obtain ⟨q', out⟩ := popped
  obtain rfl : out = some w := hout
  exact ((suffix_drain cmp n q' [w]).ne_nil (List.cons_ne_nil w []))

/-- A heap with room lists something once anything was pushed. -/
theorem toSortedList_ne_nil (cmp : α → α → Ordering) {capacity : Nat} {as : List α}
    (hcap : 0 < capacity) (has : as ≠ []) :
    (pushAll cmp { capacity } as).toSortedList cmp ≠ [] :=
  toSortedList_ne_nil_of_size_pos cmp (size_pushAll_pos cmp as hcap (Or.inr has))

end VaultSearch.TopK
