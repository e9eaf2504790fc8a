import Mathlib.Algebra.Order.Group.Multiset
import Mathlib.Data.List.Forall2
import Mathlib.Tactic.Abel
import VaultSearch.Proofs.TopK.Bag

/-!
# The best of all that was pushed

A `History` is a heap with an account of the items that are not in it any
more: popped, evicted by a better one, or discarded. Whatever is asked of
the heap, nothing is lost or invented, and at every moment it acts as a
bounded bag (`History.run_refines`). With pushes alone what was evicted or
discarded is no better than what is kept, and there is none of it unless
the heap is full (`History.Cut`). So the items that are kept, best first,
are the beginning of all that were pushed, best first; where several rank
alike it may be others of them, as two orders of the same items agree only
in how their items rank (`forall₂_of_descending`).
-/

namespace VaultSearch.TopK

variable {α : Type} {cmp : α → α → Ordering}

/-! ## Lists with the best item first -/

/-- No item stands before a better one. -/
def Descending (cmp : α → α → Ordering) (l : List α) : Prop :=
  l.Pairwise fun a b => (cmp b a).isLE

section Descending

variable [Std.TransCmp cmp]

theorem Descending.isLE_head {a b : α} {l : List α} (h : Descending cmp (a :: l))
    (hb : b ∈ a :: l) : (cmp b a).isLE := by
  rcases List.mem_cons.mp hb with rfl | hb
  · exact Std.ReflCmp.isLE_rfl
  · exact (List.pairwise_cons.mp h).1 b hb

/-- How many items of a list rank no lower than `c`. -/
def countFrom (cmp : α → α → Ordering) (c : α) (l : List α) : Nat :=
  l.countP fun x => (cmp c x).isLE

omit [Std.TransCmp cmp] in
theorem exists_of_countFrom_pos {c : α} {l : List α} (h : 0 < countFrom cmp c l) :
    ∃ x ∈ l, (cmp c x).isLE :=
  List.countP_pos_iff.mp h

variable (cmp) in
theorem countFrom_cons_self_pos (a : α) (l : List α) : 0 < countFrom cmp a (a :: l) :=
  List.countP_pos_iff.mpr ⟨a, List.mem_cons_self, Std.ReflCmp.isLE_rfl⟩

/-- The first items rank alike if from each rank on there are as many items in both lists. -/
theorem Descending.isLE_of_countFrom {a b : α} {l m : List α} (hm : Descending cmp (b :: m))
    (hcount : ∀ c, countFrom cmp c (a :: l) = countFrom cmp c (b :: m)) : (cmp a b).isLE := by
  have hpos := countFrom_cons_self_pos cmp a l
  rw [hcount] at hpos
  obtain ⟨x, hx, hax⟩ := exists_of_countFrom_pos hpos
  exact Std.TransCmp.isLE_trans hax (hm.isLE_head hx)

theorem forall₂_of_countFrom : ∀ {l m : List α}, Descending cmp l → Descending cmp m →
    (∀ c, countFrom cmp c l = countFrom cmp c m) → List.Forall₂ (fun a b => cmp a b = .eq) l m
  | [], [], _, _, _ => .nil
  | [], b :: m, _, _, hcount => by
      have hpos := countFrom_cons_self_pos cmp b m
      rw [← hcount] at hpos
      exact absurd hpos (Nat.lt_irrefl 0)
  | a :: l, [], _, _, hcount => by
      have hpos := countFrom_cons_self_pos cmp a l
      rw [hcount] at hpos
      exact absurd hpos (Nat.lt_irrefl 0)
  | a :: l, b :: m, hl, hm, hcount => by
      have heq : cmp a b = .eq := Std.OrientedCmp.isLE_antisymm (hm.isLE_of_countFrom hcount)
        (hl.isLE_of_countFrom fun c => (hcount c).symm)
      refine .cons heq (forall₂_of_countFrom (List.pairwise_cons.mp hl).2
        (List.pairwise_cons.mp hm).2 fun c => ?_)
      have hc := hcount c
      rw [countFrom, countFrom, List.countP_cons, List.countP_cons,
        Std.TransCmp.congr_right heq] at hc
      exact Nat.add_right_cancel hc

/-- Two orders of the same items agree in how their items rank. -/
theorem forall₂_of_descending {l m : List α} (hperm : l.Perm m) (hl : Descending cmp l)
    (hm : Descending cmp m) : List.Forall₂ (fun a b => cmp a b = .eq) l m :=
  forall₂_of_countFrom hl hm fun _ => hperm.countP_eq _

theorem descending_mergeSort (cmp : α → α → Ordering) [Std.TransCmp cmp] (l : List α) :
    Descending cmp (l.mergeSort fun a b => (cmp b a).isLE) := by
  have htrans : ∀ a b c : α, (cmp b a).isLE → (cmp c b).isLE → (cmp c a).isLE :=
    fun a b c hba hcb => Std.TransCmp.isLE_trans hcb hba
  have htotal : ∀ a b : α, ((cmp b a).isLE || (cmp a b).isLE) = true := by
    intro a b
    rw [Bool.or_eq_true, or_iff_not_imp_left]
    intro hba
    rw [Std.OrientedCmp.lt_of_not_isLE hba]
    rfl
  exact List.pairwise_mergeSort htrans htotal l

end Descending

/-! ## Draining -/

section Drain

variable [Std.TransCmp cmp]

/-- Draining puts the items in front of those that are done, which are no better. -/
theorem drain_spec : ∀ (fuel : Nat) {q : TopK α} {done : List α}, WellFormed cmp q →
    q.size ≤ fuel → Descending cmp done → (∀ b ∈ done, ∀ a ∈ q.bag, (cmp b a).isLE) →
      (drain cmp fuel q done : Multiset α) = q.bag + done ∧ Descending cmp (drain cmp fuel q done)
  | 0, q, done, _, hfuel, hdone, _ => by
      have hempty : q.bag = 0 := by
        rw [← Multiset.card_eq_zero, card_bag]
        exact Nat.le_zero.mp hfuel
      rw [hempty, zero_add]
      exact ⟨rfl, hdone⟩
  | fuel + 1, q, done, h, hfuel, hdone, hle => by
      rw [drain]
      cases hpeek : q.peek? with
      | none =>
          rw [pop_of_peek?_eq_none cmp hpeek, peek?_eq_none_iff.mp hpeek, zero_add]
          exact ⟨rfl, hdone⟩
      | some w =>
          obtain ⟨hbag, hout⟩ := bag_pop cmp hpeek
          obtain ⟨hw, hworst⟩ := h.isWorst hpeek
          have hpop := h.pop
          have hcard := congrArg Multiset.card hbag
          rw [Multiset.card_cons, card_bag, card_bag] at hcard
          have hrest : ∀ a ∈ (q.pop cmp).1.bag, a ∈ q.bag := by
            intro a ha
            rw [hbag]
            exact Multiset.mem_cons_of_mem ha
          have hdone' : Descending cmp (w :: done) :=
            List.pairwise_cons.mpr ⟨fun b hb => hle b hb w hw, hdone⟩
          have hle' : ∀ b ∈ w :: done, ∀ a ∈ (q.pop cmp).1.bag, (cmp b a).isLE :=
            List.forall_mem_cons.mpr ⟨fun a ha => hworst a (hrest a ha),
              fun b hb a ha => hle b hb a (hrest a ha)⟩
          generalize q.pop cmp = popped at hbag hout hpop hcard hle'
          obtain ⟨q', out⟩ := popped
          obtain rfl : out = some w := hout
          obtain ⟨hall, hdesc⟩ := drain_spec fuel hpop (by omega) hdone' hle'
          refine ⟨?_, hdesc⟩
          rw [hall, hbag, ← Multiset.cons_coe, Multiset.add_cons, Multiset.cons_add]

/-- The items that are kept, best first. -/
theorem WellFormed.toSortedList {q : TopK α} (h : WellFormed cmp q) :
    (q.toSortedList cmp : Multiset α) = q.bag ∧ Descending cmp (q.toSortedList cmp) := by
  have hdrain := drain_spec q.size h le_rfl (List.Pairwise.nil) nofun
  rwa [Multiset.coe_nil, add_zero] at hdrain

end Drain

/-- The heap after all items of a list were offered. -/
def pushAll (cmp : α → α → Ordering) (q : TopK α) (as : List α) : TopK α :=
  as.foldl (fun q a => (q.push cmp a).1) q

/-! ## Histories -/

/-- What is asked of a heap. -/
inductive Call (α : Type)
  | push (a : α)
  | pop

/-- The items that are pushed. -/
def Call.pushed (calls : List (Call α)) : Multiset α :=
  ↑(calls.filterMap fun
    | push a => some a
    | pop => none)

theorem Call.pushed_map_push (as : List α) :
    Call.pushed (as.map Call.push) = (as : Multiset α) := by
  rw [Call.pushed, List.filterMap_map]
  exact congrArg _ List.filterMap_some

/-- A heap, and what became of the items that were pushed and are not in it. -/
structure History (α : Type) where
  heap : TopK α
  popped : Multiset α := 0
  evicted : Multiset α := 0
  discarded : Multiset α := 0

namespace History

/-- A push discards its item if it answers so, and otherwise, if the heap is full, it evicts
the item that a look at the heap shows. -/
def push (cmp : α → α → Ordering) (h : History α) (a : α) : History α :=
  let r := h.heap.push cmp a
  if r.2 = false then { h with heap := r.1, discarded := a ::ₘ h.discarded }
  else if h.heap.size < h.heap.capacity then { h with heap := r.1 }
  else { h with heap := r.1, evicted := ↑h.heap.peek?.toList + h.evicted }

def pop (cmp : α → α → Ordering) (h : History α) : History α :=
  let r := h.heap.pop cmp
  { h with heap := r.1, popped := ↑r.2.toList + h.popped }

def obey (cmp : α → α → Ordering) (h : History α) : Call α → History α
  | .push a => h.push cmp a
  | .pop => h.pop cmp

/-- The history of a heap of which all this is asked, one after the other. -/
def run (cmp : α → α → Ordering) (capacity : Nat) (calls : List (Call α)) : History α :=
  calls.foldl (obey cmp) { heap := { capacity } }

/-- All items there are an account of. -/
def accounted (h : History α) : Multiset α := h.heap.bag + h.popped + h.evicted + h.discarded

/-- What a push does to the heap and the account. -/
theorem push_cases (cmp : α → α → Ordering) (h : History α) (a : α) :
    (h.heap.size < h.heap.capacity ∧ (h.heap.push cmp a).1.bag = a ::ₘ h.heap.bag ∧
      h.push cmp a = { h with heap := (h.heap.push cmp a).1 }) ∨
    ((∀ w, h.heap.peek? = some w → h.heap.capacity = 0 ∨ cmp a w ≠ .gt) ∧
      ¬h.heap.size < h.heap.capacity ∧ (h.heap.push cmp a).1 = h.heap ∧
      h.push cmp a = { h with discarded := a ::ₘ h.discarded }) ∨
    ∃ w s, h.heap.peek? = some w ∧ cmp a w = .gt ∧ ¬h.heap.size < h.heap.capacity ∧
      h.heap.bag = w ::ₘ s ∧ (h.heap.push cmp a).1.bag = a ::ₘ s ∧
      h.push cmp a = { h with heap := (h.heap.push cmp a).1, evicted := w ::ₘ h.evicted } := by
  rcases TopK.push_cases cmp h.heap a with
    ⟨hroom, hpush⟩ | ⟨hfull, hno, hpush⟩ | ⟨hfull, w, hw, hgt, hpush⟩
  · left
    rw [push, hpush]
    exact ⟨hroom, bag_siftUp_push cmp h.heap a, if_pos hroom⟩
  · right; left
    rw [push, hpush]
    exact ⟨hno, hfull, rfl, rfl⟩
  · right; right
    obtain ⟨s, hbag, hnew⟩ := bag_siftDown_set cmp hw a
    refine ⟨w, s, hw, hgt, hfull, hbag, ?_, ?_⟩
    · rw [hpush]
      exact hnew
    · rw [push, hpush]
      dsimp only
      rw [if_neg (by decide), if_neg hfull, hw]
      rfl

theorem heap_push (cmp : α → α → Ordering) (h : History α) (a : α) :
    (h.push cmp a).heap = (h.heap.push cmp a).1 := by
  rcases push_cases cmp h a with ⟨-, -, hp⟩ | ⟨-, -, hsame, hp⟩ | ⟨w, s, -, -, -, -, -, hp⟩
  · rw [hp]
  · rw [hp, hsame]
  · rw [hp]

theorem pop_cases (cmp : α → α → Ordering) (h : History α) :
    (h.heap.peek? = none ∧ h.pop cmp = h) ∨ ∃ w, h.heap.peek? = some w ∧
      h.heap.bag = w ::ₘ (h.heap.pop cmp).1.bag ∧
      h.pop cmp = { h with heap := (h.heap.pop cmp).1, popped := w ::ₘ h.popped } := by
  cases hpeek : h.heap.peek? with
  | none =>
      left
      rw [pop, pop_of_peek?_eq_none cmp hpeek]
      exact ⟨rfl, congrArg (fun m => { h with popped := m }) (zero_add _)⟩
  | some w =>
      right
      obtain ⟨hbag, hout⟩ := bag_pop cmp hpeek
      refine ⟨w, rfl, hbag, ?_⟩
      rw [pop, hout]
      rfl

/-- The heap is in order, and there is an account of just these items. -/
structure Sound (cmp : α → α → Ordering) (capacity : Nat) (h : History α) (pushed : Multiset α) :
    Prop where
  wellFormed : WellFormed cmp h.heap
  capacity : h.heap.capacity = capacity
  accounted : h.accounted = pushed

section Sound

variable [Std.TransCmp cmp] {capacity : Nat} {h : History α} {pushed : Multiset α}

theorem Sound.push (hs : Sound cmp capacity h pushed) (a : α) :
    Sound cmp capacity (h.push cmp a) (pushed + {a}) := by
  constructor
  · rw [heap_push]
    exact hs.wellFormed.push a
  · rw [heap_push, capacity_push, hs.capacity]
  · rw [← hs.accounted]
    rcases push_cases cmp h a with
      ⟨-, hbag, hp⟩ | ⟨-, -, -, hp⟩ | ⟨w, s, -, -, -, hbag, hnew, hp⟩
    · rw [hp, History.accounted, hbag, History.accounted]
      simp only [← Multiset.singleton_add]
      abel
    · rw [hp, History.accounted, History.accounted]
      simp only [← Multiset.singleton_add]
      abel
    · rw [hp, History.accounted, hnew, History.accounted, hbag]
      simp only [← Multiset.singleton_add]
      abel

theorem Sound.pop (hs : Sound cmp capacity h pushed) :
    Sound cmp capacity (h.pop cmp) pushed := by
  rcases pop_cases cmp h with ⟨-, hp⟩ | ⟨w, -, hbag, hp⟩
  · rw [hp]
    exact hs
  · rw [hp]
    refine ⟨hs.wellFormed.pop, by rw [capacity_pop, hs.capacity], ?_⟩
    rw [← hs.accounted, History.accounted, History.accounted, hbag]
    simp only [← Multiset.singleton_add]
    abel

theorem sound_foldl : ∀ (calls : List (Call α)) {h : History α} {pushed : Multiset α},
    Sound cmp capacity h pushed →
      Sound cmp capacity (calls.foldl (obey cmp) h) (pushed + Call.pushed calls)
  | [], _, _, hs => by
      have hnone : Call.pushed ([] : List (Call α)) = 0 := rfl
      rwa [hnone, add_zero]
  | .push a :: calls, _, _, hs => by
      have hrest := sound_foldl calls (hs.push a)
      rwa [add_assoc] at hrest
  | .pop :: calls, _, _, hs => sound_foldl calls hs.pop

theorem sound_run (cmp : α → α → Ordering) [Std.TransCmp cmp] (capacity : Nat)
    (calls : List (Call α)) : Sound cmp capacity (run cmp capacity calls) (Call.pushed calls) := by
  have hstart : Sound cmp capacity ({ heap := { capacity } } : History α) 0 :=
    ⟨.empty cmp capacity, rfl, rfl⟩
  have hrun := sound_foldl calls hstart
  rwa [zero_add] at hrun

end Sound

/-! ## Pushes alone -/

/-- Nothing is popped, what is lost is no better than what is kept, and nothing is lost unless
the heap is full. -/
structure Cut (cmp : α → α → Ordering) (h : History α) : Prop where
  popped : h.popped = 0
  noBetter : ∀ x ∈ h.evicted + h.discarded, ∀ y ∈ h.heap.bag, (cmp x y).isLE
  full : h.evicted + h.discarded ≠ 0 → h.heap.size = h.heap.capacity

section Cut

variable [Std.TransCmp cmp] {capacity : Nat} {h : History α} {pushed : Multiset α}

theorem Cut.push (hc : Cut cmp h) (hwell : WellFormed cmp h.heap) (a : α) :
    Cut cmp (h.push cmp a) := by
  rcases push_cases cmp h a with
    ⟨hroom, -, hp⟩ | ⟨hno, hfull, -, hp⟩ | ⟨w, s, hw, hgt, hfull, hbag, hnew, hp⟩
  · -- nothing is lost yet
    have hnone : h.evicted + h.discarded = 0 := by
      by_contra hlost
      exact absurd (hc.full hlost) hroom.ne
    rw [hp]
    refine ⟨hc.popped, fun x hx => ?_, fun hlost => absurd hnone hlost⟩
    rw [hnone] at hx
    exact absurd hx (Multiset.notMem_zero x)
  · rw [hp]
    refine ⟨hc.popped, fun x hx y hy => ?_, fun _ => le_antisymm hwell.bounded (not_lt.mp hfull)⟩
    rw [Multiset.add_cons, Multiset.mem_cons] at hx
    rcases hx with rfl | hx
    · cases hpeek : h.heap.peek? with
      | none =>
          rw [peek?_eq_none_iff.mp hpeek] at hy
          exact absurd hy (Multiset.notMem_zero y)
      | some w =>
          have hsome : h.heap.capacity ≠ 0 := fun hzero => by
            rw [hwell.peek?_of_capacity_eq_zero hzero] at hpeek
            cases hpeek
          exact Std.TransCmp.isLE_trans
            (Ordering.ne_gt_iff_isLE.mp ((hno w hpeek).resolve_left hsome))
            ((hwell.isWorst hpeek).2 y hy)
    · exact hc.noBetter x hx y hy
  · have hwa : (cmp w a).isLE := by
      rw [Std.OrientedCmp.gt_iff_lt] at hgt
      rw [hgt]
      rfl
    obtain ⟨hmem, hworst⟩ := hwell.isWorst hw
    rw [hp]
    refine ⟨hc.popped, fun x hx y hy => ?_, fun _ => ?_⟩
    · -- what is lost is no better than the item that is evicted
      have hxw : (cmp x w).isLE := by
        rw [Multiset.cons_add, Multiset.mem_cons] at hx
        rcases hx with rfl | hx
        · exact Std.ReflCmp.isLE_rfl
        · exact hc.noBetter x hx w hmem
      dsimp only at hy
      rw [hnew, Multiset.mem_cons] at hy
      rcases hy with rfl | hy
      · exact Std.TransCmp.isLE_trans hxw hwa
      · exact Std.TransCmp.isLE_trans hxw (hworst y (hbag ▸ Multiset.mem_cons_of_mem hy))
    · have hcard := congrArg Multiset.card hbag
      have hcard' := congrArg Multiset.card hnew
      have hbounded := hwell.bounded
      rw [card_bag, Multiset.card_cons] at hcard hcard'
      dsimp only
      rw [capacity_push]
      omega

theorem cut_foldl : ∀ (as : List α) {h : History α}, WellFormed cmp h.heap → Cut cmp h →
    Cut cmp ((as.map Call.push).foldl (obey cmp) h)
  | [], _, _, hc => hc
  | a :: as, h, hwell, hc => by
      have hs : Sound cmp h.heap.capacity h h.accounted := ⟨hwell, rfl, rfl⟩
      exact cut_foldl as (hs.push a).wellFormed (hc.push hwell a)

theorem cut_run (cmp : α → α → Ordering) [Std.TransCmp cmp] (capacity : Nat) (as : List α) :
    Cut cmp (run cmp capacity (as.map .push)) :=
  cut_foldl as (.empty cmp capacity) ⟨rfl, fun x hx => absurd hx (Multiset.notMem_zero x),
    fun hlost => absurd rfl hlost⟩

/-- What is kept, best first, and then what is lost, best first, is an order of all that was
pushed; and the first ones of it, as many as there is room for, are those that are kept. -/
theorem Cut.exists_descending (hc : Cut cmp h) (hs : Sound cmp capacity h pushed) :
    ∃ all : List α, (all : Multiset α) = pushed ∧ Descending cmp all ∧
      all.take capacity = h.heap.toSortedList cmp := by
  obtain ⟨hkept, hdesc⟩ := hs.wellFormed.toSortedList
  obtain ⟨lost, hlost⟩ := Quot.exists_rep (h.evicted + h.discarded)
  have hlost : (lost : Multiset α) = h.evicted + h.discarded := hlost
  have hperm := List.mergeSort_perm lost fun a b => (cmp b a).isLE
  refine ⟨h.heap.toSortedList cmp ++ lost.mergeSort fun a b => (cmp b a).isLE, ?_, ?_, ?_⟩
  · rw [← Multiset.coe_add, hkept, Multiset.coe_eq_coe.mpr hperm, hlost, ← hs.accounted,
      accounted, hc.popped, add_zero, add_assoc]
  · refine List.pairwise_append.mpr ⟨hdesc, descending_mergeSort cmp lost, fun y hy x hx => ?_⟩
    refine hc.noBetter x ?_ y ?_
    · rw [← hlost]
      exact hperm.mem_iff.mp hx
    · rw [← hkept]
      exact hy
  · have hlen : (h.heap.toSortedList cmp).length = h.heap.size := by
      rw [← Multiset.coe_card, hkept, card_bag]
    have hbounded := hs.wellFormed.bounded
    rw [hs.capacity] at hbounded
    by_cases hnone : h.evicted + h.discarded = 0
    · rw [hnone] at hlost
      rw [List.perm_nil.mp (Multiset.coe_eq_coe.mp hlost), List.mergeSort_nil, List.append_nil]
      exact List.take_of_length_le (hlen ▸ hbounded)
    · exact List.take_left' (by rw [hlen, hc.full hnone, hs.capacity])

end Cut

theorem heap_foldl_push (cmp : α → α → Ordering) : ∀ (as : List α) (h : History α),
    ((as.map Call.push).foldl (obey cmp) h).heap = pushAll cmp h.heap as
  | [], _ => rfl
  | a :: as, h => by
      rw [pushAll, List.foldl_cons, ← heap_push]
      exact heap_foldl_push cmp as (h.push cmp a)

/-- Of all that is pushed the best are kept. -/
theorem exists_best (cmp : α → α → Ordering) [Std.TransCmp cmp] (capacity : Nat) (as : List α) :
    ∃ best : List α, best.Perm as ∧ Descending cmp best ∧
      (pushAll cmp { capacity } as).toSortedList cmp = best.take capacity := by
  obtain ⟨best, hpushed, hdesc, htake⟩ :=
    (cut_run cmp capacity as).exists_descending (sound_run cmp capacity (as.map .push))
  rw [Call.pushed_map_push, Multiset.coe_eq_coe] at hpushed
  rw [run, heap_foldl_push] at htake
  exact ⟨best, hpushed, hdesc, htake.symm⟩

/-! ## The refinement -/

/-- A heap in order acts as a bag with room for `capacity` items, and with those that were popped,
evicted and discarded it has all that were pushed. -/
structure RefinesBag (cmp : α → α → Ordering) (capacity : Nat) (h : History α)
    (pushed : Multiset α) : Prop where
  ordered : HeapOrdered cmp h.heap.items
  bounded : h.heap.size ≤ capacity
  push : ∀ a, Offer cmp capacity a h.heap.bag (h.heap.push cmp a).2 (h.heap.push cmp a).1.bag
  peek_none : h.heap.peek? = none ↔ h.heap.bag = 0
  peek_some : ∀ w, h.heap.peek? = some w → IsWorst cmp h.heap.bag w
  pop : Withdrawal cmp h.heap.bag (h.heap.pop cmp).2 (h.heap.pop cmp).1.bag
  accounted : h.heap.bag + h.popped + h.evicted + h.discarded = pushed
  sorted : (h.heap.toSortedList cmp : Multiset α) = h.heap.bag
  descending : Descending cmp (h.heap.toSortedList cmp)

/-- Whatever is asked of a heap, it acts as a bounded bag. After pushes alone the items that are
kept rank as the first ones of all that were pushed, best first. -/
theorem run_refines [Std.TransCmp cmp] (capacity : Nat) (calls : List (Call α)) :
    (run cmp capacity calls).RefinesBag cmp capacity (Call.pushed calls) ∧
      ∀ as best : List α, calls = as.map .push → best.Perm as → Descending cmp best →
        List.Forall₂ (fun a b => cmp a b = .eq) ((run cmp capacity calls).heap.toSortedList cmp)
          (best.take capacity) := by
  have hs := sound_run cmp capacity calls
  have hwell := hs.wellFormed
  have hbounded := hwell.bounded
  have hoffer := hwell.offer
  rw [hs.capacity] at hbounded hoffer
  obtain ⟨hsorted, hdesc⟩ := hwell.toSortedList
  constructor
  · exact
      { ordered := hwell.ordered
        bounded := hbounded
        push := hoffer
        peek_none := peek?_eq_none_iff
        peek_some := fun w hw => hwell.isWorst hw
        pop := hwell.withdrawal
        accounted := hs.accounted
        sorted := hsorted
        descending := hdesc }
  · rintro as best rfl hbest hbestDesc
    obtain ⟨all, hall, hallDesc, htake⟩ := exists_best cmp capacity as
    rw [run, heap_foldl_push, htake]
    exact List.forall₂_take capacity
      (forall₂_of_descending (hall.trans hbest.symm) hallDesc hbestDesc)

/-- Three of seven numbers. -/
theorem three_of_seven :
    Std.TransCmp (compare : Nat → Nat → Ordering) ∧
      let h := run compare 3 ([5, 1, 9, 3, 7, 2, 8].map .push)
      h.RefinesBag compare 3 ↑[5, 1, 9, 3, 7, 2, 8] ∧ h.heap.toSortedList compare = [9, 8, 7] := by
  refine ⟨inferInstance, ?_⟩
  obtain ⟨hrefines, hbest⟩ :=
    @run_refines Nat compare inferInstance 3 ([5, 1, 9, 3, 7, 2, 8].map .push)
  have hsame := hbest _ [9, 8, 7, 5, 3, 2, 1] rfl (by decide) (by unfold Descending; decide)
  refine ⟨hrefines, ?_⟩
  rw [← List.forall₂_eq_eq_eq]
  exact hsame.imp fun _ _ => compare_eq_iff_eq.mp

end History

end VaultSearch.TopK
