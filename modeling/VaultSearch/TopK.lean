/-!
# Scores and the best of many

The arithmetic of scores, and a heap that keeps the best of the items
offered to it.
-/

namespace VaultSearch

/-! ## Numbers for scores

Scores are computed in a type with the operations of `Score`. Every
formula of the ranking is written once, over any such type: the program
runs it on binary floating point, and a statement about exact values
takes it on the rationals.
-/

/-- The arithmetic that scores need. -/
class Score (S : Type) extends Add S, Sub S, Mul S, Div S, OfScientific S where
  ofNat : Nat → S
  ofFloat : Float → S
  ln : S → S
  lt : S → S → Bool

instance : Score Float where
  ofNat := Float.ofNat
  ofFloat := id
  ln := Float.log
  lt a b := a < b

namespace Score

variable {S : Type} [Score S]

/-- The larger of two scores, the first of two equal ones. -/
def max (a b : S) : S := if lt a b then b else a

end Score

/-! ## The best of many

`TopK` keeps the best `capacity` of the items offered to it. The items
form a heap with the worst one at the root, so that one comparison tells
whether a new item is good enough. Which of two items is better is the
matter of a comparison that is passed along: greater means better.
-/

/-- At most `capacity` items in heap order, the worst one first. Room is made for an item when
it comes; that a capacity beyond the memory fails at once is left out. -/
structure TopK (α : Type) where
  capacity : Nat
  items : Array α := #[]
  deriving Repr

namespace TopK

variable {α : Type}

/-- Whether the item at `i` is worse than the one at `j`. -/
def worseAt (cmp : α → α → Ordering) (items : Array α) (i j : Nat) : Bool :=
  match items[i]?, items[j]? with
  | some a, some b => cmp a b == .lt
  | _, _ => false

/-- Move the item at `i` towards the root while it is worse than its parent. -/
def siftUp (cmp : α → α → Ordering) (items : Array α) (i : Nat) : Array α :=
  if h : 0 < i then
    let parent := (i - 1) / 2
    if worseAt cmp items i parent then siftUp cmp (items.swapIfInBounds i parent) parent
    else items
  else items
termination_by i
decreasing_by omega

/-- The index of the worst of the item at `i` and its two children. -/
def worstOfFamily (cmp : α → α → Ordering) (items : Array α) (i : Nat) : Nat :=
  let left := 2 * i + 1
  let right := left + 1
  let worst := if worseAt cmp items left i then left else i
  if worseAt cmp items right worst then right else worst

/-- Move the item at `i` away from the root while a child is worse; `fuel`
bounds the moves. -/
def siftDown (cmp : α → α → Ordering) : (fuel : Nat) → Array α → (i : Nat) → Array α
  | 0, items, _ => items
  | fuel + 1, items, i =>
    let worst := worstOfFamily cmp items i
    if worst = i then items
    else siftDown cmp fuel (items.swapIfInBounds i worst) worst

def size (q : TopK α) : Nat := q.items.size

/-- The worst item that is kept. -/
def peek? (q : TopK α) : Option α := q.items[0]?

/-- Offer an item, and tell whether it is kept. In a full heap it takes the
place of the worst item if it is better. -/
def push (cmp : α → α → Ordering) (q : TopK α) (a : α) : TopK α × Bool :=
  if q.items.size < q.capacity then
    ({ q with items := siftUp cmp (q.items.push a) q.items.size }, true)
  else match q.items[0]? with
    | none => (q, false)
    | some worst =>
      if q.capacity = 0 || cmp a worst != .gt then (q, false)
      else
        let items := q.items.setIfInBounds 0 a
        ({ q with items := siftDown cmp items.size items 0 }, true)

/-- Remove the worst item. -/
def pop (cmp : α → α → Ordering) (q : TopK α) : TopK α × Option α :=
  match q.items[0]? with
  | none => (q, none)
  | some worst =>
    let items := (q.items.swapIfInBounds 0 (q.items.size - 1)).pop
    ({ q with items := siftDown cmp items.size items 0 }, some worst)

/-- Remove items, the worst first, and put them in front of `done`. -/
def drain (cmp : α → α → Ordering) : (fuel : Nat) → TopK α → (done : List α) → List α
  | 0, _, done => done
  | fuel + 1, q, done =>
    match q.pop cmp with
    | (_, none) => done
    | (q, some a) => drain cmp fuel q (a :: done)

/-- The items kept, best first. -/
def toSortedList (cmp : α → α → Ordering) (q : TopK α) : List α := drain cmp q.size q []

end TopK

end VaultSearch
