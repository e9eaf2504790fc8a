import Std.Data.TreeMap

/-!
# Changes and the buffers that hold them

What is reported about the vault, what the index has to do for it, and
the buffers in which it waits for a flush.
-/

namespace VaultSearch

/-! ## Changes and operations

A `Change` is what is reported about a path of the vault. An
`Operation` is what the index has to do for it; its time orders it among
the others.
-/

/-- What happened to a path. -/
inductive ChangeKind where
  | created
  | modified
  | deleted
  /-- The file was moved here from `source`. -/
  | renamed (source : String)
  deriving Repr, DecidableEq

def ChangeKind.name : ChangeKind → String
  | created => "created"
  | modified => "modified"
  | deleted => "deleted"
  | renamed _ => "renamed"

structure Change where
  path : String
  kind : ChangeKind
  deriving Repr, DecidableEq

/-- A pending change of the index. -/
inductive Operation where
  /-- Read the document at `source` and index it under `path`. -/
  | add (path source : String) (time : Nat)
  | delete (path : String) (time : Nat)
  deriving Repr, DecidableEq

namespace Operation

def path : Operation → String
  | add path _ _ => path
  | delete path _ => path

def time : Operation → Nat
  | add _ _ time => time
  | delete _ time => time

end Operation

/-! ## Coalescing buffers

A buffer holds at most one item for each key: an item put in later
replaces the one before it. Keys are texts unless said otherwise. Once
the buffer holds `threshold` items a flush is due; the flush that is due
takes out whatever the buffer holds when it comes, and so does a flush on
demand.
-/

structure Buffer (α : Type) (κ : Type := String) [Ord κ] where
  /-- The size from which a flush is due; zero counts as one. -/
  threshold : Nat
  items : Std.TreeMap κ α := {}
  /-- Whether a flush has been scheduled and has not come yet. -/
  due : Bool := false

namespace Buffer

variable {α κ : Type} [Ord κ]

def size (b : Buffer α κ) : Nat := b.items.size

def isEmpty (b : Buffer α κ) : Bool := b.items.isEmpty

/-- Put in an item. -/
def insert (b : Buffer α κ) (key : κ) (a : α) : Buffer α κ :=
  let items := b.items.insert key a
  { b with items, due := b.due || max b.threshold 1 ≤ items.size }

/-- Take out all items, in the order of their keys. -/
def drain (b : Buffer α κ) : List (κ × α) × Buffer α κ :=
  (b.items.toList, { b with items := {} })

/-- The scheduled flush: take out all items. -/
def settle (b : Buffer α κ) : List (κ × α) × Buffer α κ :=
  if b.due then (b.drain.1, { b.drain.2 with due := false }) else ([], b)

@[simp] theorem isEmpty_drain (b : Buffer α κ) : b.drain.2.isEmpty = true := by
  simp [drain, isEmpty]

@[simp] theorem length_drain (b : Buffer α κ) : b.drain.1.length = b.size := by
  simp [drain, size]

end Buffer

end VaultSearch
