import VaultSearch.Text.Utf8

/-!
# Binary forms

A `Codec` writes values of a type as bytes and reads a value off the
front of some bytes. Numbers are little-endian and of fixed width, a
text or list is preceded by its length as eight bytes, and an optional
value by one byte that is 0 or 1. `Codec.Inverts` says when reading
undoes writing.
-/

namespace VaultSearch

/-- A binary form of the values of `α`. -/
structure Codec (α : Type) where
  encode : α → List UInt8
  /-- Read a value, and leave what follows it. -/
  decode : List UInt8 → Option (α × List UInt8)

namespace Codec

/-- Reading undoes writing for the values that satisfy `p`, whatever follows. -/
def Inverts {α : Type} (c : Codec α) (p : α → Prop) : Prop :=
  ∀ a rest, p a → c.decode (c.encode a ++ rest) = some (a, rest)

/-! ## Numbers -/

/-- The `width` low bytes of a number, lowest first. -/
def numberBytes : (width : Nat) → Nat → List UInt8
  | 0, _ => []
  | width + 1, n => UInt8.ofNat n :: numberBytes width (n / 256)

/-- Read a number of `width` bytes, lowest first. -/
def readNumber : (width : Nat) → List UInt8 → Option (Nat × List UInt8)
  | 0, bs => some (0, bs)
  | _ + 1, [] => none
  | width + 1, b :: bs => (readNumber width bs).map fun (n, rest) => (b.toNat + 256 * n, rest)

/-- Numbers below `256 ^ width`. -/
def number (width : Nat) : Codec Nat := ⟨numberBytes width, readNumber width⟩

/-- Numbers below 2³². -/
def u32 : Codec Nat := number 4

/-- Numbers below 2⁶⁴. -/
def u64 : Codec Nat := number 8

/-! ## Texts and lists -/

/-- The first `n` bytes and what follows them, if there are as many. -/
def splitExact? (n : Nat) (bs : List UInt8) : Option (List UInt8 × List UInt8) :=
  let front := bs.take n
  if front.length = n then some (front, bs.drop n) else none

def text : Codec String where
  encode s := let bs := Utf8.encode s; u64.encode bs.length ++ bs
  decode bs := do
    let (n, bs) ← u64.decode bs
    let (front, rest) ← splitExact? n bs
    let s ← Utf8.decode? front
    pure (s, rest)

/-- Read `n` values; `done` holds those read before, last one first. -/
def readMany {α : Type} (c : Codec α) :
    (n : Nat) → (done : List α) → List UInt8 → Option (List α × List UInt8)
  | 0, done, bs => some (done.reverse, bs)
  | n + 1, done, bs =>
    match c.decode bs with
    | none => none
    | some (a, bs) => readMany c n (a :: done) bs

def list {α : Type} (c : Codec α) : Codec (List α) where
  encode as := u64.encode as.length ++ as.flatMap c.encode
  decode bs := do
    let (n, bs) ← u64.decode bs
    readMany c n [] bs

/-! ## Other shapes -/

def pair {α β : Type} (c : Codec α) (d : Codec β) : Codec (α × β) where
  encode p := c.encode p.1 ++ d.encode p.2
  decode bs := do
    let (a, bs) ← c.decode bs
    let (b, bs) ← d.decode bs
    pure ((a, b), bs)

def option {α : Type} (c : Codec α) : Codec (Option α) where
  encode
    | none => [0]
    | some a => 1 :: c.encode a
  decode
    | [] => none
    | b :: bs =>
      if b = 0 then some (none, bs)
      else if b = 1 then (c.decode bs).map fun (a, bs) => (some a, bs)
      else none

/-- The form of `α`, read as values of `β` that `there` may refuse. -/
def imap {α β : Type} (c : Codec α) (there : α → Option β) (back : β → α) : Codec β where
  encode b := c.encode (back b)
  decode bs := do
    let (a, bs) ← c.decode bs
    let b ← there a
    pure (b, bs)

end Codec

end VaultSearch
