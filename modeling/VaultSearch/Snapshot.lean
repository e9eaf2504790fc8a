import VaultSearch.Fault
import VaultSearch.Snapshot.Codec

/-!
# Snapshots

A snapshot is a blob that holds a value and the name of the tokenizer
settings it was made under, its fingerprint: the letters `QSNP`, the
version, the check sum of what follows the fingerprint, the length of
the fingerprint, each of these in four bytes, then the fingerprint and
the compressed binary form of the value. `decode` refuses a blob with
the first reason that applies.
-/

/-! ## The check sum

CRC-32 with the reflected polynomial `0xEDB88320`, all bits set at the
start and inverted at the end.
-/

namespace VaultSearch.Crc32

/-- Divide the register by one bit. -/
def shift (r : UInt32) : UInt32 :=
  if r &&& 1 = 1 then (r >>> 1) ^^^ 0xEDB88320 else r >>> 1

/-- The register after eight more bits of zero. -/
def shift8 (r : UInt32) : UInt32 :=
  shift (shift (shift (shift (shift (shift (shift (shift r)))))))

/-- The register after one more byte. -/
def step (r : UInt32) (b : UInt8) : UInt32 := shift8 (r ^^^ b.toUInt32)

/-- The check sum of some bytes. -/
def sum (bs : List UInt8) : UInt32 := ~~~ bs.foldl step 0xFFFFFFFF

end VaultSearch.Crc32

/-! ## LZ4 blocks

A block is a series of sequences. A sequence is a token byte, some
literal bytes, and a copy of bytes that were read before, named by its
distance and length; the last sequence ends after its literals. The form
used here is preceded by the length of the text as four bytes.
`compress` writes one sequence of literals; `decompress` reads any
block, and refuses one that is cut short, that copies from before the
beginning or from no distance, or that holds more than the length says.
-/

namespace VaultSearch.Lz4

/-! ### Writing -/

/-- The bytes that continue a length whose first part is full. -/
def lengthBytes (n : Nat) : List UInt8 :=
  List.replicate (n / 255) 255 ++ [UInt8.ofNat (n % 255)]

/-- A block whose text is all literals. -/
def block (text : List UInt8) : List UInt8 :=
  let n := text.length
  if n < 15 then UInt8.ofNat (n * 16) :: text
  else 240 :: lengthBytes (n - 15) ++ text

/-- The text as a block with its length in front. -/
def compress (text : List UInt8) : List UInt8 := Codec.u32.encode text.length ++ block text

/-! ### Reading -/

/-- Read the bytes that continue a length, and add them up. -/
def readLength (n : Nat) : List UInt8 → Option (Nat × List UInt8)
  | [] => none
  | b :: bs => if b = 255 then readLength (n + 255) bs else some (n + b.toNat, bs)

/-- A length whose first part is `nibble`; a full first part is continued. -/
def lengthFrom (nibble : Nat) (bs : List UInt8) : Option (Nat × List UInt8) :=
  if nibble = 15 then readLength 15 bs else some (nibble, bs)

/-- Append `n` bytes, each a copy of the one `distance` places before it. -/
def copyBack (distance : Nat) : (n : Nat) → Array UInt8 → Array UInt8
  | 0, out => out
  | n + 1, out => copyBack distance n (out.push (out.getD (out.size - distance) 0))

/-- The fewest bytes that a copy has. -/
def minCopy : Nat := 4

/-- Read sequences up to the end of the block. `limit` bounds the length of the
text, and `fuel` the number of sequences. -/
def readSequences (limit : Nat) : (fuel : Nat) → List UInt8 → Array UInt8 → Option (Array UInt8)
  | 0, _, _ => none
  | _ + 1, [], _ => none
  | fuel + 1, token :: bs, out => do
    let (n, bs) ← lengthFrom (token.toNat / 16) bs
    let (literals, bs) ← Codec.splitExact? n bs
    if limit < out.size + n then none
    let out := out ++ literals
    if bs.isEmpty then pure out
    else
      let (distance, bs) ← Codec.readNumber 2 bs
      let (n, bs) ← lengthFrom (token.toNat % 16) bs
      let n := n + minCopy
      if distance = 0 || out.size < distance || limit < out.size + n then none
      readSequences limit fuel bs (copyBack distance n out)

/-- The text of a block with its length in front. -/
def decompress (bs : List UInt8) : Option (List UInt8) := do
  let (limit, bs) ← Codec.u32.decode bs
  let out ← readSequences limit (bs.length + 1) bs #[]
  pure out.toList

end VaultSearch.Lz4

/-! ## Blobs -/

namespace VaultSearch.Snapshot

/-- The letters `QSNP`. -/
def magic : List UInt8 := [0x51, 0x53, 0x4e, 0x50]

/-- The length of the part of a blob before its fingerprint. -/
def headerLength : Nat := 16

/-- The blob with a compressed value. -/
def frame (fingerprint : String) (compressed : List UInt8) : List UInt8 :=
  let name := Utf8.encode fingerprint
  magic ++ Codec.u32.encode snapshotVersion ++
    Codec.u32.encode (Crc32.sum compressed).toNat ++ Codec.u32.encode name.length ++
    name ++ compressed

/-- The compressed binary form of a value. -/
def pack {α : Type} (c : Codec α) (a : α) : List UInt8 := Lz4.compress (c.encode a)

/-- The value that has a compressed binary form. Bytes after the value are ignored. -/
def unpack {α : Type} (c : Codec α) (compressed : List UInt8) : Except Rejection α := do
  let some bytes := Lz4.decompress compressed | throw .decompression
  let some (a, _) := c.decode bytes | throw .payload
  pure a

/-- The value as a blob made under the settings named `fingerprint`. -/
def encode {α : Type} (c : Codec α) (fingerprint : String) (a : α) : List UInt8 :=
  frame fingerprint (pack c a)

/-- The number in the four bytes of `blob` from `at_` on. -/
def word (blob : List UInt8) (at_ : Nat) : Nat :=
  ((Codec.u32.decode (blob.drop at_)).map (·.1)).getD 0

/-- The compressed value in a blob made under the settings named
`fingerprint`. -/
def unframe (fingerprint : String) (blob : List UInt8) : Except Rejection (List UInt8) := do
  if blob.length < headerLength then throw .shortHeader
  if blob.take 4 ≠ magic then throw .badMagic
  if word blob 4 ≠ snapshotVersion then throw (.version (word blob 4))
  let some (name, compressed) := Codec.splitExact? (word blob 12) (blob.drop headerLength)
    | throw .truncatedFingerprint
  let some stored := Utf8.decode? name | throw .fingerprintNotUtf8
  if stored ≠ fingerprint then throw (.otherSettings stored fingerprint)
  if (Crc32.sum compressed).toNat ≠ word blob 8 then throw .checksum
  pure compressed

/-- The value in a blob made under the settings named `fingerprint`. -/
def decode {α : Type} (c : Codec α) (fingerprint : String) (blob : List UInt8) :
    Except Rejection α := do
  unpack c (← unframe fingerprint blob)

end VaultSearch.Snapshot

/-! ## Stores

A store keeps one blob. `SnapshotStore σ` gives the operations of a kind
of store whose states are the values of `σ`; an operation that fails may
still have changed the state.
-/

namespace VaultSearch

/-- The bytes of a snapshot. -/
abbrev Blob := List UInt8

class SnapshotStore (σ : Type) where
  /-- The stored blob, if there is one. -/
  load : σ → Except Fault (Option Blob)
  /-- Replace the stored blob. -/
  save : Blob → σ → Except Fault Unit × σ
  /-- Remove all that the store has written. -/
  clear : σ → Except Fault Unit × σ

/-- A store in memory. Its owner may make loading or saving fail. -/
structure MemoryStore where
  blob : Option Blob := none
  loadFault : Option Fault := none
  saveFault : Option Fault := none

instance : SnapshotStore MemoryStore where
  load s := match s.loadFault with
    | some f => .error f
    | none => .ok s.blob
  save b s := match s.saveFault with
    | some f => (.error f, s)
    | none => (.ok (), { s with blob := some b })
  clear s := (.ok (), { s with blob := none })

end VaultSearch
