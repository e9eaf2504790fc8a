import Mathlib.Data.Countable.Basic
import Mathlib.Logic.Equiv.List
import Mathlib.Tactic.DeriveCountable
import VaultSearch.Proofs.Index.RoundTrip

/-!
# Packings that restore every index

A `Packing` stands for whatever turns an index into bytes and back. What is relied
on is that it restores the index (`Packing.Restores`); an engine then reads every
snapshot that was made under its settings
(`Engine.readSnapshot_serialize_of_restores`). The compressed binary form does so
as long as the length in front of a block has room for that of the form.
`Packing.complete` packs such an index in the same way, and restores all others as
well: there are countably many indexes.
-/

namespace VaultSearch

/-- Every index is read back from its packed form. -/
def Packing.Restores [Packing] : Prop :=
  ∀ ix : Index, Packing.unpack (Packing.pack ix) = .ok ix

/-- If the packing restores every index, a snapshot is refused for its settings alone. -/
theorem Engine.readSnapshot_serialize_of_restores [Packing] (hrestores : Packing.Restores)
    (e : Engine) {e' : Engine} {ds : List (Option Analysed)} (h : e'.index.Records ds) :
    e.readSnapshot e'.serialize =
      if e'.config.fingerprint = e.config.fingerprint then .ok e'.index
      else .error (.otherSettings e'.config.fingerprint e.config.fingerprint) := by
  rw [readSnapshot, serialize, Snapshot.unframe_frame e'.config.length_fingerprint]
  split
  · simp only [bind, Except.bind, hrestores e'.index, h.check_ok]
    rfl
  · rfl

/-! ## There are countably many indexes -/

instance countable_string : Countable String :=
  have hchars : Function.Injective Char.toNat := fun _ _ h => Char.toNat_inj.mp h
  have : Countable Char := hchars.countable
  Function.Injective.countable fun _ _ h => String.toList_inj.mp h

deriving instance Countable for Field, PerField, Posting, Entry

instance countable_array {α : Type} [Countable α] : Countable (Array α) :=
  Function.Injective.countable fun _ _ h => Array.toList_inj.mp h

instance countable_postings : Countable Postings :=
  Function.Injective.countable fun _ _ h => Std.ExtTreeMap.toList_inj.mp h

deriving instance Countable for Index

/-! ## A packing that restores every index -/

namespace Packing

/-- A number for each index. -/
noncomputable def numberOf : Index → Nat := (exists_injective_nat Index).choose

theorem numberOf_injective : Function.Injective numberOf := (exists_injective_nat Index).choose_spec

/-- Bytes that are no block: they hold a byte where the length in front says that there is
none. -/
def spare (n : Nat) : List UInt8 := [0, 0, 0, 0, 16, 0] ++ List.replicate n 0

theorem spare_injective : Function.Injective spare := by
  intro m n h
  simpa [spare] using congrArg List.length h

theorem unpack_spare {α : Type} (c : Codec α) (n : Nat) :
    Snapshot.unpack c (spare n) = .error .decompression := by
  have hblock : Lz4.decompress (spare n) = none := by
    simp [spare, Lz4.decompress, Codec.u32, Codec.number, Codec.readNumber, Lz4.readSequences,
      Lz4.lengthFrom, Codec.splitExact?]
  simp only [Snapshot.unpack, hblock]
  rfl

open Classical in
/-- An index that its compressed binary form does not restore is packed as a number instead. -/
noncomputable abbrev complete : Packing where
  pack ix :=
    if Snapshot.unpack Index.codec (Snapshot.pack Index.codec ix) = .ok ix then
      Snapshot.pack Index.codec ix
    else spare (numberOf ix)
  unpack bs :=
    if h : ∃ ix, bs = spare (numberOf ix) then .ok h.choose else Snapshot.unpack Index.codec bs

theorem complete_pack {ix : Index}
    (h : Snapshot.unpack Index.codec (Snapshot.pack Index.codec ix) = .ok ix) :
    complete.pack ix = Snapshot.pack Index.codec ix := if_pos h

theorem complete_restores : @Restores complete := by
  intro ix
  by_cases h : Snapshot.unpack Index.codec (Snapshot.pack Index.codec ix) = .ok ix
  · have hblock : ¬∃ ix', Snapshot.pack Index.codec ix = spare (numberOf ix') := by
      rintro ⟨ix', hspare⟩
      rw [hspare, unpack_spare] at h
      cases h
    have hpack : complete.pack ix = Snapshot.pack Index.codec ix := complete_pack h
    rw [hpack]
    exact (dif_neg hblock).trans h
  · have hpack : complete.pack ix = spare (numberOf ix) := if_neg h
    have hspare : ∃ ix', spare (numberOf ix) = spare (numberOf ix') := ⟨ix, rfl⟩
    rw [hpack]
    refine (dif_pos hspare).trans (congrArg Except.ok ?_)
    exact (numberOf_injective (spare_injective hspare.choose_spec)).symm

end Packing

end VaultSearch
