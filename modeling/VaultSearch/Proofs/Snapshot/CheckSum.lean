import Mathlib.Algebra.CharP.Two
import Mathlib.Algebra.Field.ZMod
import Mathlib.RingTheory.AdjoinRoot
import Mathlib.Tactic.ComputeDegree
import Mathlib.Tactic.LinearCombination
import VaultSearch.Snapshot

/-!
# What the check sum is and what it finds

Two facts about `Crc32.sum`. It is CRC-32 as IEEE 802.3 has it: read as
polynomials over the field of two elements, the inverted sum is the
remainder of the message, with 32 zeros behind it and its first 32 bits
inverted, by the generator (`isCrc32_iff`). And it tells a message from
every other that differs in one byte (`sum_set_ne`), because a step of the
register loses neither the register nor the byte.
-/

namespace VaultSearch.Crc32

open Polynomial

/-! ## Bits and polynomials -/

/-- The `width` low bits of a number, lowest first. -/
def bits : (width : Nat) → Nat → List Bool
  | 0, _ => []
  | width + 1, n => n.testBit 0 :: bits width (n / 2)

/-- The polynomial with these coefficients, highest first. -/
noncomputable def poly : List Bool → (ZMod 2)[X]
  | [] => 0
  | b :: bs => (if b then X ^ bs.length else 0) + poly bs

@[simp] theorem length_bits : ∀ width n : Nat, (bits width n).length = width
  | 0, _ => rfl
  | width + 1, n => by rw [bits, List.length_cons, length_bits width]

theorem poly_append (as bs : List Bool) :
    poly (as ++ bs) = poly as * X ^ bs.length + poly bs := by
  induction as with
  | nil => simp [poly]
  | cons a as ih =>
      rw [List.cons_append, poly, poly, ih, List.length_append]
      split <;> ring

theorem poly_replicate_false : ∀ n : Nat, poly (List.replicate n false) = 0
  | 0 => rfl
  | n + 1 => by rw [List.replicate_succ, poly, poly_replicate_false n]; simp

theorem bits_zero : ∀ width : Nat, bits width 0 = List.replicate width false
  | 0 => rfl
  | width + 1 => by rw [bits, Nat.zero_div, bits_zero width]; rfl

/-- Beyond its own width a number has only zeros. -/
theorem bits_add {width n : Nat} (hn : n < 2 ^ width) (more : Nat) :
    bits (width + more) n = bits width n ++ List.replicate more false := by
  induction width generalizing n with
  | zero =>
      obtain rfl : n = 0 := by simpa using hn
      rw [Nat.zero_add, bits_zero]
      rfl
  | succ width ih =>
      have hhalf : n / 2 < 2 ^ width := by omega
      rw [Nat.add_right_comm, bits, ih hhalf, bits, List.cons_append]

theorem poly_bits_add {width n : Nat} (hn : n < 2 ^ width) (more : Nat) :
    poly (bits (width + more) n) = poly (bits width n) * X ^ more := by
  rw [bits_add hn, poly_append, poly_replicate_false, List.length_replicate, add_zero]

theorem poly_bits_xor : ∀ width m n : Nat,
    poly (bits width (m ^^^ n)) = poly (bits width m) + poly (bits width n)
  | 0, _, _ => by simp [bits, poly]
  | width + 1, m, n => by
      have htwo := CharTwo.add_self_eq_zero (X ^ width : (ZMod 2)[X])
      simp only [bits, poly, Nat.testBit_xor, Nat.xor_div_two, poly_bits_xor width, length_bits]
      cases m.testBit 0 <;> cases n.testBit 0 <;>
        simp only [bne_self_eq_false, Bool.false_bne, Bool.bne_false, Bool.false_eq_true, if_true,
          if_false]
      · ring
      · ring
      · ring
      · linear_combination -htwo

theorem degree_poly_lt : ∀ bs : List Bool, (poly bs).degree < bs.length
  | [] => by rw [poly, degree_zero]; exact WithBot.bot_lt_coe 0
  | b :: bs => by
      have hlt : (bs.length : WithBot ℕ) < (b :: bs).length := by
        rw [List.length_cons]
        exact_mod_cast Nat.lt_succ_self bs.length
      rw [poly]
      refine (degree_add_le _ _).trans_lt (max_lt ?_ ((degree_poly_lt bs).trans hlt))
      split
      · rwa [degree_X_pow]
      · rw [degree_zero]
        exact WithBot.bot_lt_coe _

/-! ## The register -/

/-- The generator of CRC-32. -/
noncomputable def generator : (ZMod 2)[X] :=
  X ^ 32 + X ^ 26 + X ^ 23 + X ^ 22 + X ^ 16 + X ^ 12 + X ^ 11 + X ^ 10 + X ^ 8 + X ^ 7 + X ^ 5 +
    X ^ 4 + X ^ 2 + X + 1

theorem degree_generator : generator.degree = 32 := by
  rw [generator]
  compute_degree!

theorem monic_generator : generator.Monic := by
  rw [generator]
  monicity!

/-- The register as a polynomial: its lowest bit is the highest coefficient. -/
noncomputable def register (r : UInt32) : (ZMod 2)[X] := poly (bits 32 r.toNat)

theorem register_xor (r s : UInt32) : register (r ^^^ s) = register r + register s := by
  rw [register, UInt32.toNat_xor, poly_bits_xor]
  rfl

theorem register_divisor : register 0xEDB88320 + X ^ 32 = generator := by
  have hbits : bits 32 (0xEDB88320 : UInt32).toNat =
      [false, false, false, false, false, true, false, false, true, true, false, false, false,
        false, false, true, false, false, false, true, true, true, false, true, true, false, true,
        true, false, true, true, true] := by
    decide
  rw [register, hbits, generator]
  simp only [poly, List.length_cons, List.length_nil, Bool.false_eq_true, if_true, if_false]
  ring

theorem and_one_eq_iff (r : UInt32) : r &&& 1 = 1 ↔ r.toNat.testBit 0 = true := by
  rw [← UInt32.toNat_inj, UInt32.toNat_and, Nat.testBit_zero, decide_eq_true_eq]
  exact iff_of_eq (congrArg (· = 1) (Nat.and_one_is_mod r.toNat))

theorem toNat_half (r : UInt32) : (r >>> 1).toNat = r.toNat / 2 := by
  rw [UInt32.toNat_shiftRight]
  exact Nat.shiftRight_eq_div_pow _ 1

/-- Half of the register is the rest of it after its lowest bit, times `X`. -/
theorem register_half (r : UInt32) :
    register (r >>> 1) + (if r &&& 1 = 1 then X ^ 32 else 0) = X * register r := by
  have hhalf : r.toNat / 2 < 2 ^ 31 := by
    have := r.toNat_lt
    omega
  have hrest : register r =
      (if r.toNat.testBit 0 then X ^ 31 else 0) + poly (bits 31 (r.toNat / 2)) := by
    rw [register, bits, poly, length_bits]
  rw [hrest, register, toNat_half, poly_bits_add hhalf 1]
  simp only [and_one_eq_iff]
  split <;> ring

/-- A step of the division multiplies by `X` and takes away the generator if it fits. -/
theorem register_shift (r : UInt32) :
    register (shift r) = X * register r + (if r &&& 1 = 1 then generator else 0) := by
  have htwo := CharTwo.add_self_eq_zero (X ^ 32 : (ZMod 2)[X])
  rw [shift, ← register_half]
  split
  · rw [register_xor, ← register_divisor]
    linear_combination -htwo
  · ring

/-! ## The remainder -/

/-- A polynomial up to multiples of the generator. -/
noncomputable abbrev residue : (ZMod 2)[X] →+* AdjoinRoot generator := AdjoinRoot.mk generator

theorem residue_shift (r : UInt32) : residue (register (shift r)) = residue (X * register r) := by
  rw [register_shift, map_add]
  split
  · rw [AdjoinRoot.mk_self, add_zero]
  · rw [map_zero, add_zero]

theorem residue_shift8 (r : UInt32) :
    residue (register (shift8 r)) = residue (X ^ 8 * register r) := by
  simp only [shift8, residue_shift, map_mul, map_pow]
  ring

theorem register_byte (b : UInt8) : register b.toUInt32 = poly (bits 8 b.toNat) * X ^ 24 := by
  rw [register, UInt8.toNat_toUInt32]
  exact poly_bits_add b.toNat_lt 24

theorem residue_step (r : UInt32) (b : UInt8) :
    residue (register (step r b)) =
      residue (register r * X ^ 8 + poly (bits 8 b.toNat) * X ^ 32) := by
  rw [step, residue_shift8, register_xor, register_byte]
  congr 1
  ring

/-- The bits of a message in the order in which they are sent. -/
def messageBits (bs : List UInt8) : List Bool := bs.flatMap fun b => bits 8 b.toNat

theorem length_messageBits (bs : List UInt8) : (messageBits bs).length = 8 * bs.length := by
  simp [messageBits, Nat.mul_comm]

/-- The register is the remainder of what went in, the bits already in it included. -/
theorem residue_foldl_step : ∀ (bs : List UInt8) (r : UInt32),
    residue (register (bs.foldl step r)) =
      residue (register r * X ^ (8 * bs.length) + poly (messageBits bs) * X ^ 32)
  | [], r => by simp [messageBits, poly]
  | b :: bs, r => by
      have hbits : poly (messageBits (b :: bs)) =
          poly (bits 8 b.toNat) * X ^ (8 * bs.length) + poly (messageBits bs) := by
        rw [← length_messageBits, ← poly_append]
        rfl
      rw [List.foldl_cons, residue_foldl_step bs, map_add, map_mul, residue_step, hbits,
        List.length_cons, ← map_mul, ← map_add]
      exact congrArg residue (by ring)

/-- `n` is the CRC-32 of a message: its bits inverted, lowest first, are the remainder by the
generator of the message with 32 zeros behind it and its first 32 bits inverted. -/
def IsCrc32 (bs : List UInt8) (n : Nat) : Prop :=
  n < 2 ^ 32 ∧ poly ((bits 32 n).map not) =
    (poly (messageBits bs) * X ^ 32 + poly (List.replicate 32 true) * X ^ (8 * bs.length)) %ₘ
      generator

theorem bits_complement : ∀ width n : Nat, n < 2 ^ width →
    (bits width (2 ^ width - 1 - n)).map not = bits width n
  | 0, _, _ => rfl
  | width + 1, n, hn => by
      have hlow : (2 ^ (width + 1) - 1 - n).testBit 0 = !n.testBit 0 := by
        rw [Nat.testBit_zero, Nat.testBit_zero, ← decide_not, decide_eq_decide]
        omega
      have hhalf : (2 ^ (width + 1) - 1 - n) / 2 = 2 ^ width - 1 - n / 2 := by omega
      rw [bits, bits, List.map_cons, hlow, hhalf, bits_complement width _ (by omega), Bool.not_not]

theorem bits_not (r : UInt32) : (bits 32 (~~~r).toNat).map not = bits 32 r.toNat := by
  rw [UInt32.toNat_not]
  exact bits_complement 32 _ r.toNat_lt

theorem isCrc32_sum (bs : List UInt8) : IsCrc32 bs (sum bs).toNat := by
  refine ⟨(sum bs).toNat_lt, ?_⟩
  have hones : register 0xFFFFFFFF = poly (List.replicate 32 true) := rfl
  have hres := residue_foldl_step bs 0xFFFFFFFF
  rw [hones, add_comm, AdjoinRoot.mk_eq_mk] at hres
  have hdeg : (register (bs.foldl step 0xFFFFFFFF)).degree < generator.degree := by
    rw [degree_generator, register]
    exact (degree_poly_lt _).trans_eq (by rw [length_bits]; rfl)
  rw [sum, bits_not, ← modByMonic_eq_of_dvd_sub monic_generator hres]
  exact ((modByMonic_eq_self_iff monic_generator).mpr hdeg).symm

/-! Bits of one width are told apart by their polynomial, so a message has one CRC-32. -/

theorem coeff_poly_cons (b : Bool) (bs : List Bool) :
    (poly (b :: bs)).coeff bs.length = if b then 1 else 0 := by
  rw [poly, coeff_add, coeff_eq_zero_of_degree_lt (degree_poly_lt bs), add_zero]
  split
  · rw [coeff_X_pow_self]
  · rw [coeff_zero]

theorem poly_inj : ∀ {as bs : List Bool}, as.length = bs.length → poly as = poly bs → as = bs
  | [], [], _, _ => rfl
  | a :: as, b :: bs, hlen, h => by
      have hlen' : as.length = bs.length := Nat.succ.inj hlen
      have hhigh := congrArg (fun p => coeff p bs.length) h
      simp only [coeff_poly_cons] at hhigh
      rw [← hlen', coeff_poly_cons] at hhigh
      obtain rfl : a = b := by
        cases a <;> cases b <;> simp at hhigh ⊢
      rw [poly, poly, hlen'] at h
      rw [poly_inj hlen' (add_left_cancel h)]

theorem bits_inj : ∀ {width m n : Nat}, m < 2 ^ width → n < 2 ^ width →
    bits width m = bits width n → m = n
  | 0, m, n, hm, hn, _ => by omega
  | width + 1, m, n, hm, hn, h => by
      obtain ⟨hlow, hhalf⟩ := List.cons.inj h
      have hrest : m / 2 = n / 2 := bits_inj (by omega) (by omega) hhalf
      rw [Nat.testBit_zero, Nat.testBit_zero, decide_eq_decide] at hlow
      omega

theorem isCrc32_iff {bs : List UInt8} {n : Nat} : IsCrc32 bs n ↔ n = (sum bs).toNat := by
  refine ⟨fun h => ?_, ?_⟩
  · obtain ⟨hlt, hpoly⟩ := h
    obtain ⟨hlt', hpoly'⟩ := isCrc32_sum bs
    have hbits := poly_inj (by simp) (hpoly.trans hpoly'.symm)
    exact bits_inj hlt hlt' (List.map_injective_iff.mpr (fun _ _ => Bool.not_inj) hbits)
  · rintro rfl
    exact isCrc32_sum bs

/-- The sum of the digits from `1` to `9`. -/
example : sum [0x31, 0x32, 0x33, 0x34, 0x35, 0x36, 0x37, 0x38, 0x39] = 0xCBF43926 := by
  decide +kernel

/-! ## Detection -/

/-- Halving clears the highest bit, which the divisor sets: the register after a step tells
whether it was odd. -/
theorem half_ne_half_xor (r s : UInt32) : r >>> 1 ≠ (s >>> 1) ^^^ 0xEDB88320 := by
  intro heq
  have hclear : ∀ t : UInt32, (t >>> 1).toNat.testBit 31 = false := by
    intro t
    rw [toNat_half]
    exact Nat.testBit_lt_two_pow (by have := t.toNat_lt; omega)
  have htop := congrArg (fun t : UInt32 => t.toNat.testBit 31) heq
  simp only [UInt32.toNat_xor, Nat.testBit_xor, hclear] at htop
  revert htop
  decide

theorem eq_of_half_eq {r s : UInt32} (hhalf : r >>> 1 = s >>> 1)
    (hlow : r &&& 1 = 1 ↔ s &&& 1 = 1) : r = s := by
  have hdiv := congrArg UInt32.toNat hhalf
  rw [toNat_half, toNat_half] at hdiv
  rw [and_one_eq_iff, and_one_eq_iff, Nat.testBit_zero, Nat.testBit_zero, decide_eq_true_eq,
    decide_eq_true_eq] at hlow
  refine UInt32.toNat_inj.mp ?_
  omega

theorem shift_injective {r s : UInt32} (h : shift r = shift s) : r = s := by
  rw [shift, shift] at h
  split at h <;> split at h
  · rename_i hr hs
    exact eq_of_half_eq ((UInt32.xor_left_inj _).mp h) (iff_of_true hr hs)
  · exact absurd h.symm (half_ne_half_xor s r)
  · exact absurd h (half_ne_half_xor r s)
  · rename_i hr hs
    exact eq_of_half_eq h (iff_of_false hr hs)

theorem shift8_injective {r s : UInt32} (h : shift8 r = shift8 s) : r = s := by
  simp only [shift8] at h
  iterate 8 replace h := shift_injective h
  exact h

/-- A step loses nothing of the register. -/
theorem step_injective {r s : UInt32} {b : UInt8} (h : step r b = step s b) : r = s :=
  (UInt32.xor_left_inj _).mp (shift8_injective h)

/-- A step loses nothing of the byte. -/
theorem byte_of_step {r : UInt32} {b c : UInt8} (h : step r b = step r c) : b = c := by
  have hxor := (UInt32.xor_right_inj _).mp (shift8_injective h)
  rw [← UInt8.toNat_inj, ← UInt8.toNat_toUInt32, hxor, UInt8.toNat_toUInt32]

theorem foldl_step_injective : ∀ (bs : List UInt8) {r s : UInt32},
    bs.foldl step r = bs.foldl step s → r = s
  | [], _, _, h => h
  | _ :: bs, _, _, h => step_injective (foldl_step_injective bs h)

/-- Messages that differ in one byte have different sums. -/
theorem sum_set_ne {bs : List UInt8} {i : Nat} (hi : i < bs.length) {v : UInt8}
    (hv : v ≠ bs[i]) : sum (bs.set i v) ≠ sum bs := by
  intro h
  have hfold : (bs.set i v).foldl step 0xFFFFFFFF = bs.foldl step 0xFFFFFFFF := by
    simpa [sum] using h
  have hbs : bs = bs.take i ++ bs[i] :: bs.drop (i + 1) := by simp
  rw [List.set_eq_take_append_cons_drop, if_pos hi] at hfold
  conv_rhs at hfold => rw [hbs]
  rw [List.foldl_append, List.foldl_append, List.foldl_cons, List.foldl_cons] at hfold
  exact hv (byte_of_step (foldl_step_injective _ hfold))

end VaultSearch.Crc32
