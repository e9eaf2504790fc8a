import Mathlib
import VaultSearch.Proofs.Search.ExactWeights
import VaultSearch.Proofs.Search.Independence
import VaultSearch.Proofs.Search.Ranking
import VaultSearch.Proofs.Search.Tally

/-!
# Sound scores

The ranking asserts of the score of every posting that it counts that it is
finite and not negative (`Index.asserts`). A `SoundScore` is a type of scores
with such an assertion: sound scores add up to sound ones, and they are
ordered, so the ranked list of a search that asserts only what is so is
ordered too (`Index.Records.ordered_of_asserts`). Whether it does is a fact
about the live documents alone (`Index.asserts_eq_of_perm`).

Binary floating point is one: a float is sound if it is not negative. No sum
of such floats is NaN, though it may be infinite (`Score.zero_le_add`), numbers
are such floats (`Score.zero_le_ofNat`), and floats other than NaN are ordered
(`Score.ordered_of_no_nan`). Real numbers are ordered whether they are sound or
not (`Score.ordered_real`).
-/

namespace VaultSearch

/-- Scores of which some are sound: zero is, those are of which the ranking's assertion
holds, the sum of two sound ones is, and sound scores are ordered. -/
class SoundScore (S : Type) [Score S] where
  Sound : S → Prop
  asserted : S → Bool
  sound_zero : Sound 0.0
  sound_of_asserted : ∀ {a : S}, asserted a = true → Sound a
  sound_add : ∀ {a b : S}, Sound a → Sound b → Sound (a + b)
  ordered : ∀ {l : List S}, (∀ a ∈ l, Sound a) → Score.Ordered l

section

open SoundScore

variable {S : Type} [Score S] [SoundScore S]

/-- What a search asserts of the scores that it counts is so. -/
def Index.asserts (S : Type) [Score S] [SoundScore S] (ix : Index) (o : SearchOptions)
    (s : SearchSettings) (terms : List String) : Bool :=
  terms.all fun q => (expand (S := S) ix o s q).all fun (t, weight) =>
    (ix.postingsOf t).all fun p => (ix.entry? p.doc).all fun e =>
      asserted (postingScore ix s weight (idf ix.live (ix.docFreq t)) e p.field)

/-- The postings that a search counts are the occurrences in the live documents. -/
theorem Index.Records.asserts_iff {ix : Index} {ds : List (Option Analysed)} (h : ix.Records ds)
    {o : SearchOptions} {s : SearchSettings} {terms : List String} :
    ix.asserts S o s terms = true ↔ ∀ q ∈ terms, ∀ r ∈ expand (S := S) ix o s q,
      ∀ d ∈ ds.reduceOption, ∀ f ∈ d.fieldsWith r.1,
        asserted (postingScore ix s r.2 (idf ix.live (ix.docFreq r.1)) (Index.entryOf d) f) := by
  simp only [Index.asserts, List.all_eq_true, Option.all_eq_true]
  constructor
  · intro hall q hq r hr d hd f hf
    obtain ⟨slot, hs⟩ := Index.Records.exists_slot_of_mem_live hd
    refine hall q hq r hr ⟨slot, f⟩ ?_ _ (h.entry?_eq_some.mpr ⟨d, hs, rfl⟩)
    exact (h.mem_postings r.1 slot f).mpr ⟨d, hs, Analysed.mem_fieldsWith.mp hf⟩
  · rintro hall q hq r hr ⟨slot, f⟩ hp e he
    obtain ⟨d, hs, rfl⟩ := h.entry?_eq_some.mp he
    obtain ⟨d', hs', hf⟩ := (h.mem_postings r.1 slot f).mp hp
    obtain rfl : d' = d := by
      rw [hs] at hs'
      exact (Option.some.inj (Option.some.inj hs')).symm
    exact hall q hq r hr d' (Index.Records.mem_live_of_slot hs) f (Analysed.mem_fieldsWith.mpr hf)

/-- Two indexes of the same documents assert the same. -/
theorem Index.asserts_eq_of_perm {ix₁ ix₂ : Index} {ds₁ ds₂ : List (Option Analysed)}
    (h₁ : ix₁.Records ds₁) (h₂ : ix₂.Records ds₂) (hp : ds₁.reduceOption.Perm ds₂.reduceOption)
    (o : SearchOptions) (s : SearchSettings) (terms : List String) :
    ix₁.asserts S o s terms = ix₂.asserts S o s terms := by
  have hcounts := h₁.sameCounts h₂ hp
  rw [Bool.eq_iff_iff, h₁.asserts_iff, h₂.asserts_iff]
  simp only [hcounts.expand_eq, hcounts.postingScore_eq, hcounts.live, hcounts.docFreq, hp.mem_iff]

/-- The score of the tally is sound, if there is one. -/
def SoundTally (tally : Option (Tally S)) : Prop := ∀ x, tally = some x → Sound x.score

theorem SoundTally.getD {tally : Option (Tally S)} (h : SoundTally tally) :
    Sound (tally.getD .zero).score := by
  cases tally with
  | none => exact sound_zero
  | some x => exact h x rfl

theorem SoundTally.merge {x y : Tally S} (hx : Sound x.score) (hy : Sound y.score) :
    SoundTally (some (x.merge y)) := by
  rintro _ ⟨⟩
  exact sound_add hx hy

theorem soundTally_none : SoundTally (none : Option (Tally S)) := by
  rintro x ⟨⟩

variable {ix : Index} {o : SearchOptions} {s : SearchSettings} {d : Analysed}

theorem soundTally_tallyOf {q : String} {reached : List (String × S)}
    (h : ∀ r ∈ reached, ∀ f ∈ d.fieldsWith r.1,
      Sound (postingScore ix s r.2 (idf ix.live (ix.docFreq r.1)) (Index.entryOf d) f)) :
    SoundTally (tallyOf ix s q reached d) := by
  rw [tallyOf]
  refine List.foldlRecOn reached _ soundTally_none fun tally htally r hr => ?_
  rw [countTerm]
  refine List.foldlRecOn (d.fieldsWith r.1) _ htally fun tally htally f hf => ?_
  rintro _ ⟨⟩
  exact sound_add htally.getD (h r hr f hf)

theorem soundTally_join {a b : Option (Tally S)} (mode : Combine) (ha : SoundTally a)
    (hb : SoundTally b) : SoundTally (joinTallies mode a b) := by
  cases mode with
  | and =>
      cases a with
      | none => exact soundTally_none
      | some x =>
          cases b with
          | none => exact soundTally_none
          | some y => exact .merge (ha x rfl) (hb y rfl)
  | or =>
      cases b with
      | none => exact ha
      | some y => exact .merge ha.getD (hb y rfl)

theorem soundTally_jointTally {tally : String → Option (Tally S)} (mode : Combine)
    {terms : List String} (h : ∀ q ∈ terms, SoundTally (tally q)) :
    SoundTally (jointTally mode tally terms) := by
  cases terms with
  | nil => exact soundTally_none
  | cons q qs =>
      refine List.foldlRecOn qs _ (h q List.mem_cons_self) fun acc hacc r hr => ?_
      exact soundTally_join mode hacc (h r (List.mem_cons_of_mem _ hr))

/-- The scores of all hits are sound, and so they are ordered. -/
theorem Index.Records.ordered_of_asserts {ds : List (Option Analysed)} (h : ix.Records ds)
    {terms : List String} (hasserts : ix.asserts S o s terms = true) (only : Option Nat) :
    Score.Ordered ((hits (S := S) ix o s only terms).map Hit.score) := by
  refine SoundScore.ordered fun a ha => ?_
  obtain ⟨hit, hhit, rfl⟩ := List.mem_map.mp ha
  obtain ⟨slot, d, hd, -, hhit⟩ := (mem_hits h o s only terms hit).mp hhit
  obtain ⟨tally, htally, rfl⟩ := Option.map_eq_some_iff.mp hhit
  refine soundTally_jointTally o.combineWith (fun q hq => ?_) tally htally
  refine soundTally_tallyOf fun r hr f hf => sound_of_asserted ?_
  exact h.asserts_iff.mp hasserts q hq r hr d (Index.Records.mem_live_of_slot hd) f hf

end

namespace Score

open Float.Model (Format UnpackedFloat)
open Float.Model.UnpackedFloat

/-! ## The order of floats -/

/-- The place of a float among the floats: class, exponent and significand. -/
def floatRank : UnpackedFloat → Int ×ₗ (Int ×ₗ Int)
  | .infinity .negative => toLex (-2, toLex (0, 0))
  | .finite .negative m e _ => toLex (-1, toLex (-e, -(m : Int)))
  | .finite .positive m e _ => toLex (1, toLex (e, (m : Int)))
  | .infinity .positive => toLex (2, toLex (0, 0))
  | _ => toLex (0, toLex (0, 0))

theorem then_compare_eq_lt {e e' : Int} {m m' : Nat} :
    (compare e e').then (compare m m') = .lt ↔ e < e' ∨ (e = e' ∧ m < m') := by
  rw [Ordering.then_eq_lt, compare_lt_iff_lt, compare_eq_iff_eq, compare_lt_iff_lt]

theorem then_compare_eq_gt {e e' : Int} {m m' : Nat} :
    (compare e e').then (compare m m') = .gt ↔ e' < e ∨ (e' = e ∧ m' < m) := by
  rw [Ordering.then_eq_gt, compare_gt_iff_gt, compare_eq_iff_eq, compare_gt_iff_gt,
    eq_comm (a := e)]

theorem lt_unpacked_iff {x y : UnpackedFloat} (hx : x.isNaN = false) (hy : y.isNaN = false) :
    x.lt y = true ↔ floatRank x < floatRank y := by
  rw [UnpackedFloat.lt]
  rcases x with (_ | _) | _ | (_ | _) | ⟨_ | _, m, e, hm⟩ <;>
    rcases y with (_ | _) | _ | (_ | _) | ⟨_ | _, m', e', hm'⟩ <;>
    first | cases hx; done | cases hy; done | skip
  all_goals
    rw [Prod.Lex.lt_iff]
    unfold UnpackedFloat.compare
    dsimp only [floatRank, ofLex_toLex]
  case finite.negative.finite.negative =>
    simp [Prod.Lex.toLex_lt_toLex, then_compare_eq_gt, eq_comm (a := e)]
  case finite.positive.finite.positive =>
    simp [Prod.Lex.toLex_lt_toLex, then_compare_eq_lt]
  all_goals simp [Prod.Lex.toLex_lt_toLex, compare]

theorem lt_iff_floatRank {a b : Float} (ha : a.isNaN = false) (hb : b.isNaN = false) :
    Score.lt a b = true ↔ floatRank a.toModel.unpack < floatRank b.toModel.unpack := by
  have hlt : Score.lt a b = a.toModel.unpack.lt b.toModel.unpack := by
    show decide (a.lt b = true) = _
    rw [Bool.decide_eq_true, Float.lt]
    exact Bool.decide_eq_true
  rw [hlt]
  exact lt_unpacked_iff ha hb

/-- Floats other than NaN are totally ordered. -/
theorem ordered_of_no_nan {l : List Float} (h : ∀ a ∈ l, a.isNaN = false) :
    Score.Ordered l := by
  have hlt : ∀ a ∈ l, ∀ b ∈ l, Score.lt a b = true ↔
      floatRank a.toModel.unpack < floatRank b.toModel.unpack :=
    fun a ha b hb => lt_iff_floatRank (h a ha) (h b hb)
  have hge : ∀ a ∈ l, ∀ b ∈ l, Score.lt a b = false ↔
      floatRank b.toModel.unpack ≤ floatRank a.toModel.unpack := by
    intro a ha b hb
    rw [← not_lt, ← hlt a ha b hb, Bool.not_eq_true]
  constructor
  · intro a ha
    exact (hge a ha a ha).mpr le_rfl
  · intro a ha b hb c hc hab hbc
    exact (hlt a ha c hc).mpr (lt_trans ((hlt a ha b hb).mp hab) ((hlt b hb c hc).mp hbc))
  · intro a ha b hb c hc hab hbc
    exact (hge a ha c hc).mpr (le_trans ((hge b hb c hc).mp hbc) ((hge a ha b hb).mp hab))

/-! ## Sums of floats -/

/-- The float is a zero of either sign, or it is positive and perhaps infinite. -/
inductive NonNeg : UnpackedFloat → Prop where
  | zero (sign : Sign) : NonNeg (.zero sign)
  | finite (m : Nat) (e : Int) (hm : 0 < m) : NonNeg (.finite .positive m e hm)
  | infinity : NonNeg (.infinity .positive)

theorem NonNeg.isNaN {x : UnpackedFloat} (h : NonNeg x) : x.isNaN = false := by
  cases h <;> rfl

theorem zero_le_unpacked_iff {x : UnpackedFloat} :
    UnpackedFloat.le (.zero .positive) x = true ↔ NonNeg x := by
  constructor
  · intro h
    rcases x with (_ | _) | _ | sign | ⟨_ | _, m, e, hm⟩
    · cases h
    · exact .infinity
    · cases h
    · exact .zero sign
    · cases h
    · exact .finite m e hm
  · rintro (_ | _ | _) <;> rfl

theorem nonNeg_roundWithAccuracy (spec : Format) (m : Nat) (e : Int) (a : Accuracy) :
    NonNeg (roundWithAccuracy spec .positive m e a) := by
  unfold roundWithAccuracy
  dsimp only
  split
  · exact .zero _
  · exact .finite _ _ _

theorem nonNeg_round (spec : Format) (m : Nat) (e : Int) :
    NonNeg (UnpackedFloat.round spec .positive m e) :=
  nonNeg_roundWithAccuracy spec _ _ _

theorem nonNeg_add (spec : Format) {x y : UnpackedFloat} (hx : NonNeg x) (hy : NonNeg y) :
    NonNeg (UnpackedFloat.add spec x y) := by
  cases hx with
  | zero s =>
      cases hy with
      | zero s' =>
          unfold UnpackedFloat.add
          dsimp only
          split
          · exact .zero _
          · exact .zero _
      | finite m e hm => exact .finite m e hm
      | infinity => exact .infinity
  | infinity =>
      cases hy with
      | zero s' => exact .infinity
      | finite m e hm => exact .infinity
      | infinity => exact .infinity
  | finite m e hm =>
      cases hy with
      | zero s' => exact .finite m e hm
      | infinity => exact .infinity
      | finite m' e' hm' =>
          unfold UnpackedFloat.add UnpackedFloat.normalize
          dsimp only
          split
          · -- the sum of two positive significands is not negative
            rename_i hcompare
            have hlt := Int.compare_eq_lt.mp hcompare
            simp only [Sign.apply] at hlt
            omega
          · exact .zero _
          · exact nonNeg_round _ _ _

/-- Packed parts with a positive sign stand for no negative float, unless they are those
of NaN. -/
theorem nonNeg_unpack_packComponents (spec : Format) (e : BitVec spec.exponentBits)
    (m : BitVec spec.mantissaBitsWithoutImplicit) (h : e = -1#_ → m = 0#_) :
    NonNeg (UnpackedFloat.unpack spec (packComponents spec .positive e m)) := by
  unfold UnpackedFloat.unpack
  simp only [unpackExponent_packComponents, unpackMantissa_packComponents,
    unpackSign_packComponents, Sign.ofBitVec_toBitVec]
  split
  · rename_i he
    rw [if_pos (h he)]
    exact .infinity
  · split
    · split
      · exact .zero _
      · exact .finite _ _ _
    · exact .finite _ _ _

theorem nonNeg_unpack_pack (spec : Format) {x : UnpackedFloat} (hx : NonNeg x) :
    NonNeg (UnpackedFloat.unpack spec (UnpackedFloat.pack spec x)) := by
  cases hx with
  | zero s =>
      rw [UnpackedFloat.pack, unpack_packedZero]
      exact .zero s
  | infinity => exact nonNeg_unpack_packComponents spec _ _ fun _ => rfl
  | finite m e hm =>
      unfold UnpackedFloat.pack
      dsimp only
      split
      · exact nonNeg_unpack_packComponents spec _ _ fun _ => rfl
      · -- the exponent is smaller than that of the infinities
        split
        · refine nonNeg_unpack_packComponents spec _ _ fun h => ?_
          have hexp := congrArg BitVec.toNat h
          rw [BitVec.neg_one_eq_allOnes, BitVec.toNat_ofNat, BitVec.toNat_allOnes,
            Nat.mod_eq_of_lt (by omega)] at hexp
          omega
        · refine nonNeg_unpack_packComponents spec _ _ fun h => ?_
          have hexp := congrArg BitVec.toNat h
          rw [BitVec.neg_one_eq_allOnes, BitVec.toNat_zero, BitVec.toNat_allOnes] at hexp
          have := Nat.one_lt_two_pow spec.he.ne'
          omega

theorem zero_le_iff {a : Float} : 0.0 ≤ a ↔ NonNeg a.toModel.unpack := by
  have hle : (0.0 ≤ a) = (UnpackedFloat.le (.zero .positive) a.toModel.unpack = true) := by
    show (Float.le _ _ = true) = _
    rw [Float.le, decide_eq_true_eq]
    rfl
  rw [hle, zero_le_unpacked_iff]

theorem zero_le_add {a b : Float} (ha : 0.0 ≤ a) (hb : 0.0 ≤ b) : 0.0 ≤ a + b := by
  rw [zero_le_iff] at ha hb ⊢
  exact nonNeg_unpack_pack _ (nonNeg_add _ ha hb)

/-! ## Numbers as floats -/

theorem nonNeg_mul_finite (spec : Format) {x : UnpackedFloat} (hx : NonNeg x) (m : Nat) (e : Int)
    (hm : 0 < m) : NonNeg (UnpackedFloat.mul spec x (.finite .positive m e hm)) := by
  cases hx with
  | zero s => exact .zero _
  | finite m' e' hm' => exact nonNeg_roundWithAccuracy spec _ _ _
  | infinity => exact .infinity

theorem nonNeg_ofScientific (spec : Format) (m : Nat) :
    NonNeg (UnpackedFloat.ofScientific spec m 0) := by
  unfold UnpackedFloat.ofScientific
  split
  · exact .zero _
  · split
    · exact .infinity
    · split
      · exact .zero _
      · rw [if_pos (Int.le_refl 0)]
        exact nonNeg_mul_finite spec (.finite _ _ _) _ _ _

theorem nonNeg_ofUInt64 (spec : Format) (n : UInt64) :
    NonNeg (UnpackedFloat.ofUInt64 spec n) := by
  unfold UnpackedFloat.ofUInt64 UnpackedFloat.ofNat UnpackedFloat.ofInt UnpackedFloat.normalize
  split
  · rename_i h
    have hlt := Int.compare_eq_lt.mp h
    omega
  · exact .zero _
  · exact nonNeg_round _ _ _

theorem zero_le_ofNat (n : Nat) : 0.0 ≤ Float.ofNat n := by
  rw [zero_le_iff]
  show NonNeg (Float.ofScientific n false 0).toModel.unpack
  rw [Float.ofScientific]
  split
  · have hone : (Float.exactlyRepresentablePowersOfTen[0]).toModel.unpack =
        .finite .positive (2 ^ 52) (-52) (by decide) := rfl
    have hn : NonNeg n.toUInt64.toFloat.toModel.unpack :=
      nonNeg_unpack_pack _ (nonNeg_ofUInt64 _ _)
    have hmul := nonNeg_mul_finite .binary64 hn (2 ^ 52) (-52) (by decide)
    rw [← hone] at hmul
    exact nonNeg_unpack_pack _ hmul
  · exact nonNeg_unpack_pack _ (nonNeg_ofScientific _ n)

end Score

/-- A float is sound if it is not negative. -/
instance : SoundScore Float where
  Sound a := 0.0 ≤ a
  asserted a := a.isFinite && decide (0.0 ≤ a)
  sound_zero := Score.zero_le_iff.mpr (.zero .positive)
  sound_of_asserted h := of_decide_eq_true (Bool.and_eq_true_iff.mp h).2
  sound_add := Score.zero_le_add
  ordered h := Score.ordered_of_no_nan fun a ha => (Score.zero_le_iff.mp (h a ha)).isNaN

/-- Real numbers are ordered. -/
theorem Score.ordered_real (l : List ℝ) : Score.Ordered l := by
  constructor
  · intro a _
    exact decide_eq_false (lt_irrefl a)
  · intro _ _ _ _ _ _ hab hbc
    exact decide_eq_true ((of_decide_eq_true hab).trans (of_decide_eq_true hbc))
  · intro _ _ _ _ _ _ hab hbc
    have hba := not_lt.mp (of_decide_eq_false hab)
    have hcb := not_lt.mp (of_decide_eq_false hbc)
    exact decide_eq_false (not_lt.mpr (hcb.trans hba))

noncomputable instance : SoundScore ℝ where
  Sound a := 0 ≤ a
  asserted a := decide (0 ≤ a)
  sound_zero := by norm_num
  sound_of_asserted := of_decide_eq_true
  sound_add := add_nonneg
  ordered _ := Score.ordered_real _

end VaultSearch
