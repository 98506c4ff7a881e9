import Mathlib
import JerkLimit.Proofs.Order

/-!
# Proofs/Double — double precision numbers are ordered scalars

A `Float` is an unpacked number behind its bits: a sign, a mantissa and an exponent, or one of the
special values. Three facts about them carry the instance:

* the order of doubles is the lexicographic order of sign, exponent and mantissa (`le_iff`);
* rounding does not go below a number of the format (`le_round`), and packing keeps what it gives,
  up to overflow (`unpack_pack`);
* so a product or a sum whose exact value is at least a positive double is at least that double
  when it is rounded (`le_mul_of_one_le`, `half_add_pos`).
-/

namespace JerkLimit.Double

open Float.Model Float.Model.UnpackedFloat

/-! ## Comparison -/

/-- Where a number stands among the others: its sign and size first, then exponent and mantissa. -/
def rank : UnpackedFloat → ℤ ×ₗ ℤ ×ₗ ℤ
  | .infinity .positive => toLex (2, toLex (0, 0))
  | .infinity .negative => toLex (-2, toLex (0, 0))
  | .notANumber => toLex (0, toLex (0, 0))
  | .zero _ => toLex (0, toLex (0, 0))
  | .finite .positive m e _ => toLex (1, toLex (e, m))
  | .finite .negative m e _ => toLex (-1, toLex (-e, -m))

theorem compare_neg (a b : ℤ) : compare (-a) (-b) = (compare a b).swap := by
  rcases lt_trichotomy a b with h | rfl | h
  · rw [compare_gt_iff_gt.mpr (neg_lt_neg h), compare_lt_iff_lt.mpr h]
    rfl
  · rw [compare_eq_iff_eq.mpr rfl, compare_eq_iff_eq.mpr rfl]
    rfl
  · rw [compare_lt_iff_lt.mpr (neg_lt_neg h), compare_gt_iff_gt.mpr h]
    rfl

theorem compare_cast (a b : ℕ) : compare (a : ℤ) (b : ℤ) = compare a b := by
  rcases lt_trichotomy a b with h | rfl | h
  · rw [compare_lt_iff_lt.mpr h, compare_lt_iff_lt.mpr (Int.ofNat_lt.mpr h)]
  · rw [compare_eq_iff_eq.mpr rfl, compare_eq_iff_eq.mpr rfl]
  · rw [compare_gt_iff_gt.mpr h, compare_gt_iff_gt.mpr (Int.ofNat_lt.mpr h)]

theorem compare_eq {x y : UnpackedFloat} (hx : x ≠ .notANumber) (hy : y ≠ .notANumber) :
    x.compare y = some (compare (rank x) (rank y)) := by
  have hlex (a b c d e f : ℤ) : compare (toLex (a, toLex (b, c))) (toLex (d, toLex (e, f)))
      = (compare a d).then ((compare b e).then (compare c f)) := rfl
  rcases x with (_ | _) | _ | s | ⟨_ | _, m, e, hm⟩ <;>
    rcases y with (_ | _) | _ | s' | ⟨_ | _, m', e', hm'⟩ <;>
    try first | rfl | exact absurd rfl hx | exact absurd rfl hy
  -- What is left are two finite numbers of one sign, negative ones first.
  · simp only [UnpackedFloat.compare, rank, hlex, compare_neg, compare_cast, Ordering.swap_then]
    rfl
  · simp only [UnpackedFloat.compare, rank, hlex, compare_cast]
    rfl

theorem compare_eq_some {x y : UnpackedFloat} {o : Ordering} : x.compare y = some o ↔
    x ≠ .notANumber ∧ y ≠ .notANumber ∧ compare (rank x) (rank y) = o := by
  by_cases hx : x = .notANumber
  · simp [hx, UnpackedFloat.compare]
  by_cases hy : y = .notANumber
  · cases x <;> simp [hy, UnpackedFloat.compare]
  simp [compare_eq hx hy, hx, hy]

/-- **The order of doubles** is that of their ranks; what is not a number has no place in it. -/
theorem le_iff {a b : Float} : a ≤ b ↔ a.toModel.unpack ≠ .notANumber
    ∧ b.toModel.unpack ≠ .notANumber ∧ rank a.toModel.unpack ≤ rank b.toModel.unpack := by
  change decide (a.toModel.unpack.le b.toModel.unpack = true) = true ↔ _
  rw [decide_eq_true_iff, UnpackedFloat.le, Option.any_eq_true]
  simp only [compare_eq_some, Ordering.isLE_iff_ne_gt]
  constructor
  · rintro ⟨o, ⟨ha, hb, rfl⟩, hle⟩
    exact ⟨ha, hb, compare_le_iff_le.mp hle⟩
  · rintro ⟨ha, hb, hle⟩
    exact ⟨_, ⟨ha, hb, rfl⟩, compare_le_iff_le.mpr hle⟩

theorem lt_iff {a b : Float} : a < b ↔ a.toModel.unpack ≠ .notANumber
    ∧ b.toModel.unpack ≠ .notANumber ∧ rank a.toModel.unpack < rank b.toModel.unpack := by
  change decide (a.toModel.unpack.lt b.toModel.unpack = true) = true ↔ _
  rw [decide_eq_true_iff, UnpackedFloat.lt, beq_iff_eq, compare_eq_some, compare_lt_iff_lt]

/-! ## Rounding -/

/-- Mantissa and exponent of a positive number of the format. -/
structure Fits (m : ℕ) (e : ℤ) : Prop where
  pos : 0 < m
  lt : m < 2 ^ 53
  le : -1074 ≤ e
  normal : 2 ^ 52 ≤ m ∨ e = -1074

theorem mantissa_shiftRight (x : ExtendedMantissa) (k : ℕ) :
    (x >>> k).mantissa = x.mantissa / 2 ^ k := by
  induction k with
  | zero => exact (Nat.div_one _).symm
  | succ k ih =>
    change (x >>> k).mantissa / 2 = _
    rw [ih, Nat.div_div_eq_div_mul, pow_succ]

theorem le_roundedMantissa (x : ExtendedMantissa) :
    x.mantissa ≤ x.roundedMantissa ∧ x.roundedMantissa ≤ x.mantissa + 1 := by
  obtain ⟨m, r, s⟩ := x
  cases r <;> cases s <;>
    simp only [ExtendedMantissa.roundedMantissa, ExtendedMantissa.accuracy,
      Accuracy.roundToNearestEven] <;> omega

theorem targetExponent_eq (m : ℕ) (e : ℤ) :
    Format.binary64.targetExponent (totalExponent m e) = max (m.log2 + e - 52) (-1074) := by
  change max ((m.log2 : ℤ) + 1 + e - 53) (3 - 2 ^ 10 - 53) = _
  norm_num
  ring_nf

/-- Nothing is shifted that has its place. -/
theorem shift_of_lt {m : ℕ} {e : ℤ} (hm : m < 2 ^ 53) (he : -1074 ≤ e) :
    shiftToTargetExponent .binary64 m e .exact = (⟨m, false, false⟩, e) := by
  have hlog : m.log2 ≤ 52 := by
    rcases Nat.eq_zero_or_pos m with rfl | h
    · simp
    · exact Nat.lt_succ_iff.mp ((Nat.log2_lt h.ne').mpr hm)
  have hshift : (Format.binary64.targetExponent (totalExponent m e) - e).toNat = 0 := by
    rw [targetExponent_eq]
    omega
  rw [shiftToTargetExponent, shiftToExponent, hshift]
  simp only [Nat.cast_zero, add_zero]
  rfl

theorem shift_carry {e : ℤ} (he : -1074 ≤ e) :
    shiftToTargetExponent .binary64 (2 ^ 53) e .exact = (⟨2 ^ 52, false, false⟩, e + 1) := by
  have hshift : (Format.binary64.targetExponent (totalExponent (2 ^ 53) e) - e).toNat = 1 := by
    rw [targetExponent_eq, Nat.log2_two_pow]
    omega
  rw [shiftToTargetExponent, shiftToExponent, hshift]
  rfl

theorem mantissa_ofMantissaAndAccuracy (M : ℕ) (accuracy : Accuracy) :
    (ExtendedMantissa.ofMantissaAndAccuracy M accuracy).mantissa = M := by
  rcases accuracy with _ | (_ | _ | _) <;> rfl

/-- A number with the place of the last bit that a rounding keeps. -/
theorem round_eq {M : ℕ} {E t : ℤ} (s : Sign) (accuracy : Accuracy)
    (ht : t = max (M.log2 + E - 52) (-1074)) (hE : E ≤ t) :
    ∃ r, M / 2 ^ (t - E).toNat ≤ r ∧ r ≤ M / 2 ^ (t - E).toNat + 1
      ∧ roundWithAccuracy .binary64 s M E accuracy =
        if h : r = 0 then .zero s
        else if r < 2 ^ 53 then .finite s r t (Nat.pos_of_ne_zero h)
        else .finite s (2 ^ 52) (t + 1) (by decide) := by
  have hq : M / 2 ^ (t - E).toNat < 2 ^ 53 := by
    rw [Nat.div_lt_iff_lt_mul (by positivity), ← pow_add]
    exact Nat.lt_log2_self.trans_le (Nat.pow_le_pow_right (by decide) (by omega))
  have hfirst : (shiftToTargetExponent .binary64 M E accuracy)
      = ((ExtendedMantissa.ofMantissaAndAccuracy M accuracy) >>> (t - E).toNat, t) := by
    rw [shiftToTargetExponent, shiftToExponent, targetExponent_eq, ← ht,
      Int.toNat_of_nonneg (by omega)]
    simp
  have hmantissa := mantissa_shiftRight (ExtendedMantissa.ofMantissaAndAccuracy M accuracy)
    (t - E).toNat
  rw [mantissa_ofMantissaAndAccuracy] at hmantissa
  set x := (ExtendedMantissa.ofMantissaAndAccuracy M accuracy) >>> (t - E).toNat
  obtain ⟨hle, hge⟩ := le_roundedMantissa x
  rw [hmantissa] at hle hge
  refine ⟨x.roundedMantissa, hle, hge, ?_⟩
  have hmin : -1074 ≤ t := ht ▸ le_max_right _ _
  rw [roundWithAccuracy, hfirst]
  by_cases hr : x.roundedMantissa < 2 ^ 53
  · simp only [shift_of_lt hr hmin, hr, if_true]
  · have hcarry : x.roundedMantissa = 2 ^ 53 := by omega
    simp only [hcarry, shift_carry hmin]
    rfl

/-- What is long enough, or has the smallest exponent, keeps the last bit of the format, -/
theorem le_target {M : ℕ} {E t : ℤ} (ht : t = max (M.log2 + E - 52) (-1074))
    (hE : 2 ^ 52 ≤ M ∨ E ≤ -1074) : E ≤ t := by
  rcases hE with hE | hE
  · have hlog : 52 ≤ M.log2 := (Nat.le_log2 (Nat.ne_of_gt (by omega))).mpr hE
    omega
  · omega

/-- and the mantissa that is left fits. -/
theorem normal_div {M : ℕ} {E t : ℤ} (ht : t = max (M.log2 + E - 52) (-1074)) (hE : E ≤ t)
    (hM : M ≠ 0) : 2 ^ 52 ≤ M / 2 ^ (t - E).toNat ∨ t = -1074 := by
  by_cases hmin : t = -1074
  · exact .inr hmin
  · refine .inl ?_
    rw [Nat.le_div_iff_mul_le (by positivity), ← pow_add]
    exact (Nat.pow_le_pow_right (by decide) (by omega)).trans (Nat.log2_self_le hM)

/-- The last bit of a number of the format is not worth more than that of a rounded larger one. -/
theorem exponent_le {l M : ℕ} {f E t : ℤ} (h : Fits l f) (hle : (l : ℚ) * 2 ^ f ≤ M * 2 ^ E)
    (ht : t = max (M.log2 + E - 52) (-1074)) : f ≤ t := by
  rcases h.normal with hl | hf
  · have hl' : (2 : ℚ) ^ 52 ≤ l := by exact_mod_cast hl
    have hM' : (M : ℚ) < 2 ^ (M.log2 + 1) := by exact_mod_cast Nat.lt_log2_self
    have hpow : (2 : ℚ) ^ (52 + f) < 2 ^ (M.log2 + 1 + E) := by
      rw [zpow_add₀ two_ne_zero, zpow_add₀ two_ne_zero]
      calc (2 : ℚ) ^ (52 : ℤ) * 2 ^ f ≤ l * 2 ^ f := by gcongr; exact_mod_cast hl'
        _ ≤ M * 2 ^ E := hle
        _ < 2 ^ ((M.log2 : ℤ) + 1) * 2 ^ E := by gcongr; exact_mod_cast hM'
    have := (zpow_lt_zpow_iff_right₀ one_lt_two).mp hpow
    omega
  · omega

/-- Cutting off bits below the last bit of `l` does not go below `l`. -/
theorem le_div_of_le {l M : ℕ} {f E : ℤ} (hE : E ≤ f) (hle : (l : ℚ) * 2 ^ f ≤ M * 2 ^ E) :
    l ≤ M / 2 ^ (f - E).toNat := by
  rw [Nat.le_div_iff_mul_le (by positivity)]
  have hshift : (2 : ℚ) ^ f = 2 ^ (f - E).toNat * 2 ^ E := by
    rw [← zpow_natCast, ← zpow_add₀ two_ne_zero, Int.toNat_of_nonneg (by omega), sub_add_cancel]
  rw [hshift, ← mul_assoc] at hle
  exact_mod_cast le_of_mul_le_mul_right hle (by positivity)

/-- **Rounding does not go below a number of the format.** -/
theorem le_round {l M : ℕ} {f E : ℤ} (h : Fits l f) (hE : 2 ^ 52 ≤ M ∨ E ≤ -1074)
    (hle : (l : ℚ) * 2 ^ f ≤ M * 2 ^ E) :
    ∃ m e, ∃ hm : 0 < m, roundWithAccuracy .binary64 .positive M E .exact
      = .finite .positive m e hm ∧ Fits m e ∧ (f < e ∨ f = e ∧ l ≤ m) := by
  obtain ⟨t, ht⟩ : ∃ t : ℤ, t = max (M.log2 + E - 52) (-1074) := ⟨_, rfl⟩
  have hM : M ≠ 0 := by
    rintro rfl
    have hl : (0 : ℚ) < l := by exact_mod_cast h.pos
    have : 0 < (l : ℚ) * 2 ^ f := by positivity
    norm_num at hle
    linarith
  have hEt : E ≤ t := le_target ht hE
  have hft : f ≤ t := exponent_le h hle ht
  have hnormal := normal_div ht hEt hM
  obtain ⟨r, hr, -, hround⟩ := round_eq .positive .exact ht hEt
  have hlex : f < t ∨ f = t ∧ l ≤ r := by
    refine hft.lt_or_eq.imp_right fun heq => ⟨heq, ?_⟩
    subst heq
    exact (le_div_of_le hEt hle).trans hr
  have hr0 : r ≠ 0 := by
    have := h.pos
    have := h.le
    omega
  rw [dif_neg hr0] at hround
  by_cases hr53 : r < 2 ^ 53
  · exact ⟨r, t, Nat.pos_of_ne_zero hr0, hround.trans (if_pos hr53),
      ⟨Nat.pos_of_ne_zero hr0, hr53, by omega, hnormal.imp_left (·.trans hr)⟩, hlex⟩
  · exact ⟨2 ^ 52, t + 1, by decide, hround.trans (if_neg hr53),
      ⟨by decide, by decide, by omega, .inl le_rfl⟩, .inl (by omega)⟩

/-! ## Packing -/

theorem toNat_implicit (b : BitVec 52) : (1#1 ++ b).toNat = 2 ^ 52 + b.toNat := by
  rw [BitVec.toNat_append, ← Nat.shiftLeft_add_eq_or_of_lt b.isLt]
  rfl

theorem fits_of_unpack {x : Float.Model} {s : Sign} {m : ℕ} {e : ℤ} {hm : 0 < m}
    (h : x.unpack = .finite s m e hm) : Fits m e := by
  have hmantissa := (@unpackMantissa .binary64 x.toBits.toBitVec).isLt
  rw [Float.Model.unpack, UnpackedFloat.unpack] at h
  split_ifs at h with hinf hinf' hzero hsub
  · obtain ⟨-, rfl, rfl⟩ := UnpackedFloat.finite.inj h
    refine ⟨hm, hmantissa.trans (by decide), ?_, ?_⟩ <;> rw [hzero]
    · decide
    · exact .inr rfl
  · obtain ⟨-, rfl, rfl⟩ := UnpackedFloat.finite.inj h
    have hexponent : (@unpackExponent .binary64 x.toBits.toBitVec).toNat ≠ 0 :=
      fun h0 => hzero (BitVec.eq_of_toNat_eq h0)
    have hbias : ((Format.binary64.exponentBias : ℤ) + Format.binary64.mantissaBitsWithoutImplicit)
      = 1075 := rfl
    change _ < 2 ^ 52 at hmantissa
    rw [toNat_implicit, hbias]
    exact ⟨by omega, by omega, by omega, .inl (by omega)⟩

theorem finite_congr {s : Sign} {m m' : ℕ} {e e' : ℤ} {hm : 0 < m} {hm' : 0 < m'} (h : m = m')
    (he : e = e') : UnpackedFloat.finite s m e hm = .finite s m' e' hm' := by
  subst h he
  rfl

theorem ofNat_ne {w a b : ℕ} (ha : a < 2 ^ w) (hb : b < 2 ^ w) (h : a ≠ b) :
    BitVec.ofNat w a ≠ BitVec.ofNat w b := by
  intro heq
  have hval := congrArg BitVec.toNat heq
  rw [BitVec.toNat_ofNat, BitVec.toNat_ofNat, Nat.mod_eq_of_lt ha, Nat.mod_eq_of_lt hb] at hval
  exact h hval

/-- **Packing keeps a number of the format**, up to overflow. -/
theorem unpack_pack (s : Sign) {m : ℕ} {e : ℤ} (h : Fits m e) :
    (Float.Model.pack (.finite s m e h.pos)).unpack
      = if e ≤ 971 then .finite s m e h.pos else .infinity s := by
  obtain ⟨hm, hlt, hle, hnormal⟩ := h
  rw [Float.Model.pack, Float.Model.unpack]
  obtain ⟨b, hb⟩ : ∃ b : ℕ, (b : ℤ) = e + 1075 := ⟨(e + 1075).toNat, by omega⟩
  have hbias : (e + Format.binary64.exponentBias
      + Format.binary64.mantissaBitsWithoutImplicit).toNat = b := by
    change (e + 1023 + 52).toNat = b
    omega
  have hpack : UnpackedFloat.pack .binary64 (.finite s m e hm)
      = if 2 ^ 11 ≤ b + 1 then packedInfinity .binary64 s
        else if m.log2 + 1 = 53 then
          packComponents .binary64 s (BitVec.ofNat 11 b) (BitVec.ofNat 52 m)
        else packComponents .binary64 s 0#11 (BitVec.ofNat 52 m) := by
    rw [UnpackedFloat.pack]
    simp only [hbias]
    rfl
  simp only [hpack]
  by_cases hinf : e ≤ 971
  · rw [if_pos hinf, if_neg (show ¬2 ^ 11 ≤ b + 1 by omega)]
    by_cases hlog : m.log2 + 1 = 53
    · have hm52 : 2 ^ 52 ≤ m := (Nat.le_log2 hm.ne').mp (by omega)
      have hinf' : BitVec.ofNat 11 b ≠ -1#11 :=
        ofNat_ne (b := 2047) (by omega) (by decide) (by omega)
      have hzero : BitVec.ofNat 11 b ≠ 0#11 := ofNat_ne (by omega) (by decide) (by omega)
      simp only [if_pos hlog, UnpackedFloat.unpack, unpackMantissa_packComponents,
        unpackExponent_packComponents, unpackSign_packComponents, Sign.ofBitVec_toBitVec]
      rw [if_neg hinf', if_neg hzero]
      refine finite_congr ?_ ?_
      · rw [toNat_implicit, BitVec.toNat_ofNat]
        omega
      · rw [BitVec.toNat_ofNat, Nat.mod_eq_of_lt (by omega)]
        change (b : ℤ) - (1023 + 52) = e
        omega
    · have hm52 : m < 2 ^ 52 := by
        by_contra hge
        have := (Nat.le_log2 hm.ne').mpr (not_lt.mp hge)
        have := (Nat.log2_lt hm.ne').mpr hlt
        omega
      have he : e = -1074 := by omega
      subst he
      have hzero : BitVec.ofNat 52 m ≠ 0#52 := ofNat_ne hm52 (by decide) hm.ne'
      simp only [if_neg hlog, UnpackedFloat.unpack, unpackMantissa_packComponents,
        unpackExponent_packComponents, unpackSign_packComponents, Sign.ofBitVec_toBitVec]
      rw [if_neg (by decide), if_pos trivial, dif_neg hzero]
      exact finite_congr (Nat.mod_eq_of_lt hm52) rfl
  · rw [if_neg hinf, if_pos (show 2 ^ 11 ≤ b + 1 by omega)]
    cases s <;> rfl

/-! ## Positive numbers -/

/-- Positive, and not below the number with mantissa `l` and exponent `f`. -/
def Above (l : ℕ) (f : ℤ) (x : UnpackedFloat) : Prop :=
  x = .infinity .positive
    ∨ ∃ m e, ∃ hm : 0 < m, x = .finite .positive m e hm ∧ Fits m e ∧ (f < e ∨ f = e ∧ l ≤ m)

theorem above_pack_round {l M : ℕ} {f E : ℤ} (h : Fits l f) (hE : 2 ^ 52 ≤ M ∨ E ≤ -1074)
    (hle : (l : ℚ) * 2 ^ f ≤ M * 2 ^ E) :
    Above l f (Float.Model.pack (roundWithAccuracy .binary64 .positive M E .exact)).unpack := by
  obtain ⟨m, e, hm, hround, hfits, hlex⟩ := le_round h hE hle
  rw [hround]
  have hpack := unpack_pack .positive hfits
  split_ifs at hpack
  · exact .inr ⟨m, e, hm, hpack, hfits, hlex⟩
  · exact .inl hpack

theorem unpack_zero : (0.0 : Float).toModel.unpack = .zero .positive := rfl

/-- The positive numbers are those that are not below the smallest one. -/
theorem pos_iff {a : Float} : 0.0 < a ↔ Above 1 (-1074) a.toModel.unpack := by
  rw [lt_iff, unpack_zero]
  constructor
  · rintro ⟨-, ha, hrank⟩
    generalize hx : a.toModel.unpack = x at ha hrank
    rcases x with (_ | _) | _ | s | ⟨_ | _, m, e, hm⟩
    · exact absurd hrank (by decide)
    · exact .inl rfl
    · exact absurd rfl ha
    · exact absurd hrank (lt_irrefl _)
    · refine absurd hrank ?_
      simp [rank, Prod.Lex.lt_iff]
    · have hfits := fits_of_unpack hx
      exact .inr ⟨m, e, hm, rfl, hfits, by have := hfits.le; omega⟩
  · rintro (h | ⟨m, e, hm, h, -, -⟩) <;> rw [h] <;> refine ⟨by simp, by simp, ?_⟩ <;>
      simp [rank, Prod.Lex.lt_iff]

theorem le_of_above {a b : Float} {m : ℕ} {e : ℤ} {hm : 0 < m}
    (ha : a.toModel.unpack = .finite .positive m e hm) (hb : Above m e b.toModel.unpack) :
    a ≤ b := by
  rw [le_iff, ha]
  rcases hb with h | ⟨m', e', hm', h, -, hlex⟩ <;> rw [h] <;> refine ⟨by simp, by simp, ?_⟩ <;>
    simp [rank, Prod.Lex.le_iff]
  exact hlex

/-! ## Products and sums -/

theorem unpack_mul (a b : Float) : (a * b).toModel.unpack = (Float.Model.pack
    (UnpackedFloat.mul .binary64 a.toModel.unpack b.toModel.unpack)).unpack := rfl

theorem unpack_add (a b : Float) : (a + b).toModel.unpack = (Float.Model.pack
    (UnpackedFloat.add .binary64 a.toModel.unpack b.toModel.unpack)).unpack := rfl

theorem unpack_pack_infinity :
    (Float.Model.pack (.infinity .positive)).unpack = .infinity .positive := rfl

theorem unpack_one :
    (1.0 : Float).toModel.unpack = .finite .positive (2 ^ 52) (-52) (by decide) := rfl

theorem unpack_half :
    (0.5 : Float).toModel.unpack = .finite .positive (2 ^ 52) (-53) (by decide) := rfl

/-- What is not below one is above it. -/
theorem above_of_one_le {c : Float} (h : 1.0 ≤ c) : Above (2 ^ 52) (-52) c.toModel.unpack := by
  obtain ⟨-, hc, hrank⟩ := le_iff.mp h
  rw [unpack_one] at hrank
  generalize hx : c.toModel.unpack = x at hc hrank
  rcases x with (_ | _) | _ | s | ⟨_ | _, m, e, hm⟩
  · exact absurd hrank (by simp [rank, Prod.Lex.le_iff])
  · exact .inl rfl
  · exact absurd rfl hc
  · exact absurd hrank (by simp [rank, Prod.Lex.le_iff])
  · exact absurd hrank (by simp [rank, Prod.Lex.le_iff])
  · refine .inr ⟨m, e, hm, rfl, fits_of_unpack hx, ?_⟩
    simp [rank, Prod.Lex.le_iff] at hrank
    omega

theorem zero_lt_one : (0.0 : Float) < 1.0 := by
  rw [lt_iff, unpack_zero, unpack_one]
  exact ⟨by simp, by simp, by simp [rank, Prod.Lex.lt_iff]⟩

/-- What is between one and a finite number is finite. -/
theorem isFinite_of_le {a b : Float} (ha : 1.0 ≤ a) (hab : a ≤ b) (hb : b.isFinite = true) :
    a.isFinite = true := by
  change a.toModel.unpack.isFinite = true
  change b.toModel.unpack.isFinite = true at hb
  obtain ⟨-, -, hrank⟩ := le_iff.mp hab
  rcases above_of_one_le ha with ha | ⟨m, e, hm, ha, -, -⟩
  · rw [ha] at hrank
    rcases hx : b.toModel.unpack with s | _ | s | ⟨s, m, e, hm⟩ <;> rw [hx] at hb hrank
    · exact nomatch hb
    · exact nomatch hb
    · exact absurd hrank (by simp [rank, Prod.Lex.le_iff])
    · cases s <;> exact absurd hrank (by simp [rank, Prod.Lex.le_iff])
  · rw [ha]
    rfl

/-- **A factor of one or more does not make a positive number smaller.** -/
theorem le_mul_of_one_le {a c : Float} (ha : 0.0 < a) (hc : 1.0 ≤ c) : a ≤ a * c := by
  rcases pos_iff.mp ha with ha | ⟨m, e, hm, ha, hfits, -⟩
  · have hmul : (a * c).toModel.unpack = .infinity .positive := by
      rw [unpack_mul, ha]
      rcases above_of_one_le hc with hc | ⟨m', e', hm', hc, -⟩ <;> rw [hc] <;>
        exact unpack_pack_infinity
    rw [le_iff, ha, hmul]
    exact ⟨by simp, by simp, le_rfl⟩
  · refine le_of_above ha ?_
    rw [unpack_mul, ha]
    rcases above_of_one_le hc with hc | ⟨m', e', hm', hc, hfits', hlex⟩
    · rw [hc]
      exact .inl unpack_pack_infinity
    · rw [hc]
      have hnormal : 2 ^ 52 ≤ m' := by
        have := hfits'.normal
        omega
      refine above_pack_round hfits (.inl (hnormal.trans (Nat.le_mul_of_pos_left _ hm))) ?_
      have hone : (1 : ℚ) ≤ m' * 2 ^ e' := by
        calc (1 : ℚ) = 2 ^ 52 * 2 ^ (-52 : ℤ) := by norm_num
          _ ≤ m' * 2 ^ e' := by
            gcongr
            · exact_mod_cast hnormal
            · exact one_le_two
            · omega
      calc (m : ℚ) * 2 ^ e ≤ m * 2 ^ e * (m' * 2 ^ e') :=
            le_mul_of_one_le_right (by positivity) hone
        _ = ((m * m' : ℕ) : ℚ) * 2 ^ (e + e') := by
          rw [zpow_add₀ two_ne_zero]
          push_cast
          ring

/-- Two finite summands are brought to the smaller exponent, and their sum is rounded. -/
theorem add_finite {m m' : ℕ} {e e' : ℤ} (hm : 0 < m) (hm' : 0 < m') :
    UnpackedFloat.add .binary64 (.finite .positive m e hm) (.finite .positive m' e' hm')
      = UnpackedFloat.round .binary64 .positive
          (m <<< (e - min e e').toNat + m' <<< (e' - min e e').toNat) (min e e') := by
  have hpos : 0 < m <<< (e - min e e').toNat := by
    rw [Nat.shiftLeft_eq]
    positivity
  have hsum : compare ((m <<< (e - min e e').toNat : ℕ) + (m' <<< (e' - min e e').toNat : ℕ) : ℤ) 0
      = .gt := by
    rw [compare_gt_iff_gt]
    exact_mod_cast Nat.add_pos_left hpos _
  rw [UnpackedFloat.add]
  simp only [decreaseExponent, Sign.apply, UnpackedFloat.normalize, hsum]
  rfl

/-- Rounding takes as many bits in front as the format needs. -/
theorem exists_round_eq (s : Sign) {M : ℕ} (E : ℤ) (hM : 0 < M) :
    ∃ k : ℕ, UnpackedFloat.round .binary64 s M E
        = roundWithAccuracy .binary64 s (M * 2 ^ k) (E - k) .exact
      ∧ (2 ^ 52 ≤ M * 2 ^ k ∨ E - k ≤ -1074) := by
  obtain ⟨k, hk⟩ : ∃ k, k = (E - Format.binary64.targetExponent (totalExponent M E)).toNat :=
    ⟨_, rfl⟩
  refine ⟨k, by rw [UnpackedFloat.round, decreaseExponent, ← hk, Nat.shiftLeft_eq], ?_⟩
  rw [targetExponent_eq] at hk
  by_cases hE : E - k ≤ -1074
  · exact .inr hE
  · refine .inl ?_
    calc 2 ^ 52 ≤ 2 ^ (M.log2 + k) := Nat.pow_le_pow_right (by decide) (by omega)
      _ = 2 ^ M.log2 * 2 ^ k := pow_add ..
      _ ≤ M * 2 ^ k := Nat.mul_le_mul_right _ (Nat.log2_self_le hM.ne')

/-- Bits in front do not change the value. -/
theorem value_shift (M k : ℕ) (E : ℤ) : ((M * 2 ^ k : ℕ) : ℚ) * 2 ^ (E - k) = M * 2 ^ E := by
  push_cast
  rw [mul_assoc, ← zpow_natCast, ← zpow_add₀ two_ne_zero, add_sub_cancel]

theorem above_round {l M : ℕ} {f E : ℤ} (h : Fits l f) (hle : (l : ℚ) * 2 ^ f ≤ M * 2 ^ E)
    (hM : 0 < M) :
    Above l f (Float.Model.pack (UnpackedFloat.round .binary64 .positive M E)).unpack := by
  obtain ⟨k, hround, hk⟩ := exists_round_eq .positive E hM
  rw [hround]
  exact above_pack_round h hk ((value_shift M k E).symm ▸ hle)

/-- The sum of two positive numbers is at least two steps above zero. -/
theorem above_add {a b : Float} (ha : 0.0 < a) (hb : 0.0 < b) :
    Above 2 (-1074) (a + b).toModel.unpack := by
  rw [unpack_add]
  rcases pos_iff.mp ha with ha | ⟨m, e, hm, ha, hfits, -⟩ <;>
    rcases pos_iff.mp hb with hb | ⟨m', e', hm', hb, hfits', -⟩ <;> rw [ha, hb]
  · exact .inl unpack_pack_infinity
  · exact .inl unpack_pack_infinity
  · exact .inl unpack_pack_infinity
  · have hshift (x k : ℕ) (hx : 0 < x) : 1 ≤ x <<< k := by
      rw [Nat.shiftLeft_eq]
      exact Nat.mul_pos hx (by positivity)
    have h := hshift m (e - min e e').toNat hm
    have h' := hshift m' (e' - min e e').toNat hm'
    rw [add_finite]
    refine above_round ⟨two_pos, by decide, le_rfl, .inr rfl⟩ ?_ (Nat.add_pos_left h _)
    gcongr
    · exact_mod_cast Nat.add_le_add h h'
    · exact one_le_two
    · exact le_min hfits.le hfits'.le

theorem zero_lt_add {a b : Float} (ha : 0.0 < a) (hb : 0.0 < b) : 0.0 < a + b := by
  rw [pos_iff]
  refine (above_add ha hb).imp_right ?_
  rintro ⟨m, e, hm, hab, hfits, hlex⟩
  exact ⟨m, e, hm, hab, hfits, by omega⟩

/-- **The middle of two positive numbers is positive.** -/
theorem half_add_pos {a b : Float} (ha : 0.0 < a) (hb : 0.0 < b) : 0.0 < 0.5 * (a + b) := by
  rw [pos_iff, unpack_mul, unpack_half]
  rcases above_add ha hb with hab | ⟨m, e, hm, hab, hfits, hlex⟩ <;> rw [hab]
  · exact .inl unpack_pack_infinity
  · refine above_pack_round ⟨one_pos, by decide, le_rfl, .inr rfl⟩
      (.inl (Nat.le_mul_of_pos_right _ hm)) ?_
    have hle : (2 : ℚ) * 2 ^ (-1074 : ℤ) ≤ m * 2 ^ e := by
      rcases hlex with hlt | ⟨rfl, hle⟩
      · have hm1 : (1 : ℚ) ≤ m := by exact_mod_cast hm
        calc (2 : ℚ) * 2 ^ (-1074 : ℤ) = 2 ^ (1 + -1074 : ℤ) := (zpow_one_add₀ two_ne_zero _).symm
          _ ≤ 2 ^ e := zpow_le_zpow_right₀ one_le_two (by omega)
          _ ≤ m * 2 ^ e := le_mul_of_one_le_left (by positivity) hm1
      · gcongr
        exact_mod_cast hle
    have hvalue : ((2 ^ 52 * m : ℕ) : ℚ) * 2 ^ (-53 + e) = m * 2 ^ e / 2 := by
      rw [zpow_add₀ two_ne_zero]
      push_cast
      norm_num
      ring
    rw [hvalue, Nat.cast_one, one_mul, le_div_iff₀ two_pos, mul_comm]
    exact hle

theorem eq_of_unpack_eq {a b : Float} (h : a.toModel.unpack = b.toModel.unpack) : a = b := by
  have hbits := (unpack_inj_of_valid a.toModel.valid b.toModel.valid (by decide)).mp h
  exact Float.toBits_inj.mp (UInt64.toBitVec_inj.mp hbits)

/-- Positive numbers are equal that are not below each other. -/
theorem eq_of_le_of_le {a b : Float} (ha : 0.0 < a) (hab : a ≤ b) (hba : b ≤ a) : a = b := by
  have hrank : rank a.toModel.unpack = rank b.toModel.unpack :=
    le_antisymm (le_iff.mp hab).2.2 (le_iff.mp hba).2.2
  have hb : 0.0 < b := by
    rw [lt_iff] at ha ⊢
    exact ⟨ha.1, (le_iff.mp hab).2.1, hrank ▸ ha.2.2⟩
  refine eq_of_unpack_eq ?_
  rcases pos_iff.mp ha with h | ⟨m, e, hm, h, -, -⟩ <;>
    rcases pos_iff.mp hb with h' | ⟨m', e', hm', h', -, -⟩ <;>
    rw [h, h'] at hrank ⊢ <;> simp [rank] at hrank
  obtain ⟨rfl, rfl⟩ := hrank
  rfl

/-! ## The instance -/

theorem unpack_ne_of_isFinite {a : Float} (h : a.isFinite = true) :
    a.toModel.unpack ≠ .notANumber := by
  intro ha
  change a.toModel.unpack.isFinite = true at h
  rw [ha] at h
  cases h

/-- The values that are `≤` themselves are the numbers. -/
theorem le_self_iff {a : Float} : a ≤ a ↔ a.toModel.unpack ≠ .notANumber := by
  rw [le_iff]
  exact ⟨fun h => h.1, fun h => ⟨h, h, le_rfl⟩⟩

theorem beq_self_iff {a : Float} : (a == a) = true ↔ a ≤ a := by
  change a.toModel.unpack.beq a.toModel.unpack = true ↔ a ≤ a
  rw [le_self_iff, UnpackedFloat.beq, beq_iff_eq, compare_eq_some]
  exact ⟨fun h => h.1, fun h => ⟨h, h, compare_eq_iff_eq.mpr rfl⟩⟩

end JerkLimit.Double

namespace JerkLimit

open Double

/-- **Double precision numbers are ordered scalars.** -/
instance : OrderedScalar Float where
  le_trans hab hbc := by
    rw [le_iff] at hab hbc ⊢
    exact ⟨hab.1, hbc.2.1, hab.2.2.trans hbc.2.2⟩
  number_of_le h := ⟨le_self_iff.mpr (le_iff.mp h).1, le_self_iff.mpr (le_iff.mp h).2.1⟩
  le_total ha hb := by
    rw [le_self_iff] at ha hb
    rw [le_iff, le_iff]
    exact (le_total _ _).imp (⟨ha, hb, ·⟩) (⟨hb, ha, ·⟩)
  lt_iff := by
    intro a b
    rw [Double.lt_iff, le_iff, le_iff, lt_iff_le_not_ge]
    tauto
  beq_self_iff := beq_self_iff
  number_of_isFinite h := le_self_iff.mpr (unpack_ne_of_isFinite h)
  eq_of_le_of_le := eq_of_le_of_le
  le_mul_of_one_le := le_mul_of_one_le
  half_add_pos := half_add_pos
  minDuration_pos := by decide
  one_le_scanGrowth := by decide
  one_le_add_finishSlack := by decide

end JerkLimit
