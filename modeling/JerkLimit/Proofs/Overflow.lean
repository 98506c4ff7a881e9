import Mathlib
import JerkLimit.Proofs.Double

/-!
# Proofs/Overflow — doubles that stay finite

Rounding does not go above a number of the format that is larger than the exact value
(`below_round`), so it does not overflow where there is such a number. Two operations of the
low-pass filter are of this kind, whatever its coefficient `c` is: `1 - c` has no larger size than
`c` (`below_one_sub`), and `1 / (1 + c)` is hardly more than a half (`below_recip`).
-/

namespace JerkLimit.Double

open Float.Model Float.Model.UnpackedFloat

/-! ## Upper bounds for rounding -/

/-- A number of sign `s`, zero or finite, whose size is not above mantissa `u` and exponent `f`. -/
def Below (s : Sign) (u : ℕ) (f : ℤ) (x : UnpackedFloat) : Prop :=
  x = .zero s
    ∨ ∃ m e, ∃ hm : 0 < m, x = .finite s m e hm ∧ Fits m e ∧ (e < f ∨ e = f ∧ m ≤ u)

/-- The last bit that a rounding keeps is not worth more than that of a larger number of the
format. -/
theorem target_le {u M : ℕ} {f E t : ℤ} (h : Fits u f) (hM : M ≠ 0)
    (hlt : (M : ℚ) * 2 ^ E < u * 2 ^ f) (ht : t = max (M.log2 + E - 52) (-1074)) : t ≤ f := by
  have hM' : (2 : ℚ) ^ M.log2 ≤ M := by exact_mod_cast Nat.log2_self_le hM
  have hu : (u : ℚ) < 2 ^ 53 := by exact_mod_cast h.lt
  have hpow : (2 : ℚ) ^ (M.log2 + E) < 2 ^ (53 + f) := by
    rw [zpow_add₀ two_ne_zero, zpow_add₀ two_ne_zero]
    calc (2 : ℚ) ^ (M.log2 : ℤ) * 2 ^ E ≤ M * 2 ^ E := by gcongr; exact_mod_cast hM'
      _ < u * 2 ^ f := hlt
      _ ≤ 2 ^ (53 : ℤ) * 2 ^ f := by gcongr; exact_mod_cast hu.le
  have := (zpow_lt_zpow_iff_right₀ one_lt_two).mp hpow
  have := h.le
  omega

/-- Cutting off bits below the last bit of `u` stays below `u`. -/
theorem div_lt_of_lt {u M : ℕ} {f E : ℤ} (hE : E ≤ f) (hlt : (M : ℚ) * 2 ^ E < u * 2 ^ f) :
    M / 2 ^ (f - E).toNat < u := by
  rw [Nat.div_lt_iff_lt_mul (by positivity)]
  have hshift : (2 : ℚ) ^ f = 2 ^ (f - E).toNat * 2 ^ E := by
    rw [← zpow_natCast, ← zpow_add₀ two_ne_zero, Int.toNat_of_nonneg (by omega), sub_add_cancel]
  rw [hshift, ← mul_assoc] at hlt
  exact_mod_cast lt_of_mul_lt_mul_right hlt (by positivity)

/-- **Rounding does not go above a number of the format** that is larger. -/
theorem below_round (s : Sign) (accuracy : Accuracy) {u M : ℕ} {f E : ℤ} (h : Fits u f) (hM : M ≠ 0)
    (hE : 2 ^ 52 ≤ M ∨ E ≤ -1074) (hlt : (M : ℚ) * 2 ^ E < u * 2 ^ f) :
    Below s u f (roundWithAccuracy .binary64 s M E accuracy) := by
  obtain ⟨t, ht⟩ : ∃ t : ℤ, t = max (M.log2 + E - 52) (-1074) := ⟨_, rfl⟩
  have hEt : E ≤ t := le_target ht hE
  have htf : t ≤ f := target_le h hM hlt ht
  have hnormal := normal_div ht hEt hM
  obtain ⟨r, hr, hr', hround⟩ := round_eq s accuracy ht hEt
  have hru : t = f → r ≤ u := by
    rintro rfl
    exact hr'.trans (div_lt_of_lt hEt hlt)
  have hu := h.lt
  have hufit := h.normal
  by_cases hr0 : r = 0
  · exact .inl (hround.trans (dif_pos hr0))
  rw [dif_neg hr0] at hround
  by_cases hr53 : r < 2 ^ 53
  · exact .inr ⟨r, t, Nat.pos_of_ne_zero hr0, hround.trans (if_pos hr53),
      ⟨Nat.pos_of_ne_zero hr0, hr53, by omega, by omega⟩,
      htf.lt_or_eq.imp_right fun heq => ⟨heq, hru heq⟩⟩
  · exact .inr ⟨2 ^ 52, t + 1, by decide, hround.trans (if_neg hr53),
      ⟨by decide, by decide, by omega, .inl le_rfl⟩, by omega⟩

/-- The order of mantissa and exponent is the order of sizes. -/
theorem value_le {u m : ℕ} {f e : ℤ} (h : Fits m e) (hu : 2 ^ 52 ≤ u)
    (hlex : e < f ∨ e = f ∧ m ≤ u) : (m : ℚ) * 2 ^ e ≤ u * 2 ^ f := by
  rcases hlex with hlt | ⟨rfl, hle⟩
  · have hm : (m : ℚ) ≤ 2 ^ 53 := by exact_mod_cast h.lt.le
    have hu' : (2 : ℚ) ^ 52 ≤ u := by exact_mod_cast hu
    calc (m : ℚ) * 2 ^ e ≤ 2 ^ 53 * 2 ^ (f - 1) := by
          gcongr
          · exact one_le_two
          · omega
      _ = 2 ^ 52 * 2 ^ f := by
        rw [zpow_sub_one₀ two_ne_zero]
        ring
      _ ≤ u * 2 ^ f := by gcongr
  · gcongr

theorem Below.unpack_pack {s : Sign} {u : ℕ} {f : ℤ} {x : UnpackedFloat} (h : Below s u f x)
    (hf : f ≤ 971) : (Float.Model.pack x).unpack = x := by
  rcases h with rfl | ⟨m, e, hm, rfl, hfits, hlex⟩
  · cases s <;> rfl
  · exact (Double.unpack_pack s hfits).trans (if_pos (by omega))

theorem below_pack_round (s : Sign) {u M : ℕ} {f : ℤ} (E : ℤ) (h : Fits u f) (hf : f ≤ 971)
    (hM : 0 < M) (hlt : (M : ℚ) * 2 ^ E < u * 2 ^ f) :
    Below s u f (Float.Model.pack (UnpackedFloat.round .binary64 s M E)).unpack := by
  obtain ⟨k, hround, hk⟩ := exists_round_eq s E hM
  have hbelow := below_round s .exact h (by positivity) hk ((value_shift M k E).symm ▸ hlt)
  rw [hround, hbelow.unpack_pack hf]
  exact hbelow

/-- The exponents of finite numbers end where those of the format do. -/
theorem exponent_le_of_unpack {x : Float.Model} {s : Sign} {m : ℕ} {e : ℤ} {hm : 0 < m}
    (h : x.unpack = .finite s m e hm) : e ≤ 971 := by
  rw [Float.Model.unpack, UnpackedFloat.unpack] at h
  split_ifs at h with hinf hinf' hzero hsub
  · obtain ⟨-, -, rfl⟩ := UnpackedFloat.finite.inj h
    rw [hzero]
    decide
  · obtain ⟨-, -, rfl⟩ := UnpackedFloat.finite.inj h
    have hexponent := (@unpackExponent .binary64 x.toBits.toBitVec).isLt
    have hne : (@unpackExponent .binary64 x.toBits.toBitVec).toNat ≠ 2047 :=
      fun h0 => hinf (BitVec.eq_of_toNat_eq h0)
    have hbias : ((Format.binary64.exponentBias : ℤ) + Format.binary64.mantissaBitsWithoutImplicit)
      = 1075 := rfl
    change _ < 2048 at hexponent
    rw [hbias]
    omega

/-! ## The numbers of a low-pass filter -/

theorem unpack_sub (a b : Float) : (a - b).toModel.unpack = (Float.Model.pack
    (UnpackedFloat.sub .binary64 a.toModel.unpack b.toModel.unpack)).unpack := rfl

theorem unpack_div (a b : Float) : (a / b).toModel.unpack = (Float.Model.pack
    (UnpackedFloat.div .binary64 a.toModel.unpack b.toModel.unpack)).unpack := rfl

/-- The mantissa and the exponent of a finite number from one on; those of one are `2 ^ 52` and
`-52`. -/
theorem exists_unpack_of_one_le {c : Float} (hc : c.isFinite = true) (h1 : 1.0 ≤ c) :
    ∃ m, ∃ k : ℕ, ∃ hm : 0 < m, c.toModel.unpack = .finite .positive m (k - 52) hm
      ∧ Fits m (k - 52) ∧ 2 ^ 52 ≤ m ∧ (k : ℤ) - 52 ≤ 971 := by
  change c.toModel.unpack.isFinite = true at hc
  rcases above_of_one_le h1 with h | ⟨m, e, hm, h, hfits, hlex⟩
  · rw [h] at hc
    exact nomatch hc
  · have hnormal := hfits.normal
    obtain ⟨k, rfl⟩ : ∃ k : ℕ, e = k - 52 := ⟨(e + 52).toNat, by omega⟩
    exact ⟨m, k, hm, h, hfits, by omega, exponent_le_of_unpack h⟩

/-- Such a number is brought to the exponent of one. -/
theorem shift_to_one (k : ℕ) :
    min (-52) ((k : ℤ) - 52) = -52 ∧ ((k : ℤ) - 52 - -52).toNat = k := by omega

/-- What is between a coefficient and one is zero or finite. -/
theorem below_one_sub {c : Float} (hc : c.isFinite = true) (h1 : 1.0 ≤ c) :
    ∃ s u f, Below s u f (1.0 - c).toModel.unpack := by
  obtain ⟨m, k, hm, hunpack, hfits, hm52, he⟩ := exists_unpack_of_one_le hc h1
  obtain ⟨hmin, hshift⟩ := shift_to_one k
  obtain ⟨d, hd⟩ : ∃ d, 2 ^ 52 + d = m * 2 ^ k :=
    Nat.exists_eq_add_of_le (hm52.trans (Nat.le_mul_of_pos_right _ (by positivity))) |>.imp
      fun _ h => h.symm
  have hdiff : ((2 ^ 52 : ℕ) : ℤ) - (m * 2 ^ k : ℕ) = -d := by
    rw [← hd]
    push_cast
    ring
  have hsub : UnpackedFloat.sub .binary64 (.finite .positive (2 ^ 52) (-52) (by decide))
      (.finite .positive m (k - 52) hm) = normalize .binary64 (-d) (-52) .positive := by
    simp only [UnpackedFloat.sub, decreaseExponent, Sign.apply, hmin, hshift, Nat.shiftLeft_eq]
    rw [← hdiff]
    rfl
  rw [unpack_sub, unpack_one, hunpack, hsub, UnpackedFloat.normalize]
  rcases Nat.eq_zero_or_pos d with rfl | hpos
  · exact ⟨.positive, 0, 0, .inl rfl⟩
  · have hneg : compare (-d : ℤ) 0 = .lt := compare_lt_iff_lt.mpr (by omega)
    rw [hneg, neg_neg]
    refine ⟨.negative, m, k - 52, below_pack_round .negative _ hfits he hpos ?_⟩
    have hd' : (d : ℚ) < m * 2 ^ k := by
      exact_mod_cast (show d < m * 2 ^ k by omega)
    calc (d : ℚ) * 2 ^ (-52 : ℤ) < m * 2 ^ k * 2 ^ (-52 : ℤ) := by gcongr
      _ = m * 2 ^ ((k : ℤ) - 52) := by
        rw [mul_assoc, ← zpow_natCast, ← zpow_add₀ two_ne_zero, sub_eq_add_neg]

theorem above_one_add {c : Float} (hc : c.isFinite = true) (h1 : 1.0 ≤ c) :
    Above (2 ^ 52) (-51) (1.0 + c).toModel.unpack := by
  obtain ⟨m, k, hm, hunpack, hfits, hm52, he⟩ := exists_unpack_of_one_le hc h1
  obtain ⟨hmin, hshift⟩ := shift_to_one k
  have hm52' : 2 ^ 52 ≤ m * 2 ^ k := hm52.trans (Nat.le_mul_of_pos_right _ (by positivity))
  rw [unpack_add, unpack_one, hunpack, add_finite, hmin, hshift, Nat.shiftLeft_eq, Nat.shiftLeft_eq]
  refine above_round ⟨by decide, by decide, by decide, .inl le_rfl⟩ ?_
    (Nat.add_pos_left (by decide) _)
  calc ((2 ^ 52 : ℕ) : ℚ) * 2 ^ (-51 : ℤ)
      = ((2 ^ 52 + 2 ^ 52 : ℕ) : ℚ) * 2 ^ (-52 : ℤ) := by norm_num
    _ ≤ _ := by
      gcongr
      exact Nat.le_mul_of_pos_right _ (by positivity)

/-- The quotient of one and a number from two on, before it is rounded. -/
theorem divCore_one {m : ℕ} {e : ℤ} (hfits : Fits m e) (hm : 2 ^ 52 ≤ m) (he : -51 ≤ e)
    (he' : e ≤ 971) : ∃ (k : ℕ) (E : ℤ), k + e + E = -52
      ∧ divCore .binary64 (2 ^ 52) (-52) m e
        = (2 ^ 52 * 2 ^ k / m, E, accuracyOfFraction (2 ^ 52 * 2 ^ k % m) m)
      ∧ (k = 53 ∨ E = -1074 ∧ 51 ≤ k) := by
  have hlog : m.log2 = 52 := (Nat.log2_eq_iff (by omega)).mpr ⟨hm, hfits.lt⟩
  have htarget : Format.binary64.targetExponent (totalExponent (2 ^ 52) (-52) - totalExponent m e)
      = max (-105 - e) (-1074) := by
    rw [totalExponent, totalExponent, hlog, Nat.log2_two_pow]
    change max (((52 : ℕ) : ℤ) + 1 + -52 - (((52 : ℕ) : ℤ) + 1 + e) - 53) (3 - 2 ^ 10 - 53) = _
    norm_num
    ring_nf
  have hmin : min (-52 - e) (max (-105 - e) (-1074)) = max (-105 - e) (-1074) := by omega
  refine ⟨(-52 - e - max (-105 - e) (-1074)).toNat, max (-105 - e) (-1074), by omega, ?_, by omega⟩
  simp only [divCore, htarget, hmin, Nat.shiftLeft_eq]

/-- The gain of a filter is about a half at most. -/
theorem below_recip {c : Float} (hc : c.isFinite = true) (h1 : 1.0 ≤ c) :
    Below .positive (2 ^ 52 + 1) (-53) (1.0 / (1.0 + c)).toModel.unpack := by
  rw [unpack_div, unpack_one]
  rcases above_one_add hc h1 with hsum | ⟨m, e, hm, hsum, hfits, hlex⟩
  · rw [hsum]
    exact .inl rfl
  · have hnormal := hfits.normal
    have hm52 : 2 ^ 52 ≤ m := by omega
    obtain ⟨k, E, hE, hdiv, hk⟩ :=
      divCore_one hfits hm52 (by omega) (exponent_le_of_unpack hsum)
    have hquotient : UnpackedFloat.div .binary64 (.finite .positive (2 ^ 52) (-52) (by decide))
        (.finite .positive m e hm) = roundWithAccuracy .binary64 .positive (2 ^ 52 * 2 ^ k / m) E
          (accuracyOfFraction (2 ^ 52 * 2 ^ k % m) m) := by
      simp only [UnpackedFloat.div, hdiv]
      rfl
    have hM : 2 ^ (k - 1) ≤ 2 ^ 52 * 2 ^ k / m := by
      rw [Nat.le_div_iff_mul_le hm]
      calc 2 ^ (k - 1) * m ≤ 2 ^ (k - 1) * 2 ^ 53 := Nat.mul_le_mul_left _ hfits.lt.le
        _ = 2 ^ 52 * 2 ^ k := by rw [← pow_add, ← pow_add, show k - 1 + 53 = 52 + k by omega]
    have hM' : 2 ^ 52 * 2 ^ k / m ≤ 2 ^ k := Nat.div_le_of_le_mul (Nat.mul_le_mul_right _ hm52)
    have hbelow : Below .positive (2 ^ 52 + 1) (-53) (roundWithAccuracy .binary64 .positive
        (2 ^ 52 * 2 ^ k / m) E (accuracyOfFraction (2 ^ 52 * 2 ^ k % m) m)) := by
      refine below_round _ _ ⟨by decide, by decide, by decide, .inl (by decide)⟩
        (Nat.two_pow_pos _ |>.trans_le hM).ne' ?_ ?_
      · exact hk.imp (fun hk => by simpa [hk] using hM) fun hk => hk.1.le
      · calc ((2 ^ 52 * 2 ^ k / m : ℕ) : ℚ) * 2 ^ E ≤ 2 ^ k * 2 ^ E := by
              gcongr
              exact_mod_cast hM'
          _ = 2 ^ (-52 - e) := by
              rw [← zpow_natCast, ← zpow_add₀ two_ne_zero, show (k : ℤ) + E = -52 - e by omega]
          _ ≤ 2 ^ (-1 : ℤ) := zpow_le_zpow_right₀ one_le_two (by omega)
          _ < ((2 ^ 52 + 1 : ℕ) : ℚ) * 2 ^ (-53 : ℤ) := by norm_num
    rw [hsum, hquotient, hbelow.unpack_pack (by decide)]
    exact hbelow

theorem rank_le (x : UnpackedFloat) : rank x ≤ rank (.infinity .positive) := by
  rcases x with (_ | _) | _ | s | ⟨_ | _, m, e, hm⟩ <;> simp [rank, Prod.Lex.le_iff]

/-- Nothing is above infinity. -/
theorem not_lt_of_infinity_le {a b : Float} (h : 1.0 / 0.0 ≤ a) : ¬a < b := fun hab =>
  ((le_iff.mp h).2.2.trans_lt (lt_iff.mp hab).2.2).not_ge (rank_le _)

/-- From one on, what something is above is finite. -/
theorem isFinite_of_lt {a b : Float} (ha : 1.0 ≤ a) (hab : a < b) : a.isFinite = true := by
  change a.toModel.unpack.isFinite = true
  rcases above_of_one_le ha with h | ⟨m, e, hm, h, -, -⟩
  · exact absurd (h ▸ (lt_iff.mp hab).2.2) (rank_le _).not_gt
  · rw [h]
    rfl

theorem unpack_infinity : (1.0 / 0.0 : Float).toModel.unpack = .infinity .positive := rfl

theorem lt_infinity {a : Float} (ha : a.isFinite = true) (h1 : 1.0 ≤ a) : a < 1.0 / 0.0 := by
  obtain ⟨m, k, hm, h, -⟩ := exists_unpack_of_one_le ha h1
  rw [lt_iff, h, unpack_infinity]
  exact ⟨by simp, by simp, by simp [rank, Prod.Lex.lt_iff]⟩

/-- From one on, only infinity is not finite. -/
theorem isFinite_of_ne {a : Float} (ha : 1.0 ≤ a) (hne : a ≠ 1.0 / 0.0) : a.isFinite = true := by
  change a.toModel.unpack.isFinite = true
  rcases above_of_one_le ha with h | ⟨m, e, hm, h, -, -⟩
  · exact absurd (eq_of_unpack_eq (h.trans unpack_infinity.symm)) hne
  · rw [h]
    rfl

/-! ## One step of the filter -/

/-- What a filter that has been at zero answers to its next input. -/
def firstOutput (c x : Float) : Float := 1.0 / (1.0 + c) * (x + 0.0 - (1.0 - c) * 0.0)

theorem unpack_pack_zero (s : Sign) : (Float.Model.pack (.zero s)).unpack = .zero s := by
  cases s <;> rfl

/-- Zero times something that is no larger than some number is zero. -/
theorem Below.mul_zero {s s' : Sign} {u : ℕ} {f : ℤ} {x : UnpackedFloat} (h : Below s u f x) :
    (Float.Model.pack (UnpackedFloat.mul .binary64 x (.zero s'))).unpack = .zero (s * s') := by
  obtain rfl | ⟨m, e, hm, rfl, -, -⟩ := h <;> rw [UnpackedFloat.mul, unpack_pack_zero]

theorem unpack_feedback {c : Float} (hc : c.isFinite = true) (h1 : 1.0 ≤ c) :
    ∃ s, ((1.0 - c) * 0.0).toModel.unpack = .zero s := by
  obtain ⟨s, u, f, hbelow⟩ := below_one_sub hc h1
  exact ⟨_, by rw [unpack_mul, unpack_zero, hbelow.mul_zero]⟩

theorem firstOutput_zero {c : Float} (hc : c.isFinite = true) (h1 : 1.0 ≤ c) :
    (firstOutput c 0.0).toModel.unpack = .zero .positive := by
  obtain ⟨s, hs⟩ := unpack_feedback hc h1
  have hinput : (0.0 + 0.0 - (1.0 - c) * 0.0 : Float).toModel.unpack = .zero .positive := by
    rw [unpack_sub, hs]
    cases s <;> rfl
  rw [firstOutput, unpack_mul, hinput, (below_recip hc h1).mul_zero]
  rfl

/-- Zero has a distance of zero from zero. -/
theorem lt_abs_of_neg {a x : Float} (ha : a < 0.0) (hx : x.toModel.unpack = .zero .positive) :
    a < (x - 0.0).abs := by
  have hzero : (x - 0.0).abs.toModel.unpack = .zero .positive := by
    change (Float.Model.pack (UnpackedFloat.abs (x - 0.0).toModel.unpack)).unpack = _
    rw [unpack_sub, hx]
    rfl
  rw [lt_iff, hzero]
  exact lt_iff.mp ha

/-- A step is not taken at once. -/
theorem firstOutput_one {c : Float} (hc : c.isFinite = true) (h1 : 1.0 ≤ c) :
    firstOutput c 1.0 ≠ 1.0 := by
  obtain ⟨s, hs⟩ := unpack_feedback hc h1
  have hinput : (1.0 + 0.0 - (1.0 - c) * 0.0 : Float).toModel.unpack
      = .finite .positive (2 ^ 52) (-52) (by decide) := by
    rw [unpack_sub, hs]
    cases s <;> rfl
  have hbelow : Below .positive (2 ^ 53 - 1) (-53) (firstOutput c 1.0).toModel.unpack := by
    rw [firstOutput, unpack_mul, hinput]
    obtain h | ⟨m, e, hm, h, hfits, hlex⟩ := below_recip hc h1 <;> rw [h]
    · exact .inl rfl
    · have hproduct : Below .positive (2 ^ 53 - 1) (-53) (roundWithAccuracy .binary64 .positive
          (m * 2 ^ 52) (e + -52) .exact) := by
        refine below_round _ _ ⟨by decide, by decide, by decide, .inl (by decide)⟩ (by positivity)
          (.inl (Nat.le_mul_of_pos_left _ hm)) ?_
        have hshift : ((m * 2 ^ 52 : ℕ) : ℚ) * 2 ^ (e + -52) = m * 2 ^ e := value_shift m 52 e
        rw [hshift]
        have hle := value_le hfits (by decide) hlex
        refine hle.trans_lt ?_
        norm_num
      exact hproduct.unpack_pack (by decide) ▸ hproduct
  intro h
  rw [h, unpack_one] at hbelow
  obtain h | ⟨m, e, hm, h, -, hlex⟩ := hbelow
  · exact nomatch h
  · obtain ⟨-, -, rfl⟩ := UnpackedFloat.finite.inj h
    omega

end JerkLimit.Double
