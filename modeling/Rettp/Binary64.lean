import Mathlib

/-!
# Doubles as rationals

The rational that a double denotes (`Binary64.exact`), over the model that the language gives of
its doubles. A finite double is stored in canonical form: with a full mantissa, or with the least
exponent. That form is determined by the rational, so two finite doubles are equal exactly when
they denote the same one (`beq_iff_exact`). Integers that fit a mantissa are not rounded
(`exact_ofInt`).
-/

namespace Binary64

open Float.Model Float.Model.UnpackedFloat

/-- The rational that a finite number denotes. -/
def exactOf : UnpackedFloat → ℚ
  | .finite sign mantissa exponent _ => sign.apply mantissa * 2 ^ exponent
  | .zero _ | .infinity _ | .notANumber => 0

/-- The rational number that a finite double is. -/
def exact (x : Float) : ℚ := exactOf x.toModel.unpack

/-- A full mantissa, or a smaller one with the least exponent. -/
structure Canonical (mantissa : ℕ) (exponent : ℤ) : Prop where
  lt : mantissa < 2 ^ 53
  le : -1074 ≤ exponent
  full : 2 ^ 52 ≤ mantissa ∨ exponent = -1074

/-! ## Canonical forms -/

theorem Canonical.eq_of_le {m m' : ℕ} {e e' : ℤ} (h : Canonical m e) (h' : Canonical m' e')
    (heq : (m : ℚ) * 2 ^ e = m' * 2 ^ e') (hle : e ≤ e') : m = m' ∧ e = e' := by
  obtain ⟨k, rfl⟩ := Int.le.dest hle
  have hpos : (0 : ℚ) < 2 ^ e := zpow_pos (by norm_num) e
  have hm : m = m' * 2 ^ k := by
    rw [zpow_add₀ (by norm_num : (2 : ℚ) ≠ 0), mul_comm ((2 : ℚ) ^ e), ← mul_assoc,
      zpow_natCast] at heq
    exact_mod_cast mul_right_cancel₀ hpos.ne' heq
  cases k with
  | zero => exact ⟨by simpa using hm, by simp⟩
  | succ k =>
    -- a smaller exponent would need a mantissa that is too large
    have hfull : 2 ^ 52 ≤ m' := by
      refine h'.full.resolve_right fun hmin => ?_
      have := h.le
      omega
    have hpow : 1 ≤ 2 ^ k := Nat.one_le_two_pow
    have hlt := h.lt
    rw [hm, Nat.pow_succ] at hlt
    nlinarith

/-- **Canonical forms are unique.** -/
theorem Canonical.unique {m m' : ℕ} {e e' : ℤ} (h : Canonical m e) (h' : Canonical m' e')
    (heq : (m : ℚ) * 2 ^ e = m' * 2 ^ e') : m = m' ∧ e = e' := by
  rcases le_total e e' with hle | hle
  · exact h.eq_of_le h' heq hle
  · obtain ⟨hm, he⟩ := h'.eq_of_le h heq.symm hle
    exact ⟨hm.symm, he.symm⟩

/-- The mantissa of a normal number has the bit that is not stored. -/
theorem toNat_implicit (mantissa : BitVec 52) :
    (1#1 ++ mantissa).toNat = 2 ^ 52 + mantissa.toNat := by
  rw [BitVec.toNat_append, ← Nat.shiftLeft_add_eq_or_of_lt mantissa.isLt]
  rfl

/-- Doubles are stored in canonical form. -/
theorem unpack_canonical {b : BitVec Format.binary64.numBits} {s : Sign} {m : ℕ} {e : ℤ}
    {hm : 0 < m} (h : UnpackedFloat.unpack Format.binary64 b = .finite s m e hm) : Canonical m e := by
  revert h
  fun_cases UnpackedFloat.unpack Format.binary64 b with
  | case1 => exact fun h => nomatch h
  | case2 => exact fun h => nomatch h
  | case3 => exact fun h => nomatch h
  | case4 mantissa exponentBits exponent signBits sign hinf hzero hne =>
    -- subnormal
    intro h
    obtain ⟨-, rfl, rfl⟩ := UnpackedFloat.finite.inj h
    have hlt : mantissa.toNat < 2 ^ 52 := mantissa.isLt
    have hexponent : exponent + 1 = -1074 := by
      simp only [exponent, hzero]
      rfl
    exact ⟨by omega, hexponent.ge, .inr hexponent⟩
  | case5 mantissa exponentBits exponent signBits sign hinf hzero =>
    -- normal
    intro h
    obtain ⟨-, rfl, rfl⟩ := UnpackedFloat.finite.inj h
    have hlt : mantissa.toNat < 2 ^ 52 := mantissa.isLt
    have hbits : exponentBits.toNat ≠ 0 := fun hbits => hzero (BitVec.eq_of_toNat_eq hbits)
    have hexponent : exponent = exponentBits.toNat - 1075 := rfl
    rw [toNat_implicit mantissa]
    exact ⟨by omega, by omega, .inl (by omega)⟩

/-- What canonical forms are packed into they are unpacked from. -/
theorem unpack_pack {s : Sign} {m : ℕ} {e : ℤ} (hm : 0 < m) (h : Canonical m e)
    (hfull : 2 ^ 52 ≤ m) (he : e ≤ 971) :
    (Float.Model.pack (.finite s m e hm)).unpack = .finite s m e hm := by
  have hlog : m.log2 = 52 := (Nat.log2_eq_iff hm.ne').mpr ⟨hfull, h.lt⟩
  have hle := h.le
  have hbiased : (e + 1075).toNat < 2047 ∧ 1 ≤ (e + 1075).toNat := by omega
  have hbias : (e + Format.binary64.exponentBias +
      Format.binary64.mantissaBitsWithoutImplicit).toNat = (e + 1075).toNat := by
    change (e + 1023 + 52).toNat = _
    rw [add_assoc]
    rfl
  have hpack : UnpackedFloat.pack Format.binary64 (.finite s m e hm) =
      packComponents Format.binary64 s (BitVec.ofNat 11 (e + 1075).toNat) (BitVec.ofNat 52 m) := by
    rw [UnpackedFloat.pack]
    dsimp only
    rw [hbias, if_neg (show ¬ 2 ^ 11 ≤ (e + 1075).toNat + 1 by omega), hlog]
    rfl
  have hexponent : (BitVec.ofNat 11 (e + 1075).toNat).toNat = (e + 1075).toNat :=
    Nat.mod_eq_of_lt (by omega)
  have hmantissa : (1#1 ++ BitVec.ofNat 52 m).toNat = m := by
    have hlt := h.lt
    rw [toNat_implicit, BitVec.toNat_ofNat, Nat.mod_eq_sub_mod hfull, Nat.mod_eq_of_lt (by omega)]
    omega
  change UnpackedFloat.unpack Format.binary64 (UnpackedFloat.pack Format.binary64 _) = _
  rw [hpack, UnpackedFloat.unpack]
  simp only [unpackMantissa_packComponents, unpackExponent_packComponents,
    unpackSign_packComponents, Sign.ofBitVec_toBitVec]
  rw [if_neg, if_neg]
  · rw [UnpackedFloat.finite.injEq, hexponent]
    refine ⟨rfl, hmantissa, ?_⟩
    change ((e + 1075).toNat : ℤ) - 1075 = e
    omega
  · intro hzero
    have hbits := congrArg BitVec.toNat hzero
    rw [hexponent] at hbits
    change (e + 1075).toNat = 0 at hbits
    omega
  · intro hones
    have hbits := congrArg BitVec.toNat hones
    rw [hexponent] at hbits
    change (e + 1075).toNat = 2047 at hbits
    omega

/-! ## Equality -/

theorem exactOf_positive {m : ℕ} {e : ℤ} {hm : 0 < m} :
    exactOf (.finite .positive m e hm) = m * 2 ^ e := by
  rw [exactOf, Sign.apply, Int.cast_natCast]

theorem exactOf_negative {m : ℕ} {e : ℤ} {hm : 0 < m} :
    exactOf (.finite .negative m e hm) = -(m * 2 ^ e) := by
  rw [exactOf, Sign.apply, Int.cast_neg, Int.cast_natCast, neg_mul]

theorem magnitude_pos {m : ℕ} (hm : 0 < m) (e : ℤ) : (0 : ℚ) < m * 2 ^ e :=
  mul_pos (Nat.cast_pos.mpr hm) (zpow_pos (by norm_num) e)

/-- The sign and the magnitude of a finite number that is not zero. -/
theorem exactOf_ne_zero {s : Sign} {m : ℕ} {e : ℤ} {hm : 0 < m} :
    exactOf (.finite s m e hm) ≠ 0 := by
  have hpos := magnitude_pos hm e
  cases s with
  | positive => exact exactOf_positive ▸ hpos.ne'
  | negative => exact exactOf_negative ▸ (neg_neg_of_pos hpos).ne

theorem exactOf_eq_of_beq {u v : UnpackedFloat} (h : u.beq v = true) : exactOf u = exactOf v := by
  obtain ⟨-, -, rfl | ⟨rfl, rfl⟩ | ⟨rfl, rfl⟩⟩ := (beq_iff_ne_notANumber_and_eq u v).mp h <;> rfl

theorem finite_eq_of_exactOf {s s' : Sign} {m m' : ℕ} {e e' : ℤ} {hm : 0 < m} {hm' : 0 < m'}
    (h : Canonical m e) (h' : Canonical m' e')
    (heq : exactOf (.finite s m e hm) = exactOf (.finite s' m' e' hm')) :
    UnpackedFloat.finite s m e hm = .finite s' m' e' hm' := by
  have hpos := magnitude_pos hm e
  have hpos' := magnitude_pos hm' e'
  cases s with
  | positive =>
    cases s' with
    | positive =>
      rw [exactOf_positive, exactOf_positive] at heq
      obtain ⟨rfl, rfl⟩ := h.unique h' heq
      rfl
    | negative =>
      rw [exactOf_positive, exactOf_negative] at heq
      linarith
  | negative =>
    cases s' with
    | positive =>
      rw [exactOf_positive, exactOf_negative] at heq
      linarith
    | negative =>
      rw [exactOf_negative, exactOf_negative, neg_inj] at heq
      obtain ⟨rfl, rfl⟩ := h.unique h' heq
      rfl

/-- **Equality of doubles.** Finite doubles are equal exactly when they denote the same rational. -/
theorem beq_iff_exact {x y : Float} (hx : x.isFinite = true) (hy : y.isFinite = true) :
    (x == y) = true ↔ exact x = exact y := by
  refine ⟨exactOf_eq_of_beq, fun heq => ?_⟩
  change x.toModel.unpack.isFinite = true at hx
  change y.toModel.unpack.isFinite = true at hy
  change x.toModel.unpack.beq y.toModel.unpack = true
  rw [exact, exact] at heq
  cases hu : x.toModel.unpack with
  | infinity s => rw [hu] at hx; cases hx
  | notANumber => rw [hu] at hx; cases hx
  | zero s =>
    rw [hu] at heq
    cases hv : y.toModel.unpack with
    | infinity s => rw [hv] at hy; cases hy
    | notANumber => rw [hv] at hy; cases hy
    | zero s => rfl
    | finite s' m' e' hm' =>
      rw [hv] at heq
      exact absurd heq.symm exactOf_ne_zero
  | finite s m e hm =>
    rw [hu] at heq
    cases hv : y.toModel.unpack with
    | infinity s => rw [hv] at hy; cases hy
    | notANumber => rw [hv] at hy; cases hy
    | zero s =>
      rw [hv] at heq
      exact absurd heq exactOf_ne_zero
    | finite s' m' e' hm' =>
      rw [hv] at heq
      rw [finite_eq_of_exactOf (unpack_canonical hu) (unpack_canonical hv) heq,
        beq_iff_ne_notANumber_and_eq]
      exact ⟨UnpackedFloat.noConfusion, UnpackedFloat.noConfusion, .inl rfl⟩

/-! ## Integers -/

/-- Zeros are shifted out of a mantissa. -/
theorem shift_zeros (m j : ℕ) :
    ExtendedMantissa.ofMantissaAndAccuracy (m * 2 ^ j) .exact >>> j = ⟨m, false, false⟩ := by
  change Nat.repeat ExtendedMantissa.shiftRightOne j ⟨m * 2 ^ j, false, false⟩ = _
  induction j generalizing m with
  | zero => rw [Nat.pow_zero, Nat.mul_one]; rfl
  | succ j ih =>
    rw [Nat.repeat, Nat.pow_succ', ← Nat.mul_assoc, ih, ExtendedMantissa.shiftRightOne]
    simp

theorem shiftToTargetExponent_zeros {m : ℕ} {e : ℤ} (h : Canonical m e) (hfull : 2 ^ 52 ≤ m)
    (j : ℕ) : shiftToTargetExponent Format.binary64 (m * 2 ^ j) (e - j) .exact =
      (⟨m, false, false⟩, e) := by
  have hle := h.le
  have hlog : (m * 2 ^ j).log2 = 52 + j := by
    rw [Nat.log2_eq_iff (by positivity), Nat.pow_add, show 52 + j + 1 = 53 + j by omega,
      Nat.pow_add]
    exact ⟨Nat.mul_le_mul_right _ hfull, Nat.mul_lt_mul_of_pos_right h.lt (Nat.two_pow_pos j)⟩
  have htarget : Format.binary64.targetExponent (totalExponent (m * 2 ^ j) (e - j)) = e := by
    rw [totalExponent, hlog]
    change max (((52 + j : ℕ) : ℤ) + 1 + (e - j) - 53) (-1074) = e
    omega
  have hamount : (e - (e - j)).toNat = j := by omega
  rw [shiftToTargetExponent, htarget, shiftToExponent, hamount, shift_zeros]
  simp

/-- Numbers with a full mantissa are not rounded. -/
theorem roundWithAccuracy_zeros {s : Sign} {m : ℕ} {e : ℤ} (hm : 0 < m) (h : Canonical m e)
    (hfull : 2 ^ 52 ≤ m) (j : ℕ) :
    roundWithAccuracy Format.binary64 s (m * 2 ^ j) (e - j) .exact = .finite s m e hm := by
  have hagain := shiftToTargetExponent_zeros h hfull 0
  rw [Nat.pow_zero, Nat.mul_one, Nat.cast_zero, sub_zero] at hagain
  rw [roundWithAccuracy, shiftToTargetExponent_zeros h hfull j]
  change (let r := shiftToTargetExponent Format.binary64 m e .exact
    if h : r.1.mantissa = 0 then UnpackedFloat.zero s
    else .finite s r.1.mantissa r.2 (Nat.pos_of_ne_zero h)) = _
  rw [hagain]
  exact dif_neg hm.ne'

/-- The canonical form of a natural number that fits a mantissa. -/
theorem canonical_nat {n : ℕ} (hpos : 0 < n) (hlt : n < 2 ^ 53) :
    Canonical (n * 2 ^ (52 - n.log2)) (-(52 - n.log2 : ℕ)) ∧ 2 ^ 52 ≤ n * 2 ^ (52 - n.log2) := by
  have hlog : n.log2 < 53 := (Nat.log2_lt hpos.ne').mpr hlt
  have hfull : 2 ^ 52 ≤ n * 2 ^ (52 - n.log2) := by
    calc 2 ^ 52 = 2 ^ n.log2 * 2 ^ (52 - n.log2) := by rw [← Nat.pow_add]; congr 1; omega
      _ ≤ n * 2 ^ (52 - n.log2) := Nat.mul_le_mul_right _ (Nat.log2_self_le hpos.ne')
  refine ⟨⟨?_, by omega, .inl hfull⟩, hfull⟩
  calc n * 2 ^ (52 - n.log2) < 2 ^ (n.log2 + 1) * 2 ^ (52 - n.log2) :=
        Nat.mul_lt_mul_of_pos_right Nat.lt_log2_self (Nat.two_pow_pos _)
    _ = 2 ^ 53 := by rw [← Nat.pow_add]; congr 1; omega

theorem ofNat_unpacked {n : ℕ} (hpos : 0 < n) (hlt : n < 2 ^ 53) (hm : 0 < n * 2 ^ (52 - n.log2)) :
    UnpackedFloat.ofNat Format.binary64 n =
      .finite .positive (n * 2 ^ (52 - n.log2)) (-(52 - n.log2 : ℕ)) hm := by
  obtain ⟨hcanonical, hfull⟩ := canonical_nat hpos hlt
  have hlog : n.log2 < 53 := (Nat.log2_lt hpos.ne').mpr hlt
  have htarget : Format.binary64.targetExponent (totalExponent n 0) = -(52 - n.log2 : ℕ) := by
    change max ((n.log2 : ℤ) + 1 + 0 - 53) (-1074) = _
    omega
  have hround := roundWithAccuracy_zeros (s := .positive) hm hcanonical hfull 0
  rw [Nat.pow_zero, Nat.mul_one, Nat.cast_zero, sub_zero] at hround
  have hamount : (0 - -((52 - n.log2 : ℕ) : ℤ)).toNat = 52 - n.log2 := by omega
  rw [UnpackedFloat.ofNat, UnpackedFloat.ofInt, UnpackedFloat.normalize,
    Int.compare_eq_gt.mpr (by omega)]
  change UnpackedFloat.round Format.binary64 .positive n 0 = _
  rw [UnpackedFloat.round, htarget, decreaseExponent, hamount, Nat.shiftLeft_eq, zero_sub]
  exact hround

theorem ofNat_unpack {n : ℕ} (hpos : 0 < n) (hlt : n < 2 ^ 53) (hm : 0 < n * 2 ^ (52 - n.log2)) :
    (Float.ofNat n).toModel.unpack =
      .finite .positive (n * 2 ^ (52 - n.log2)) (-(52 - n.log2 : ℕ)) hm := by
  obtain ⟨hcanonical, hfull⟩ := canonical_nat hpos hlt
  have hrepack {s : Sign} := unpack_pack (s := s) hm hcanonical hfull (by omega)
  have hone : (Float.ofBits 0x3FF0000000000000).toModel.unpack =
      .finite .positive (2 ^ 52) (-52) (by decide) := rfl
  have hn : n.toUInt64.toFloat.toModel.unpack =
      .finite .positive (n * 2 ^ (52 - n.log2)) (-(52 - n.log2 : ℕ)) hm := by
    change (Float.Model.pack (UnpackedFloat.ofNat Format.binary64 n.toUInt64.toNat)).unpack = _
    rw [Nat.toUInt64_eq, UInt64.toNat_ofNat_of_lt' (hlt.trans (by decide)),
      ofNat_unpacked hpos hlt hm, hrepack]
  -- the natural number is multiplied by ten to the power of zero
  have hmul : Float.ofNat n = n.toUInt64.toFloat * Float.ofBits 0x3FF0000000000000 :=
    dif_pos (⟨hlt, by decide⟩ : n < 2 ^ 53 ∧ 0 ≤ 22)
  rw [hmul]
  change (Float.Model.pack (UnpackedFloat.mul Format.binary64 n.toUInt64.toFloat.toModel.unpack
    (Float.ofBits 0x3FF0000000000000).toModel.unpack)).unpack = _
  rw [hone, hn]
  change (Float.Model.pack (roundWithAccuracy Format.binary64 .positive
    (n * 2 ^ (52 - n.log2) * 2 ^ 52) (-((52 - n.log2 : ℕ) : ℤ) - (52 : ℕ)) .exact)).unpack = _
  rw [roundWithAccuracy_zeros hm hcanonical hfull, hrepack]

/-- The magnitude of a natural number as a canonical form. -/
theorem canonical_nat_eq (n k : ℕ) : ((n * 2 ^ k : ℕ) : ℚ) * 2 ^ (-(k : ℤ)) = n := by
  rw [Nat.cast_mul, Nat.cast_pow, zpow_neg, zpow_natCast, Nat.cast_ofNat, mul_assoc,
    mul_inv_cancel₀ (by positivity), mul_one]

theorem exact_ofNat {n : ℕ} (hlt : n < 2 ^ 53) :
    (Float.ofNat n).isFinite = true ∧ exact (Float.ofNat n) = n := by
  rcases Nat.eq_zero_or_pos n with rfl | hpos
  · exact ⟨rfl, Nat.cast_zero.symm⟩
  · have hunpack := ofNat_unpack hpos hlt (by positivity)
    refine ⟨?_, ?_⟩
    · change (Float.ofNat n).toModel.unpack.isFinite = true
      rw [hunpack]
      rfl
    · rw [exact, hunpack, exactOf_positive, canonical_nat_eq]

/-- **Integers are exact** up to the size of a mantissa. -/
theorem exact_ofInt {i : ℤ} (hlt : i.natAbs < 2 ^ 53) :
    (Float.ofInt i).isFinite = true ∧ exact (Float.ofInt i) = i := by
  cases i with
  | ofNat n => exact exact_ofNat hlt
  | negSucc n =>
    obtain ⟨hcanonical, hfull⟩ := canonical_nat (Nat.succ_pos n) hlt
    have hm : 0 < (n + 1) * 2 ^ (52 - (n + 1).log2) := by positivity
    have hunpack : (Float.ofInt (.negSucc n)).toModel.unpack =
        .finite .negative _ (-(52 - (n + 1).log2 : ℕ)) hm := by
      change (Float.Model.pack (Float.ofNat (n + 1)).toModel.unpack.neg).unpack = _
      rw [ofNat_unpack (Nat.succ_pos n) hlt hm]
      exact unpack_pack hm hcanonical hfull (by omega)
    refine ⟨?_, ?_⟩
    · change (Float.ofInt (.negSucc n)).toModel.unpack.isFinite = true
      rw [hunpack]
      rfl
    · rw [exact, hunpack, exactOf_negative, canonical_nat_eq, Int.cast_negSucc]

end Binary64
