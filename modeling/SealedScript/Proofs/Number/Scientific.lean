/-
SealedScript/Proofs/Number/Scientific.lean

Reading decimals.  A decimal is a quotient of a whole number and a power of ten.  If both
are small, two floating point numbers that are exactly these are divided, and in all
other cases the quotient is formed in whole numbers; either way it is rounded once.
A decimal in the interval around a number is therefore read as that number.

Main result: `FloatText.scaled_eq`.
-/
import SealedScript.Number.FloatText
import SealedScript.Proofs.Number.Packing

namespace SealedScript

open Float.Model Float.Model.UnpackedFloat Rounding

variable {m : ℕ} {e : ℤ} {digits places : ℕ}

/-! ### Exact operands -/

theorem Rounding.roundsTo_exact (m : ℕ) (e : ℤ) : RoundsTo m e (m * 2 ^ e) := by
  have hquotient : (m : ℚ) * 2 ^ e / 2 ^ e = m := mul_div_cancel_right₀ _ (by positivity)
  refine ⟨⟨?_, ?_, ?_⟩, fun _ _ => ?_⟩ <;> rw [hquotient]
  · linarith
  · linarith
  · rintro (h | h) <;> linarith
  · linarith

/-- A whole number of 53 bits is a floating point number. -/
theorem unpack_ofNat {n : ℕ} (hpos : 0 < n) (hlt : n < 2 ^ 53) :
    ∃ m e, ∃ hc : Canonical m e, (Float.Model.ofNat n).unpack = .finite .positive m e hc.pos ∧ (m : ℚ) * 2 ^ e = n := by
  have hlog : n.log2 < 53 := (Nat.log2_lt hpos.ne').2 hlt
  have hlow : 2 ^ n.log2 ≤ n := Nat.log2_self_le hpos.ne'
  have hhigh : n < 2 ^ (n.log2 + 1) := Nat.lt_log2_self
  obtain ⟨k, hk⟩ : ∃ k, n.log2 + k = 52 := ⟨52 - n.log2, by omega⟩
  have hc : Canonical (n * 2 ^ k) (-k) := by
    refine ⟨by positivity, ?_, by omega, .inl ?_⟩
    · calc n * 2 ^ k < 2 ^ (n.log2 + 1) * 2 ^ k := Nat.mul_lt_mul_of_pos_right hhigh (Nat.two_pow_pos k)
        _ = 2 ^ 53 := by rw [← pow_add]; congr 1; omega
    · calc 2 ^ 52 = 2 ^ n.log2 * 2 ^ k := by rw [← pow_add, hk]
        _ ≤ n * 2 ^ k := Nat.mul_le_mul_right _ hlow
  have hvalue : ((n * 2 ^ k : ℕ) : ℚ) * 2 ^ (-k : ℤ) = n := by
    push_cast
    rw [zpow_neg, zpow_natCast, mul_assoc, mul_inv_cancel₀ (by positivity), mul_one]
  refine ⟨n * 2 ^ k, -k, hc, ?_, hvalue⟩
  have htarget : Format.binary64.targetExponent (totalExponent n 0) = -k := by
    rw [targetExponent_eq, totalExponent]
    omega
  have hround : UnpackedFloat.ofNat Format.binary64 n = .finite .positive (n * 2 ^ k) (-k) hc.pos := by
    have hcompare : compare (n : ℤ) 0 = .gt := Int.compare_eq_gt.2 (by omega)
    have hshift : ((0 : ℤ) - -(k : ℤ)).toNat = k := by omega
    rw [UnpackedFloat.ofNat, UnpackedFloat.ofInt, UnpackedFloat.normalize, hcompare]
    dsimp only
    rw [Int.toNat_natCast, UnpackedFloat.round, htarget, decreaseExponent, hshift, Nat.shiftLeft_eq, zero_sub]
    refine round_eq hc (roundsTo_exact _ _) ?_ (.inr ?_)
    · rw [mul_div_cancel_right₀ _ (by positivity)]
      exact describes_exact _
    · rw [zpow_add₀ two_ne_zero]
      gcongr
      exact_mod_cast hc.normal.resolve_right (by omega)
  rw [Float.Model.ofNat, hround]
  exact @Packing.unpack_pack false _ _ hc (by omega)

/-- The powers of ten that are divided by are floating point numbers. -/
theorem unpack_powerOfTen (k : Fin Float.exactlyRepresentablePowersOfTen.size) :
    ∃ m e, ∃ hm : 0 < m, Float.exactlyRepresentablePowersOfTen[k].toModel.unpack = .finite .positive m e hm ∧
      (m : ℚ) * 2 ^ e = 10 ^ k.val := by
  have htable : ∀ k : Fin Float.exactlyRepresentablePowersOfTen.size,
      Binary64.ofFloat Float.exactlyRepresentablePowersOfTen[k]
        = .finite false (10 ^ k.val * 2 ^ 52 / 2 ^ (10 ^ k.val).log2) ((10 ^ k.val).log2 - 52) := by decide +kernel
  have hexact : ∀ k : Fin Float.exactlyRepresentablePowersOfTen.size,
      10 ^ k.val * 2 ^ 52 / 2 ^ (10 ^ k.val).log2 * 2 ^ (10 ^ k.val).log2 = 10 ^ k.val * 2 ^ 52 := by decide +kernel
  have hm : 0 < 10 ^ k.val * 2 ^ 52 / 2 ^ (10 ^ k.val).log2 := by
    refine Nat.pos_of_ne_zero fun hzero => ?_
    have hpower := hexact k
    rw [hzero, Nat.zero_mul] at hpower
    exact absurd hpower.symm (by positivity)
  refine ⟨_, _, hm, Packing.unpack_of_ofFloat (htable k) hm, ?_⟩
  have hexactQ : ((10 ^ k.val * 2 ^ 52 / 2 ^ (10 ^ k.val).log2 : ℕ) : ℚ) * 2 ^ (10 ^ k.val).log2
      = 10 ^ k.val * 2 ^ 52 := by
    exact_mod_cast hexact k
  rw [zpow_sub₀ two_ne_zero, zpow_natCast, ← mul_div_assoc, hexactQ]
  norm_num

/-! ### Quotients -/

/-- **A decimal in the interval around a number is read as that number.** -/
theorem ofScientific_eq (hc : Canonical m e) (hx : RoundsTo m e (digits / 10 ^ places)) (hdigits : 0 < digits)
    (hplaces : 0 < places) (hlong : places ≤ 2048 + digits.log2) :
    Float.ofScientific digits true places = .ofModel (.pack (.finite .positive m e hc.pos)) := by
  rw [Float.ofScientific]
  split
  · next hsmall =>
    have hsize : places < Float.exactlyRepresentablePowersOfTen.size := Nat.lt_succ_of_le hsmall.2
    have hword : digits.toUInt64.toNat = digits := Nat.mod_eq_of_lt (hsmall.1.trans (by decide))
    obtain ⟨m₁, e₁, hc₁, hunpack₁, hvalue₁⟩ := unpack_ofNat hdigits hsmall.1
    obtain ⟨m₂, e₂, h₂, hunpack₂, hvalue₂⟩ := unpack_powerOfTen ⟨places, hsize⟩
    rw [← hvalue₁, ← hvalue₂] at hx
    show Float.ofModel (.pack (UnpackedFloat.div Format.binary64 (Float.Model.ofNat digits.toUInt64.toNat).unpack
      Float.exactlyRepresentablePowersOfTen[(⟨places, hsize⟩ : Fin _)].toModel.unpack)) = _
    rw [hword, hunpack₁, hunpack₂, div_eq hc₁.pos h₂ hc hx]
  · have hexponent : Int.negOfNat places = -(places : ℤ) := Int.negOfNat_eq
    have hquotient : UnpackedFloat.ofScientific Format.binary64 digits (-(places : ℤ))
        = .finite .positive m e hc.pos := by
      have hlarge : ¬ -(places : ℤ) > 2 ^ Format.binary64.exponentBits := by
        show ¬ -(places : ℤ) > 2 ^ 11
        omega
      have hsmall : ¬ -(places : ℤ) < -((2 ^ Format.binary64.exponentBits : ℤ) + digits.log2) := by
        show ¬ -(places : ℤ) < -((2 ^ 11 : ℤ) + digits.log2)
        omega
      rw [UnpackedFloat.ofScientific, dif_neg hdigits.ne', if_neg hlarge, if_neg hsmall, if_neg (by omega)]
      refine div_eq _ _ hc ?_
      rw [neg_neg, Int.toNat_natCast, zpow_zero, mul_one, mul_one]
      exact_mod_cast hx
    show Float.ofModel (.pack (UnpackedFloat.ofScientific Format.binary64 digits (Int.negOfNat places))) = _
    rw [hexponent, hquotient]

/-! ### The range of the format -/

theorem lt_pow_length_toDigits (n : ℕ) : n < 10 ^ (Nat.toDigits 10 n).length :=
  (Nat.length_toDigits_le_iff (by decide) Nat.length_toDigits_pos).1 le_rfl

theorem pow_length_toDigits_le {n : ℕ} (hn : 0 < n) : 10 ^ ((Nat.toDigits 10 n).length - 1) ≤ n := by
  have hlength : 0 < (Nat.toDigits 10 n).length := Nat.length_toDigits_pos
  by_cases hone : (Nat.toDigits 10 n).length = 1
  · rwa [hone]
  · refine not_lt.1 fun hlt => ?_
    have := (Nat.length_toDigits_le_iff (by decide) (by omega)).2 hlt
    omega

/-- A number in the interval around a floating point number is neither too small nor too
large for the format. -/
theorem Rounding.RoundsTo.range {x : ℚ} (hx : RoundsTo m e x) (hc : Canonical m e) (he : e ≤ 971) :
    2 ^ (-1075 : ℤ) ≤ x ∧ x < 2 ^ (1024 : ℤ) := by
  have hm : (1 : ℚ) ≤ m := by exact_mod_cast hc.pos
  have hlt : (m : ℚ) + 1 ≤ 2 ^ (53 : ℤ) := by exact_mod_cast hc.lt
  have hhalf : (2 : ℚ) ^ (-1 : ℤ) ≤ x / 2 ^ e := by
    rw [zpow_neg_one, inv_eq_one_div]
    linarith [hx.nearest.low]
  have hscale : x = x / 2 ^ e * 2 ^ e := (div_mul_cancel₀ _ (by positivity)).symm
  constructor
  · calc (2 : ℚ) ^ (-1075 : ℤ) = 2 ^ (-1 : ℤ) * 2 ^ (-1074 : ℤ) := zpow_add₀ two_ne_zero (-1) (-1074)
      _ ≤ x / 2 ^ e * 2 ^ e := by
        refine mul_le_mul hhalf (zpow_le_zpow_right₀ one_le_two hc.least) (by positivity) ?_
        exact le_trans (by positivity) hhalf
      _ = x := hscale.symm
  · calc x = x / 2 ^ e * 2 ^ e := hscale
      _ < 2 ^ (53 : ℤ) * 2 ^ e := by
        refine mul_lt_mul_of_pos_right ?_ (by positivity)
        linarith [hx.nearest.high]
      _ ≤ 2 ^ (53 : ℤ) * 2 ^ (971 : ℤ) := by
        refine mul_le_mul_of_nonneg_left (zpow_le_zpow_right₀ one_le_two he) (by positivity)
      _ = 2 ^ (1024 : ℤ) := (zpow_add₀ two_ne_zero 53 971).symm

/-- The digits in front of the point of such a decimal, or the zeros behind it, are few. -/
theorem length_toDigits_bounds (hx : RoundsTo m e (digits / 10 ^ places)) (hc : Canonical m e) (he : e ≤ 971) :
    0 < digits ∧ places < (Nat.toDigits 10 digits).length + 324 ∧ (Nat.toDigits 10 digits).length ≤ places + 309 := by
  obtain ⟨hlow, hhigh⟩ := hx.range hc he
  have hten : (0 : ℚ) < 10 ^ places := by positivity
  rw [le_div_iff₀ hten, zpow_neg, inv_mul_le_iff₀ (by positivity)] at hlow
  rw [div_lt_iff₀ hten] at hhigh
  have hlow : 10 ^ places ≤ 2 ^ 1075 * digits := by exact_mod_cast hlow
  have hhigh : digits < 2 ^ 1024 * 10 ^ places := by exact_mod_cast hhigh
  have hdigits : 0 < digits := by
    refine Nat.pos_of_ne_zero ?_
    rintro rfl
    rw [Nat.mul_zero] at hlow
    exact absurd hlow (not_le.2 (by positivity))
  refine ⟨hdigits, ?_, ?_⟩
  · refine (Nat.pow_lt_pow_iff_right (by decide : 1 < 10)).1 ?_
    calc 10 ^ places ≤ 2 ^ 1075 * digits := hlow
      _ < 2 ^ 1075 * 10 ^ (Nat.toDigits 10 digits).length := by
        gcongr
        exact lt_pow_length_toDigits digits
      _ ≤ 10 ^ 324 * 10 ^ (Nat.toDigits 10 digits).length := Nat.mul_le_mul_right _ (by decide +kernel)
      _ = 10 ^ ((Nat.toDigits 10 digits).length + 324) := by rw [← pow_add, add_comm]
  · have hfront : 10 ^ ((Nat.toDigits 10 digits).length - 1) < 10 ^ (309 + places) :=
      calc 10 ^ ((Nat.toDigits 10 digits).length - 1) ≤ digits := pow_length_toDigits_le hdigits
        _ < 2 ^ 1024 * 10 ^ places := hhigh
        _ ≤ 10 ^ 309 * 10 ^ places := Nat.mul_le_mul_right _ (by decide +kernel)
        _ = 10 ^ (309 + places) := (pow_add _ _ _).symm
    have := (Nat.pow_lt_pow_iff_right (by decide : 1 < 10)).1 hfront
    omega

/-- **A decimal in the interval around a number is read as that number.** -/
theorem FloatText.scaled_eq (hc : Canonical m e) (he : e ≤ 971) (hx : RoundsTo m e (digits / 10 ^ places))
    (hplaces : 0 < places) :
    FloatText.scaled digits (0 - (places : ℤ)) = .ofModel (.pack (.finite .positive m e hc.pos)) := by
  obtain ⟨hdigits, hlow, hhigh⟩ := length_toDigits_bounds hx hc he
  have hlong : places ≤ 2048 + digits.log2 := by
    have hlog : (Nat.toDigits 10 digits).length - 1 ≤ digits.log2 := by
      refine (Nat.le_log2 hdigits.ne').2 ((Nat.pow_le_pow_left (by decide) _).trans (pow_length_toDigits_le hdigits))
    omega
  obtain ⟨k, rfl⟩ : ∃ k, places = k + 1 := ⟨places - 1, by omega⟩
  have hexponent : (0 : ℤ) - ((k + 1 : ℕ) : ℤ) = Int.negSucc k := by omega
  have hsmall : (digits == 0 || decide (((Nat.toDigits 10 digits).length : ℤ) + Int.negSucc k < -400)) = false := by
    rw [Bool.or_eq_false_iff]
    exact ⟨beq_eq_false_iff_ne.2 hdigits.ne', decide_eq_false (by omega)⟩
  have hlarge : ¬ ((Nat.toDigits 10 digits).length : ℤ) + Int.negSucc k > 400 := by
    omega
  unfold FloatText.scaled
  rw [hexponent]
  dsimp only
  rw [hsmall, if_neg (by decide), if_neg hlarge]
  exact ofScientific_eq hc hx hdigits hplaces hlong

end SealedScript
