/-
SealedScript/Proofs/Number/Conversion.lean

Whole numbers as floating point numbers.  A whole number is converted by multiplying
it with a power of ten, here with one: below 2^53 two numbers that are exactly the
factors are multiplied, and from there on the number is moved up by 53 bits first.
Either way the product is rounded once, and it is finite as long as the number has 64
bits.  No number but zero becomes a zero.

Main results: `unpack_float_ofNat`, `float_ofInt_beq_zero`.
-/
import SealedScript.Proofs.Number.Comparison
import SealedScript.Proofs.Number.Scientific
import SealedScript.Proofs.Number.Subtraction

namespace SealedScript

open Float.Model Float.Model.UnpackedFloat Rounding

/-! ### Products -/

/-- **Multiplication rounds the product**, if the mantissas together are long enough. -/
theorem Rounding.rounded_mul {m₁ m₂ : ℕ} {e₁ e₂ : ℤ} (h₁ : 0 < m₁) (h₂ : 0 < m₂) (hlong : 2 ^ 52 ≤ m₁ * m₂)
    (hleast : -1074 ≤ e₁ + e₂) :
    ∃ m e, ∃ hc : Canonical m e,
      mul Format.binary64 (.finite .positive m₁ e₁ h₁) (.finite .positive m₂ e₂ h₂) = .finite .positive m e hc.pos ∧
        Rounded (m₁ * 2 ^ e₁ * (m₂ * 2 ^ e₂)) (m * 2 ^ e) := by
  have hpos : 0 < m₁ * m₂ := Nat.mul_pos h₁ h₂
  have hlog : 52 ≤ (m₁ * m₂).log2 := (Nat.le_log2 hpos.ne').2 hlong
  have hproduct : (m₁ : ℚ) * 2 ^ e₁ * (m₂ * 2 ^ e₂) = (m₁ * m₂ : ℕ) * 2 ^ (e₁ + e₂) := by
    rw [zpow_add₀ two_ne_zero]
    push_cast
    ring
  have hfits : e₁ + e₂ ≤ Format.binary64.targetExponent (totalExponent (m₁ * m₂) (e₁ + e₂)) := by
    rw [targetExponent_eq, totalExponent]
    omega
  rw [hproduct]
  exact (binade_target hpos hleast).exists_round hfits

/-! ### Whole numbers -/

theorem unpack_float_one :
    Float.exactlyRepresentablePowersOfTen[0].toModel.unpack = .finite .positive (2 ^ 52) (-52) (by decide) :=
  @Packing.unpack_of_ofFloat false _ _ _ (by decide +kernel) (by decide)

variable {n : ℕ}

/-- A whole number of 53 bits times one. -/
theorem rounded_mul_one (hn : 0 < n) (hlt : n < 2 ^ 53) :
    ∃ m e, ∃ hc : Canonical m e,
      mul Format.binary64 (Float.Model.ofNat n).unpack Float.exactlyRepresentablePowersOfTen[0].toModel.unpack
        = .finite .positive m e hc.pos ∧ Rounded n (m * 2 ^ e) := by
  obtain ⟨m₁, e₁, hc₁, hunpack, hvalue⟩ := unpack_ofNat hn hlt
  -- the number is one at least, so the exponent stays above the least one
  have hlow : -53 < e₁ := by
    have hone : (2 : ℚ) ^ (0 : ℤ) ≤ m₁ * 2 ^ e₁ := by
      rw [hvalue, zpow_zero]
      exact_mod_cast hn
    have hexponent := (zpow_lt_zpow_iff_right₀ (one_lt_two : (1 : ℚ) < 2)).1 (hone.trans_lt hc₁.lt_pow)
    omega
  have hpos : 0 < 2 ^ 52 := by decide
  have hlong : 2 ^ 52 ≤ m₁ * 2 ^ 52 := Nat.le_mul_of_pos_left _ hc₁.pos
  have hleast : -1074 ≤ e₁ + -52 := by omega
  obtain ⟨m, e, hc, hmul, hrounded⟩ := rounded_mul hc₁.pos hpos hlong hleast
  have hone : ((2 ^ 52 : ℕ) : ℚ) * 2 ^ (-52 : ℤ) = 1 := by norm_num
  rw [hvalue, hone, mul_one] at hrounded
  rw [hunpack, unpack_float_one]
  exact ⟨m, e, hc, hmul, hrounded⟩

/-- A whole number that is moved up by 53 bits and back. -/
theorem rounded_ofScientific (hn : 0 < n) :
    ∃ m e, ∃ hc : Canonical m e,
      UnpackedFloat.ofScientific Format.binary64 n 0 = .finite .positive m e hc.pos ∧ Rounded n (m * 2 ^ e) := by
  have hpos : 0 < n <<< 53 := by
    rw [Nat.shiftLeft_eq]
    positivity
  have hten : 0 < 10 ^ (0 : ℤ).toNat := by decide
  have hlong : 2 ^ 52 ≤ n <<< 53 * 10 ^ (0 : ℤ).toNat := by
    show 2 ^ 52 ≤ n <<< 53 * 1
    rw [Nat.shiftLeft_eq]
    omega
  have hleast : (-1074 : ℤ) ≤ -53 + 0 := by decide
  obtain ⟨m, e, hc, hmul, hrounded⟩ := rounded_mul hpos hten hlong hleast
  have hvalue : ((n <<< 53 : ℕ) : ℚ) * 2 ^ (-53 : ℤ) * ((10 ^ (0 : ℤ).toNat : ℕ) * 2 ^ (0 : ℤ)) = n := by
    rw [Nat.shiftLeft_eq]
    norm_num
    ring
  rw [hvalue] at hrounded
  refine ⟨m, e, hc, ?_, hrounded⟩
  have hsmall : ¬ (0 : ℤ) > 2 ^ Format.binary64.exponentBits := by decide
  have hlarge : ¬ (0 : ℤ) < -(2 ^ Format.binary64.exponentBits + n.log2) := by
    show ¬ (0 : ℤ) < -(2 ^ 11 + n.log2)
    omega
  rw [UnpackedFloat.ofScientific, dif_neg hn.ne', if_neg hsmall, if_neg hlarge, if_pos le_rfl]
  exact hmul

/-- Either way a whole number is rounded once and packed. -/
theorem float_ofNat_eq (hn : 0 < n) :
    ∃ m e, ∃ hc : Canonical m e, Float.ofNat n = .ofModel (.pack (.finite .positive m e hc.pos)) ∧
      Rounded n (m * 2 ^ e) := by
  by_cases hsmall : n < 2 ^ 53
  · obtain ⟨m, e, hc, hmul, hrounded⟩ := rounded_mul_one hn hsmall
    refine ⟨m, e, hc, ?_, hrounded⟩
    have hword : n.toUInt64.toNat = n := Nat.mod_eq_of_lt (hsmall.trans (by decide))
    rw [← hmul]
    show Float.ofScientific n false 0 = _
    rw [Float.ofScientific, dif_pos ⟨hsmall, by decide⟩]
    show Float.ofModel (.pack (mul Format.binary64 (Float.Model.ofNat n.toUInt64.toNat).unpack _)) = _
    rw [hword]
  · obtain ⟨m, e, hc, hscientific, hrounded⟩ := rounded_ofScientific hn
    refine ⟨m, e, hc, ?_, hrounded⟩
    rw [← hscientific]
    show Float.ofScientific n false 0 = _
    rw [Float.ofScientific, dif_neg fun h => hsmall h.1]
    rfl

/-- **A whole number of 64 bits is rounded to 53.** -/
theorem unpack_float_ofNat (hn : 0 < n) (hle : n ≤ 2 ^ 64) :
    ∃ m e, ∃ hc : Canonical m e, e ≤ 971 ∧ (Float.ofNat n).toModel.unpack = .finite .positive m e hc.pos ∧
      Rounded n (m * 2 ^ e) := by
  obtain ⟨m, e, hc, hfloat, hrounded⟩ := float_ofNat_eq hn
  -- 2^64 fits, so rounding does not pass over it, and the exponent is far from the greatest
  have hfits : Fits (2 ^ 64 : ℚ) := ⟨1, 64, by decide, by decide, by norm_num⟩
  have hbound : (m : ℚ) * 2 ^ e ≤ 2 ^ (64 : ℤ) := hrounded.le_of_le hfits (by exact_mod_cast hle)
  have hexponent : e ≤ 971 := by
    by_contra hlt
    have hlow := (hc.pow_le (by omega)).trans hbound
    have hpow := (zpow_le_zpow_iff_right₀ (one_lt_two : (1 : ℚ) < 2)).1 hlow
    omega
  refine ⟨m, e, hc, hexponent, ?_, hrounded⟩
  rw [hfloat]
  exact @Packing.unpack_pack false _ _ hc hexponent

/-- **No whole number but zero becomes a zero.** -/
theorem float_ofInt_beq_zero {a : ℤ} (ha : a.natAbs ≤ 2 ^ 64) : (Float.ofInt a == 0.0) = true ↔ a = 0 := by
  rw [float_beq_iff]
  constructor
  · intro hsame
    by_contra hne
    cases a with
    | ofNat n =>
      have hn : 0 < n := Nat.pos_of_ne_zero fun hzero => hne (congrArg Int.ofNat hzero)
      obtain ⟨m, e, hc, -, hunpack, -⟩ := unpack_float_ofNat hn ha
      have hconverted : (Float.ofInt (.ofNat n)).toModel.unpack = .finite .positive m e hc.pos := hunpack
      rw [hconverted] at hsame
      cases hsame
    | negSucc n =>
      -- negation turns the sign, and the mantissa stays positive
      obtain ⟨m, e, hc, he, hunpack, -⟩ := unpack_float_ofNat n.succ_pos ha
      have hconverted : (Float.ofInt (.negSucc n)).toModel.unpack = .finite .negative m e hc.pos := by
        show (Float.Model.pack (Float.ofNat n.succ).toModel.unpack.neg).unpack = _
        rw [hunpack]
        exact @Packing.unpack_pack true _ _ hc he
      rw [hconverted] at hsame
      cases hsame
  · rintro rfl
    exact .zero .positive .positive

end SealedScript
