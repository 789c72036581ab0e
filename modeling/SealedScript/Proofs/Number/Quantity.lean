/-
SealedScript/Proofs/Number/Quantity.lean

Floating point numbers as quantities.  A finite number is exactly ± m · 2^e, a
rational number.  Finite numbers are ordered as their quantities are, since of two
canonical numbers the one with the greater exponent is the greater.

Main results: `float_lt_iff`, `float_le_iff`.
-/
import SealedScript.Proofs.Number.Packing

namespace SealedScript

open Float.Model Float.Model.UnpackedFloat Rounding

/-- The quantity that a finite number is; what is no finite number counts as none. -/
def Binary64.quantity : Binary64 → ℚ
  | .finite negative m e => (if negative then -1 else 1) * (m * 2 ^ e)
  | .nan | .infinite _ => 0

/-- The quantity of a floating point number. -/
def quantity (x : Float) : ℚ := (Binary64.ofFloat x).quantity

/-- An unpacked number in canonical form is exactly the quantity. -/
inductive Denotes : UnpackedFloat → ℚ → Prop
  | zero (sign : Sign) : Denotes (.zero sign) 0
  | positive {m : ℕ} {e : ℤ} (hc : Canonical m e) : Denotes (.finite .positive m e hc.pos) (m * 2 ^ e)
  | negative {m : ℕ} {e : ℤ} (hc : Canonical m e) : Denotes (.finite .negative m e hc.pos) (-(m * 2 ^ e))

namespace Denotes

variable {u v : UnpackedFloat} {p q : ℚ}

theorem unique (h : Denotes u p) (h' : Denotes u q) : p = q := by
  cases h <;> cases h' <;> rfl

theorem isFinite (h : Denotes u p) : u.isFinite = true := by
  cases h <;> rfl

end Denotes

/-! ### From the bits -/

theorem Packing.unpack_zero {x : Float} {negative : Bool} {e : ℤ} (hx : Binary64.ofFloat x = .finite negative 0 e) :
    ∃ sign, x.toModel.unpack = .zero sign := by
  obtain ⟨hbits, -⟩ := ofBits_eq_finite x.toBits.toNat_lt hx
  have hbit : negative.toNat ≤ 1 := negative.toNat_le
  have hempty : bitsOf negative 0 e = negative.toNat * 2 ^ 63 := by simp [bitsOf]
  have hexponent : @unpackExponent Format.binary64 x.toModel.toBits.toBitVec = 0#_ := by
    refine BitVec.eq_of_toNat_eq ((toNat_unpackExponent _).trans ?_)
    show x.toBits.toNat / 2 ^ 52 % 2 ^ 11 = 0
    omega
  have hmantissa : @unpackMantissa Format.binary64 x.toModel.toBits.toBitVec = 0#_ := by
    refine BitVec.eq_of_toNat_eq ((toNat_unpackMantissa _).trans ?_)
    show x.toBits.toNat % 2 ^ 52 = 0
    omega
  have hfull : ¬ @unpackExponent Format.binary64 x.toModel.toBits.toBitVec = -1#_ := by
    rw [hexponent]
    decide
  refine ⟨Sign.ofBitVec (@unpackSign Format.binary64 x.toModel.toBits.toBitVec), ?_⟩
  show UnpackedFloat.unpack Format.binary64 x.toModel.toBits.toBitVec = _
  delta UnpackedFloat.unpack
  dsimp only
  rw [if_neg hfull, if_pos hexponent, dif_pos hmantissa]

/-- **A finite number is its quantity.** -/
theorem denotes_quantity {x : Float} (h : x.isFinite = true) : Denotes x.toModel.unpack (quantity x) := by
  obtain ⟨negative, m, e, hx⟩ := Packing.exists_finite h
  rw [quantity, hx, Binary64.quantity]
  rcases Nat.eq_zero_or_pos m with rfl | hm
  · obtain ⟨sign, hsign⟩ := Packing.unpack_zero hx
    rw [hsign, Nat.cast_zero, zero_mul, mul_zero]
    exact .zero sign
  · obtain ⟨hc, -, -⟩ := Packing.canonical_of_ofFloat hx hm
    rw [Packing.unpack_of_ofFloat hx hm]
    cases negative with
    | false =>
      rw [if_neg Bool.false_ne_true, one_mul]
      exact .positive hc
    | true =>
      rw [if_pos rfl, neg_one_mul]
      exact .negative hc

theorem quantity_eq {x : Float} {p : ℚ} (h : Denotes x.toModel.unpack p) : x.isFinite = true ∧ quantity x = p :=
  ⟨h.isFinite, (denotes_quantity h.isFinite).unique h⟩

/-- Finite numbers are bounded. -/
theorem Packing.exponent_le {x : Float} {sign : Sign} {m : ℕ} {e : ℤ} {hm : 0 < m}
    (h : x.toModel.unpack = .finite sign m e hm) : e ≤ 971 := by
  have hfinite : x.isFinite = true := congrArg UnpackedFloat.isFinite h
  obtain ⟨negative, m', e', hx⟩ := Packing.exists_finite hfinite
  rcases Nat.eq_zero_or_pos m' with rfl | hm'
  · obtain ⟨_, hzero⟩ := Packing.unpack_zero hx
    rw [hzero] at h
    cases h
  · rw [Packing.unpack_of_ofFloat hx hm'] at h
    cases h
    exact (Packing.canonical_of_ofFloat hx hm').2.1

/-! ### The order -/

variable {m m' : ℕ} {e e' : ℤ}

/-- A number lies below the power of two that its mantissa cannot reach. -/
theorem Rounding.Canonical.lt_pow (hc : Canonical m e) : (m : ℚ) * 2 ^ e < 2 ^ (53 + e) := by
  rw [zpow_add₀ two_ne_zero]
  gcongr
  exact_mod_cast hc.lt

/-- Above the least exponent a number reaches the power of two that its mantissa has. -/
theorem Rounding.Canonical.pow_le (hc : Canonical m e) (he : -1074 < e) : 2 ^ (52 + e) ≤ (m : ℚ) * 2 ^ e := by
  rw [zpow_add₀ two_ne_zero]
  gcongr
  exact_mod_cast hc.normal.resolve_right he.ne'

theorem Rounding.Canonical.quantity_pos (hc : Canonical m e) : (0 : ℚ) < m * 2 ^ e := by
  have := hc.pos
  positivity

/-- The greater exponent decides. -/
theorem Rounding.Canonical.lt_of_exponent_lt (hc : Canonical m e) (hc' : Canonical m' e') (h : e < e') :
    (m : ℚ) * 2 ^ e < m' * 2 ^ e' :=
  calc (m : ℚ) * 2 ^ e < 2 ^ (53 + e) := hc.lt_pow
    _ ≤ 2 ^ (52 + e') := zpow_le_zpow_right₀ one_le_two (by omega)
    _ ≤ m' * 2 ^ e' := hc'.pow_le (hc.least.trans_lt h)

theorem Rounding.Canonical.compare_eq (hc : Canonical m e) (hc' : Canonical m' e') :
    (compare e e').then (compare m m') = compare ((m : ℚ) * 2 ^ e) (m' * 2 ^ e') := by
  rcases lt_trichotomy e e' with hlt | rfl | hgt
  · rw [compare_lt_iff_lt.2 hlt, compare_lt_iff_lt.2 (hc.lt_of_exponent_lt hc' hlt)]
    rfl
  · have hpos : (0 : ℚ) < 2 ^ e := by positivity
    rw [compare_eq_iff_eq.2 rfl, Ordering.eq_then]
    rcases lt_trichotomy m m' with hlt | rfl | hgt
    · rw [compare_lt_iff_lt.2 hlt, compare_lt_iff_lt.2]
      exact mul_lt_mul_of_pos_right (by exact_mod_cast hlt) hpos
    · rw [compare_eq_iff_eq.2 rfl, compare_eq_iff_eq.2 rfl]
    · rw [compare_gt_iff_gt.2 hgt, compare_gt_iff_gt.2]
      exact mul_lt_mul_of_pos_right (by exact_mod_cast hgt) hpos
  · rw [compare_gt_iff_gt.2 hgt, compare_gt_iff_gt.2 (hc'.lt_of_exponent_lt hc hgt)]
    rfl

theorem compare_neg_neg (p q : ℚ) : compare (-p) (-q) = compare q p := by
  rcases lt_trichotomy p q with hlt | rfl | hgt
  · rw [compare_gt_iff_gt.2 (neg_lt_neg hlt), compare_gt_iff_gt.2 hlt]
  · rw [compare_eq_iff_eq.2 rfl, compare_eq_iff_eq.2 rfl]
  · rw [compare_lt_iff_lt.2 (neg_lt_neg hgt), compare_lt_iff_lt.2 hgt]

/-- **Numbers are compared as their quantities are.** -/
theorem Denotes.compare_eq {u v : UnpackedFloat} {p q : ℚ} (hu : Denotes u p) (hv : Denotes v q) :
    u.compare v = some (compare p q) := by
  cases hu with
  | zero =>
    cases hv with
    | zero => rfl
    | positive hc => exact congrArg some (compare_lt_iff_lt.2 hc.quantity_pos).symm
    | negative hc => exact congrArg some (compare_gt_iff_gt.2 (neg_neg_of_pos hc.quantity_pos)).symm
  | positive hc =>
    cases hv with
    | zero => exact congrArg some (compare_gt_iff_gt.2 hc.quantity_pos).symm
    | positive hc' => exact congrArg some (hc.compare_eq hc')
    | negative hc' =>
      exact congrArg some (compare_gt_iff_gt.2 ((neg_neg_of_pos hc'.quantity_pos).trans hc.quantity_pos)).symm
  | negative hc =>
    cases hv with
    | zero => exact congrArg some (compare_lt_iff_lt.2 (neg_neg_of_pos hc.quantity_pos)).symm
    | positive hc' =>
      exact congrArg some (compare_lt_iff_lt.2 ((neg_neg_of_pos hc.quantity_pos).trans hc'.quantity_pos)).symm
    | negative hc' =>
      refine congrArg some ?_
      rw [hc.compare_eq hc', ← Std.OrientedOrd.eq_swap]
      exact (compare_neg_neg _ _).symm

/-! ### Floating point numbers -/

variable {x y : Float}

theorem float_lt_iff_compare : x < y ↔ x.toModel.unpack.compare y.toModel.unpack = some .lt := by
  show decide (x.toModel < y.toModel) = true ↔ _
  rw [decide_eq_true_iff]
  show (x.toModel.unpack.compare y.toModel.unpack == some .lt) = true ↔ _
  exact beq_iff_eq

theorem float_le_iff_compare : x ≤ y ↔ (x.toModel.unpack.compare y.toModel.unpack).any (·.isLE) = true := by
  show decide (x.toModel ≤ y.toModel) = true ↔ _
  exact decide_eq_true_iff

theorem float_lt_iff (hx : x.isFinite = true) (hy : y.isFinite = true) : x < y ↔ quantity x < quantity y := by
  rw [float_lt_iff_compare, (denotes_quantity hx).compare_eq (denotes_quantity hy), Option.some_inj, compare_lt_iff_lt]

theorem float_le_iff (hx : x.isFinite = true) (hy : y.isFinite = true) : x ≤ y ↔ quantity x ≤ quantity y := by
  rw [float_le_iff_compare, (denotes_quantity hx).compare_eq (denotes_quantity hy), Option.any_some,
    Ordering.isLE_iff_ne_gt]
  exact compare_le_iff_le

theorem denotes_float_zero : Denotes (0 : Float).toModel.unpack 0 := .zero .positive

theorem float_nonneg_iff (hx : x.isFinite = true) : 0 ≤ x ↔ 0 ≤ quantity x := by
  obtain ⟨hfinite, hzero⟩ := quantity_eq denotes_float_zero
  rw [float_le_iff hfinite hx, hzero]

/-- What is not below zero and does not exceed a finite number is finite. -/
theorem isFinite_of_bounds (hy : y.isFinite = true) (hlow : 0 ≤ x) (hhigh : ¬ y < x) : x.isFinite = true := by
  show x.toModel.unpack.isFinite = true
  rw [float_le_iff_compare] at hlow
  rw [float_lt_iff_compare] at hhigh
  have hunpack : y.toModel.unpack.isFinite = true := hy
  generalize x.toModel.unpack = u at hlow hhigh ⊢
  cases u with
  | finite _ _ _ _ | zero _ => rfl
  | notANumber => cases hlow
  | infinity sign =>
    cases sign with
    | negative => cases hlow
    | positive =>
      -- every finite number lies below the infinity
      refine absurd ?_ hhigh
      generalize y.toModel.unpack = v at hunpack
      cases v with
      | finite sign _ _ _ => cases sign <;> rfl
      | zero sign => cases sign <;> rfl
      | notANumber | infinity _ => cases hunpack

end SealedScript
