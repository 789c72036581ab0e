/-
SealedScript/Proofs/Number/Subtraction.lean

Subtraction of floating point numbers.  The difference of two quantities is rounded to
53 bits: what comes out is off by one part in 2^53 at most, and rounding does not pass
over a quantity that fits.  So a smaller number can be taken off a greater one: the
rest is finite, not negative and not greater than what there was, and it is exact
where the difference fits.

Main results: `Rounding.rounded_round`, `float_sub`.
-/
import SealedScript.Proofs.Number.Quantity

namespace SealedScript

open Float.Model Float.Model.UnpackedFloat

namespace Rounding

/-! ### Nearest whole numbers -/

variable {x y p : ℚ} {k r : ℕ}

/-- Some whole number is nearest. -/
theorem exists_nearest (hx : 0 ≤ x) : ∃ r, Nearest r x := by
  have hlow : (⌊x⌋₊ : ℚ) ≤ x := Nat.floor_le hx
  have hhigh : x < ⌊x⌋₊ + 1 := Nat.lt_floor_add_one x
  rcases lt_trichotomy x (⌊x⌋₊ + 1 / 2) with hless | hhalf | hmore
  · exact ⟨⌊x⌋₊, by linarith, hless.le, by rintro (h | h) <;> linarith⟩
  · -- of two that are equally near the even one is taken
    rcases Nat.mod_two_eq_zero_or_one ⌊x⌋₊ with heven | hodd
    · exact ⟨⌊x⌋₊, by linarith, hhalf.le, fun _ => heven⟩
    · exact ⟨⌊x⌋₊ + 1, by push_cast; linarith, by push_cast; linarith, fun _ => by omega⟩
  · exact ⟨⌊x⌋₊ + 1, by push_cast; linarith, by push_cast; linarith, by rintro (h | h) <;> push_cast at h <;> linarith⟩

theorem Nearest.le_of_le (hr : Nearest r x) (h : x ≤ k) : r ≤ k := by
  have hlt : (r : ℚ) < k + 1 := by linarith [hr.low]
  exact Nat.lt_succ_iff.1 (by exact_mod_cast hlt)

theorem Nearest.ge_of_ge (hr : Nearest r x) (h : k ≤ x) : k ≤ r := by
  have hlt : (k : ℚ) < r + 1 := by linarith [hr.high]
  exact Nat.lt_succ_iff.1 (by exact_mod_cast hlt)

/-! ### Quantities that fit -/

/-- The quantity has 53 bits at most, none of them below the least exponent. -/
def Fits (p : ℚ) : Prop := ∃ (k : ℕ) (j : ℤ), k ≤ 2 ^ 53 ∧ -1074 ≤ j ∧ p = k * 2 ^ j

theorem fits_zero : Fits 0 := ⟨0, 0, by decide, by decide, by simp⟩

theorem Canonical.fits {m : ℕ} {e : ℤ} (hc : Canonical m e) : Fits (m * 2 ^ e) := ⟨m, e, hc.lt.le, hc.least, rfl⟩

theorem mul_pow_eq_units (n : ℕ) {e t : ℤ} (hte : t ≤ e) : (n : ℚ) * 2 ^ e = (n * 2 ^ (e - t).toNat : ℕ) * 2 ^ t := by
  have hexponent : e = ((e - t).toNat : ℤ) + t := by omega
  rw [Nat.cast_mul, Nat.cast_pow, Nat.cast_ofNat, mul_assoc, ← zpow_natCast, ← zpow_add₀ two_ne_zero, ← hexponent]

theorem pow_add_eq_units (t : ℤ) : (2 : ℚ) ^ (52 + t) = (2 ^ 52 : ℕ) * 2 ^ t := by
  rw [zpow_add₀ two_ne_zero]
  norm_num

/-- What fits is a whole number of units in every binade that it reaches. -/
theorem Fits.exists_units {t : ℤ} (hp : Fits p) (ht : t = -1074 ∨ 2 ^ (52 + t) ≤ p) : ∃ n : ℕ, p = n * 2 ^ t := by
  obtain ⟨k, j, hk, hj, rfl⟩ := hp
  by_cases htj : t ≤ j
  · exact ⟨_, mul_pow_eq_units k htj⟩
  · -- only the power of two at the lower end of the binade has bits that are finer
    have hlow : (2 : ℚ) ^ (52 + t) ≤ k * 2 ^ j := ht.resolve_left (by omega)
    have hhigh : (k : ℚ) * 2 ^ j ≤ 2 ^ (52 + t) :=
      calc (k : ℚ) * 2 ^ j ≤ 2 ^ (53 : ℤ) * 2 ^ j := by
            gcongr
            exact_mod_cast hk
        _ = 2 ^ (53 + j) := (zpow_add₀ two_ne_zero _ _).symm
        _ ≤ 2 ^ (52 + t) := zpow_le_zpow_right₀ one_le_two (by omega)
    exact ⟨2 ^ 52, (le_antisymm hhigh hlow).trans (pow_add_eq_units t)⟩

/-- `y` is what nearest rounding makes of the quantity `x`. -/
structure Rounded (x y : ℚ) : Prop where
  error : |y - x| ≤ x / 2 ^ 53
  le_of_le : ∀ {p}, Fits p → x ≤ p → y ≤ p
  ge_of_ge : ∀ {p}, Fits p → p ≤ x → p ≤ y

theorem Rounded.exact (h : Rounded x y) (hx : Fits x) : y = x :=
  le_antisymm (h.le_of_le hx le_rfl) (h.ge_of_ge hx le_rfl)

theorem rounded_self (hx : 0 ≤ x) : Rounded x x := by
  refine ⟨?_, fun _ h => h, fun _ h => h⟩
  rw [sub_self, abs_zero]
  positivity

/-! ### Rounding to whole units -/

variable {n : ℕ} {e t : ℤ}

/-- The quantity is rounded to whole units of `2 ^ t`: it has 53 bits of them, or the unit is the least and
the quantity is a whole number of them already. -/
structure Binade (x : ℚ) (t : ℤ) : Prop where
  least : -1074 ≤ t
  high : x / 2 ^ t < 2 ^ 53
  low : 2 ^ (52 + t) ≤ x ∨ t = -1074 ∧ ∃ units : ℕ, 0 < units ∧ x = units * 2 ^ t

namespace Binade

theorem normal (h : Binade x t) : ((2 ^ 52 : ℕ) : ℚ) ≤ x / 2 ^ t ∨ t = -1074 := by
  refine h.low.imp (fun hlong => ?_) And.left
  rwa [le_div_iff₀ (by positivity), ← pow_add_eq_units]

theorem reaches (h : Binade x t) : t = -1074 ∨ 2 ^ (52 + t) ≤ x := h.low.symm.imp_left And.left

/-- The nearest number of units is off by half a unit, and not at all if the unit is the least. -/
theorem error_le (h : Binade x t) (hr : Nearest r (x / 2 ^ t)) : |(r : ℚ) * 2 ^ t - x| ≤ x / 2 ^ 53 := by
  have hunit : (0 : ℚ) < 2 ^ t := by positivity
  rcases h.low with hlong | ⟨-, units, -, rfl⟩
  · have hscale : x = x / 2 ^ t * 2 ^ t := (div_mul_cancel₀ _ hunit.ne').symm
    have herror : |(r : ℚ) - x / 2 ^ t| ≤ 1 / 2 := by
      rw [abs_le]
      constructor <;> linarith [hr.low, hr.high]
    calc |(r : ℚ) * 2 ^ t - x| = |(r : ℚ) - x / 2 ^ t| * 2 ^ t := by
          rw [← abs_of_pos hunit, ← abs_mul, abs_of_pos hunit, sub_mul, ← hscale]
      _ ≤ 1 / 2 * 2 ^ t := by gcongr
      _ = 2 ^ (52 + t) / 2 ^ 53 := by
        rw [pow_add_eq_units]
        norm_num
        ring
      _ ≤ x / 2 ^ 53 := by gcongr
  · rw [mul_div_cancel_right₀ _ hunit.ne'] at hr
    have hexact : r = units := le_antisymm (hr.le_of_le le_rfl) (hr.ge_of_ge le_rfl)
    rw [hexact, sub_self, abs_zero]
    positivity

theorem le_of_fits (h : Binade x t) (hr : Nearest r (x / 2 ^ t)) (hp : Fits p) (hxp : x ≤ p) : r * 2 ^ t ≤ p := by
  obtain ⟨units, rfl⟩ := hp.exists_units (h.reaches.imp_right fun hlow => hlow.trans hxp)
  rw [← div_le_iff₀ (by positivity)] at hxp
  gcongr
  exact hr.le_of_le hxp

theorem ge_of_fits (h : Binade x t) (hr : Nearest r (x / 2 ^ t)) (hp : Fits p) (hpx : p ≤ x) : p ≤ r * 2 ^ t := by
  by_cases hreach : t = -1074 ∨ 2 ^ (52 + t) ≤ p
  · obtain ⟨units, rfl⟩ := hp.exists_units hreach
    rw [← le_div_iff₀ (by positivity)] at hpx
    gcongr
    exact hr.ge_of_ge hpx
  · -- what fits below the binade is below all of its numbers
    rw [not_or, not_le] at hreach
    calc p ≤ 2 ^ (52 + t) := hreach.2.le
      _ = (2 ^ 52 : ℕ) * 2 ^ t := pow_add_eq_units t
      _ ≤ r * 2 ^ t := by
        gcongr
        exact hr.ge_of_ge (h.normal.resolve_right hreach.1)

/-- Whatever is nearest in units is what rounding makes of the quantity. -/
theorem rounded (h : Binade x t) (hr : Nearest r (x / 2 ^ t)) : Rounded x (r * 2 ^ t) :=
  ⟨h.error_le hr, h.le_of_fits hr, h.ge_of_fits hr⟩

theorem nearest_pos (h : Binade x t) (hr : Nearest r (x / 2 ^ t)) : 0 < r := by
  rcases h.low with hlong | ⟨-, units, hunits, rfl⟩
  · rw [pow_add_eq_units, ← le_div_iff₀ (by positivity)] at hlong
    exact (Nat.two_pow_pos 52).trans_le (hr.ge_of_ge hlong)
  · rw [mul_div_cancel_right₀ _ (by positivity)] at hr
    exact hunits.trans_le (hr.ge_of_ge le_rfl)

/-- The nearest whole number of units has 53 bits, or else it is 2^53 and is halved. -/
theorem exists_settle (h : Binade x t) (hr : Nearest r (x / 2 ^ t)) :
    ∃ (m : ℕ) (e : ℤ) (hc : Canonical m e),
      settle .positive r t = .finite .positive m e hc.pos ∧ (m : ℚ) * 2 ^ e = r * 2 ^ t := by
  have hpos : 0 < r := h.nearest_pos hr
  have hle : r ≤ 2 ^ 53 := hr.le_of_le (by exact_mod_cast h.high.le)
  have hleast := h.least
  rcases hle.lt_or_eq with hlt | rfl
  · exact ⟨r, t, ⟨hpos, hlt, hleast, h.normal.imp_left hr.ge_of_ge⟩, settle_of_lt hpos hlt hleast, rfl⟩
  · refine ⟨2 ^ 52, t + 1, ⟨by decide, by decide, by omega, .inl le_rfl⟩, settle_carry hleast, ?_⟩
    rw [zpow_add_one₀ two_ne_zero]
    push_cast
    ring

/-- Units that are fine enough are rounded once, to what nearest rounding makes of them. -/
theorem exists_round {s : ℤ} (h : Binade (n * 2 ^ s) t) (hs : s ≤ t) :
    ∃ (m : ℕ) (e : ℤ) (hc : Canonical m e),
      roundWithAccuracy Format.binary64 .positive n s .exact = .finite .positive m e hc.pos ∧
        Rounded (n * 2 ^ s) (m * 2 ^ e) := by
  obtain ⟨r, hr⟩ := exists_nearest (x := (n : ℚ) * 2 ^ s / 2 ^ t) (by positivity)
  obtain ⟨m, e, hc, hsettle, hvalue⟩ := h.exists_settle hr
  refine ⟨m, e, hc, ?_, hvalue ▸ h.rounded hr⟩
  rw [← hsettle]
  refine round_eq_settle ?_ hs h.least h.high ?_ hr
  · rw [mul_div_cancel_right₀ _ (by positivity)]
    exact describes_exact n
  · exact h.normal.imp_left fun h => by exact_mod_cast h

end Binade

/-! ### Rounding to 53 bits -/

/-- A number of bits is rounded in the binade of its leading bit. -/
theorem binade_target (hn : 0 < n) (he : -1074 ≤ e) :
    Binade (n * 2 ^ e) (Format.binary64.targetExponent (totalExponent n e)) := by
  rw [targetExponent_eq, totalExponent]
  obtain ⟨t, ht⟩ : ∃ t, max ((n.log2 : ℤ) + 1 + e - 53) (-1074) = t := ⟨_, rfl⟩
  rw [ht]
  refine ⟨by omega, ?_, ?_⟩
  · rw [div_lt_iff₀ (by positivity), ← zpow_natCast, ← zpow_add₀ two_ne_zero]
    calc (n : ℚ) * 2 ^ e < 2 ^ ((n.log2 + 1 : ℕ) + e) := by
          rw [zpow_add₀ two_ne_zero, zpow_natCast]
          gcongr
          exact_mod_cast Nat.lt_log2_self
      _ ≤ 2 ^ ((53 : ℕ) + t) := zpow_le_zpow_right₀ one_le_two (by push_cast; omega)
  · by_cases hleast : t = -1074
    · exact .inr ⟨hleast, _, by positivity, mul_pow_eq_units n (by omega)⟩
    · left
      calc (2 : ℚ) ^ (52 + t) ≤ 2 ^ (n.log2 + e) := zpow_le_zpow_right₀ one_le_two (by omega)
        _ ≤ n * 2 ^ e := by
          rw [zpow_add₀ two_ne_zero, zpow_natCast]
          gcongr
          exact_mod_cast Nat.log2_self_le hn.ne'

/-- **A quantity is rounded to 53 bits.** -/
theorem rounded_round (hn : 0 < n) (he : -1074 ≤ e) :
    ∃ (m : ℕ) (e' : ℤ) (hc : Canonical m e'),
      UnpackedFloat.round Format.binary64 .positive n e = .finite .positive m e' hc.pos ∧
        Rounded (n * 2 ^ e) (m * 2 ^ e') := by
  have hbinade := binade_target hn he
  rw [UnpackedFloat.round]
  generalize Format.binary64.targetExponent (totalExponent n e) = t at hbinade
  have hshifted : (n : ℚ) * 2 ^ e = (n <<< (e - t).toNat : ℕ) * 2 ^ (e - ((e - t).toNat : ℤ)) := by
    rw [zpow_sub₀ two_ne_zero, zpow_natCast, Nat.shiftLeft_eq]
    push_cast
    field_simp
  rw [hshifted] at hbinade ⊢
  exact hbinade.exists_round (by omega)

end Rounding

/-! ### Differences -/

open Rounding

/-- A whole number of units is rounded, and none of them are a zero. -/
theorem exists_normalize (n : ℕ) {e : ℤ} (he : -1074 ≤ e) :
    ∃ d, Denotes (UnpackedFloat.normalize Format.binary64 n e .positive) d ∧ Rounded (n * 2 ^ e) d := by
  rcases Nat.eq_zero_or_pos n with rfl | hn
  · have hnone : ((0 : ℕ) : ℚ) * 2 ^ e = 0 := by rw [Nat.cast_zero, zero_mul]
    rw [hnone]
    exact ⟨0, .zero _, rounded_self le_rfl⟩
  · have hcompare : compare (n : ℤ) 0 = .gt := Int.compare_eq_gt.2 (by omega)
    obtain ⟨m, e', hc, hround, hrounded⟩ := rounded_round hn he
    rw [UnpackedFloat.normalize, hcompare]
    dsimp only
    rw [Int.toNat_natCast, hround]
    exact ⟨_, .positive hc, hrounded⟩

/-- Two numbers are whole numbers of units at the smaller exponent, and so is their difference. -/
theorem exists_sub {m m' : ℕ} {e e' : ℤ} (hc : Canonical m e) (hc' : Canonical m' e')
    (hle : (m' : ℚ) * 2 ^ e' ≤ m * 2 ^ e) :
    ∃ d, Denotes (UnpackedFloat.sub Format.binary64 (.finite .positive m e hc.pos)
        (.finite .positive m' e' hc'.pos)) d ∧
      Rounded (m * 2 ^ e - m' * 2 ^ e') d := by
  have hsub : UnpackedFloat.sub Format.binary64 (.finite .positive m e hc.pos) (.finite .positive m' e' hc'.pos)
      = UnpackedFloat.normalize Format.binary64
          ((m * 2 ^ (e - min e e').toNat : ℕ) - (m' * 2 ^ (e' - min e e').toNat : ℕ)) (min e e') .positive := by
    rw [← Nat.shiftLeft_eq, ← Nat.shiftLeft_eq]
    rfl
  rw [mul_pow_eq_units m (min_le_left e e'), mul_pow_eq_units m' (min_le_right e e')] at hle ⊢
  rw [hsub]
  generalize m * 2 ^ (e - min e e').toNat = a, m' * 2 ^ (e' - min e e').toNat = b at hle ⊢
  have hba : b ≤ a := by exact_mod_cast le_of_mul_le_mul_right hle (by positivity)
  obtain ⟨n, rfl⟩ := Nat.exists_eq_add_of_le hba
  have hrest : ((b + n : ℕ) : ℤ) - b = n := by omega
  have hdifference : ((b + n : ℕ) : ℚ) * 2 ^ min e e' - b * 2 ^ min e e' = n * 2 ^ min e e' := by
    push_cast
    ring
  rw [hrest, hdifference]
  exact exists_normalize n (le_min hc.least hc'.least)

theorem Denotes.sub {u v : UnpackedFloat} {p q : ℚ} (hu : Denotes u p) (hv : Denotes v q) (hq : 0 ≤ q) (hqp : q ≤ p) :
    ∃ d, Denotes (UnpackedFloat.sub Format.binary64 u v) d ∧ Rounded (p - q) d := by
  cases hv with
  | negative hc => exact absurd hq (not_le.2 (neg_neg_of_pos hc.quantity_pos))
  | zero sign =>
    rw [sub_zero]
    cases hu with
    | negative hc => exact absurd hqp (not_le.2 (neg_neg_of_pos hc.quantity_pos))
    | zero sign' =>
      refine ⟨0, ?_, rounded_self le_rfl⟩
      rw [UnpackedFloat.sub]
      split <;> exact .zero _
    | positive hc => exact ⟨_, .positive hc, rounded_self hc.quantity_pos.le⟩
  | positive hc' =>
    cases hu with
    | negative hc => exact absurd (hq.trans hqp) (not_le.2 (neg_neg_of_pos hc.quantity_pos))
    | zero sign => exact absurd hqp (not_le.2 hc'.quantity_pos)
    | positive hc => exact exists_sub hc hc' hqp

/-- What is not greater than a number can be packed. -/
theorem Denotes.unpack_pack {u : UnpackedFloat} {d : ℚ} (hu : Denotes u d) (hd : 0 ≤ d) {x : Float}
    (hx : x.isFinite = true) (hdx : d ≤ quantity x) : (Float.Model.pack u).unpack = u := by
  cases hu with
  | zero sign => cases sign <;> rfl
  | negative hc => exact absurd hd (not_le.2 (neg_neg_of_pos hc.quantity_pos))
  | @positive m e hc =>
    refine @Packing.unpack_pack false m e hc ?_
    have hdenotes := denotes_quantity hx
    generalize hu : x.toModel.unpack = u, quantity x = p at hdenotes hdx
    cases hdenotes with
    | zero sign => exact absurd hdx (not_le.2 hc.quantity_pos)
    | negative hc' => exact absurd (hd.trans hdx) (not_le.2 (neg_neg_of_pos hc'.quantity_pos))
    | positive hc' =>
      refine le_trans ?_ (Packing.exponent_le hu)
      by_contra hlt
      exact absurd hdx (not_le.2 (hc'.lt_of_exponent_lt hc (not_le.1 hlt)))

theorem fits_quantity {x : Float} (hx : x.isFinite = true) (hnonneg : 0 ≤ quantity x) : Fits (quantity x) := by
  have hdenotes := denotes_quantity hx
  generalize x.toModel.unpack = u, quantity x = p at hdenotes hnonneg
  cases hdenotes with
  | zero sign => exact fits_zero
  | positive hc => exact hc.fits
  | negative hc => exact absurd hnonneg (not_le.2 (neg_neg_of_pos hc.quantity_pos))

/-- **Taking a smaller number off a greater one.**  The rest is finite, between zero and what there was, and
the rounded difference. -/
theorem float_sub {x y : Float} (hx : x.isFinite = true) (hy : y.isFinite = true) (hnonneg : 0 ≤ quantity y)
    (hle : quantity y ≤ quantity x) :
    (x - y).isFinite = true ∧ Rounded (quantity x - quantity y) (quantity (x - y)) ∧
      0 ≤ quantity (x - y) ∧ quantity (x - y) ≤ quantity x := by
  obtain ⟨d, hdenotes, hrounded⟩ := (denotes_quantity hx).sub (denotes_quantity hy) hnonneg hle
  have hlow : 0 ≤ d := hrounded.ge_of_ge fits_zero (by linarith)
  have hhigh : d ≤ quantity x := hrounded.le_of_le (fits_quantity hx (by linarith)) (by linarith)
  have hunpack : (x - y).toModel.unpack = UnpackedFloat.sub Format.binary64 x.toModel.unpack y.toModel.unpack :=
    hdenotes.unpack_pack hlow hx hhigh
  obtain ⟨hfinite, hquantity⟩ := quantity_eq (hunpack ▸ hdenotes)
  rw [hquantity]
  exact ⟨hfinite, hrounded, hlow, hhigh⟩

end SealedScript
