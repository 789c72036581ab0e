/-
SealedScript/Proofs/Number/Rounding.lean

Rounding to the nearest floating point number.  A number is rounded from a mantissa
that is known to more bits than are kept and from what was cut off behind it; bits
are dropped one by one, and a round bit and a sticky bit remember as much of them as
nearest rounding needs.  The numbers that are rounded to m · 2^e form an interval
around it, half a unit to either side but only a quarter below a power of two.

Main results: `Rounding.round_eq`, `Rounding.div_eq`.
-/
import Mathlib

namespace SealedScript

open Float.Model Float.Model.UnpackedFloat

namespace Rounding

/-! ### Round bit and sticky bit -/

/-- What a mantissa with its two residual bits tells about the number that is rounded:
its whole part, whether a half or more is cut off, and whether what is cut off is
neither nothing nor exactly a half. -/
structure Describes (em : ExtendedMantissa) (x : ℚ) : Prop where
  mantissa_le : em.mantissa ≤ x
  lt_succ : x < em.mantissa + 1
  roundBit_iff : em.roundBit = true ↔ em.mantissa + 1 / 2 ≤ x
  stickyBit_iff : em.stickyBit = true ↔ x ≠ em.mantissa ∧ x ≠ em.mantissa + 1 / 2

namespace Describes

variable {em : ExtendedMantissa} {x : ℚ}

/-- Some bit is set iff anything is cut off. -/
theorem bits_iff (h : Describes em x) : (em.roundBit || em.stickyBit) = true ↔ x ≠ em.mantissa := by
  rw [Bool.or_eq_true, h.roundBit_iff, h.stickyBit_iff]
  constructor
  · rintro (hround | ⟨hne, -⟩)
    · intro heq
      linarith
    · exact hne
  · intro hne
    by_cases hhalf : x = em.mantissa + 1 / 2
    · exact .inl hhalf.ge
    · exact .inr ⟨hne, hhalf⟩

/-- Dropping one bit: the last bit of the mantissa becomes the round bit. -/
theorem shiftRightOne (h : Describes em x) : Describes em.shiftRightOne (x / 2) := by
  have hle := h.mantissa_le
  have hlt := h.lt_succ
  have hsplit : (em.mantissa : ℚ) = 2 * (em.mantissa / 2 : ℕ) + (em.mantissa % 2 : ℕ) := by
    exact_mod_cast (Nat.div_add_mod em.mantissa 2).symm
  rcases Nat.mod_two_eq_zero_or_one em.mantissa with hlast | hlast <;> rw [hlast] at hsplit <;> push_cast at hsplit
  · refine ⟨?_, ?_, ?_, ?_⟩ <;> simp only [ExtendedMantissa.shiftRightOne, h.bits_iff, hlast]
    · linarith
    · linarith
    · exact iff_of_false (by decide) (by linarith)
    · refine ⟨fun hne => ⟨fun heq => hne (by linarith), fun heq => by linarith⟩, fun hne heq => hne.1 (by linarith)⟩
  · refine ⟨?_, ?_, ?_, ?_⟩ <;> simp only [ExtendedMantissa.shiftRightOne, h.bits_iff, hlast]
    · linarith
    · linarith
    · exact iff_of_true (by decide) (by linarith)
    · refine ⟨fun hne => ⟨fun heq => by linarith, fun heq => hne (by linarith)⟩, fun hne heq => hne.2 (by linarith)⟩

theorem shiftRight (h : Describes em x) (n : ℕ) : Describes (em >>> n) (x / 2 ^ n) := by
  induction n with
  | zero =>
    rw [pow_zero, div_one]
    exact h
  | succ n ih =>
    rw [pow_succ, ← div_div]
    exact ih.shiftRightOne

end Describes

theorem describes_exact (m : ℕ) : Describes ⟨m, false, false⟩ m :=
  ⟨le_rfl, by linarith, iff_of_false Bool.false_ne_true (by linarith),
    iff_of_false Bool.false_ne_true fun h => h.1 rfl⟩

theorem describes_less {m : ℕ} {x : ℚ} (hlow : m < x) (hhigh : x < m + 1 / 2) : Describes ⟨m, false, true⟩ x :=
  ⟨hlow.le, by linarith, iff_of_false Bool.false_ne_true (by linarith), iff_of_true rfl ⟨hlow.ne', hhigh.ne⟩⟩

theorem describes_half (m : ℕ) : Describes ⟨m, true, false⟩ (m + 1 / 2) :=
  ⟨by linarith, by linarith, iff_of_true rfl le_rfl, iff_of_false Bool.false_ne_true fun h => h.2 rfl⟩

theorem describes_more {m : ℕ} {x : ℚ} (hlow : m + 1 / 2 < x) (hhigh : x < m + 1) : Describes ⟨m, true, true⟩ x :=
  ⟨by linarith, hhigh, iff_of_true rfl hlow.le, iff_of_true rfl ⟨fun heq => by linarith, hlow.ne'⟩⟩

/-- A quotient is described by its whole part and by the remainder. -/
theorem describes_quotient (num : ℕ) {den : ℕ} (hden : 0 < den) :
    Describes (.ofMantissaAndAccuracy (num / den) (accuracyOfFraction (num % den) den)) ((num : ℚ) / den) := by
  have hpos : (0 : ℚ) < den := by exact_mod_cast hden
  have hquotient : (num : ℚ) / den = (num / den : ℕ) + (num % den : ℕ) / den := by
    rw [div_eq_iff hpos.ne', add_mul, div_mul_cancel₀ _ hpos.ne', mul_comm]
    exact_mod_cast (Nat.div_add_mod num den).symm
  have hrest : ((num % den : ℕ) : ℚ) / den < 1 := by
    rw [div_lt_one hpos]
    exact_mod_cast Nat.mod_lt num hden
  rw [hquotient]
  generalize num / den = low
  generalize num % den = rest at *
  rw [accuracyOfFraction]
  by_cases hzero : rest = 0
  · rw [if_pos hzero, hzero, Nat.cast_zero, zero_div, add_zero]
    exact describes_exact low
  · rw [if_neg hzero]
    have hrestPos : 0 < (rest : ℚ) / den := div_pos (by exact_mod_cast Nat.pos_of_ne_zero hzero) hpos
    rcases lt_trichotomy (2 * rest) den with hlt | heq | hgt
    · have hhalf : (rest : ℚ) / den < 1 / 2 := by
        rw [div_lt_div_iff₀ hpos two_pos, one_mul, mul_comm]
        exact_mod_cast hlt
      rw [Nat.compare_eq_lt.2 hlt]
      exact describes_less (by linarith) (by linarith)
    · have hhalf : (rest : ℚ) / den = 1 / 2 := by
        rw [div_eq_div_iff hpos.ne' two_ne_zero, one_mul, mul_comm]
        exact_mod_cast heq
      rw [Nat.compare_eq_eq.2 heq, hhalf]
      exact describes_half low
    · have hhalf : 1 / 2 < (rest : ℚ) / den := by
        rw [div_lt_div_iff₀ two_pos hpos, one_mul, mul_comm]
        exact_mod_cast hgt
      rw [Nat.compare_eq_gt.2 hgt]
      exact describes_more (by linarith) (by linarith)

/-! ### Nearest whole numbers -/

/-- The whole number that is nearest, the even one of two that are equally near. -/
structure Nearest (n : ℕ) (x : ℚ) : Prop where
  low : n - 1 / 2 ≤ x
  high : x ≤ n + 1 / 2
  even : x = n - 1 / 2 ∨ x = n + 1 / 2 → n % 2 = 0

theorem eq_of_lt_succ {m n : ℕ} (hmn : (m : ℚ) < n + 1) (hnm : (n : ℚ) < m + 1) : m = n := by
  have hmn : m < n + 1 := by exact_mod_cast hmn
  have hnm : n < m + 1 := by exact_mod_cast hnm
  omega

theorem Describes.roundedMantissa_eq {em : ExtendedMantissa} {x : ℚ} (h : Describes em x) {n : ℕ} (hn : Nearest n x) :
    em.roundedMantissa = n := by
  obtain ⟨m, roundBit, stickyBit⟩ := em
  obtain ⟨hle, hlt, hround, hsticky⟩ := h
  obtain ⟨hlow, hhigh, heven⟩ := hn
  dsimp only at *
  cases roundBit with
  | false =>
    -- less than a half is cut off
    have hhalf : x < m + 1 / 2 := not_le.1 (mt hround.2 Bool.false_ne_true)
    have hrounded : ExtendedMantissa.roundedMantissa ⟨m, false, stickyBit⟩ = m := by cases stickyBit <;> rfl
    rw [hrounded]
    exact eq_of_lt_succ (by linarith) (by linarith)
  | true =>
    have hhalf : m + 1 / 2 ≤ x := hround.1 rfl
    cases stickyBit with
    | true =>
      obtain ⟨-, hne⟩ := hsticky.1 rfl
      have hmore : m + 1 / 2 < x := lt_of_le_of_ne hhalf (Ne.symm hne)
      show m + 1 = n
      exact eq_of_lt_succ (by push_cast; linarith) (by push_cast; linarith)
    | false =>
      -- exactly a half is cut off, and both neighbours are equally near
      have hx : x = m + 1 / 2 := by
        by_contra hne
        exact Bool.false_ne_true (hsticky.2 ⟨fun heq => by linarith, hne⟩)
      have hmn : m < n + 1 := by exact_mod_cast (by linarith : (m : ℚ) < n + 1)
      have hnm : n < m + 2 := by exact_mod_cast (by linarith : (n : ℚ) < m + 2)
      have heven : n % 2 = 0 := by
        refine heven ?_
        rcases (by omega : n = m ∨ n = m + 1) with rfl | rfl
        · exact .inr hx
        · left
          push_cast
          linarith
      show m + m % 2 = n
      omega

/-! ### Rounding to 53 bits -/

theorem targetExponent_eq (total : ℤ) : Format.binary64.targetExponent total = max (total - 53) (-1074) := rfl

variable {sign : Sign} {m r : ℕ} {t e : ℤ} {accuracy : Accuracy} {x : ℚ}

/-- Bits are dropped until the exponent fits. -/
theorem shiftToTargetExponent_eq (h : Describes (.ofMantissaAndAccuracy m accuracy) (x / 2 ^ t)) (hte : t ≤ e)
    (htarget : Format.binary64.targetExponent (totalExponent m t) = e) :
    ∃ em, shiftToTargetExponent Format.binary64 m t accuracy = (em, e) ∧ Describes em (x / 2 ^ e) := by
  have hexponent : t + (e - t).toNat = e := by omega
  refine ⟨ExtendedMantissa.ofMantissaAndAccuracy m accuracy >>> (e - t).toNat, ?_, ?_⟩
  · rw [shiftToTargetExponent, htarget, shiftToExponent, hexponent]
  · have hshifted := h.shiftRight (e - t).toNat
    rwa [div_div, ← zpow_natCast, ← zpow_add₀ two_ne_zero, hexponent] at hshifted

/-- What is left to do after the mantissa was rounded: it may have become too long. -/
def settle (sign : Sign) (r : ℕ) (e : ℤ) : UnpackedFloat :=
  let (em, e) := shiftToTargetExponent Format.binary64 r e .exact
  if h : em.mantissa = 0 then .zero sign else .finite sign em.mantissa e (Nat.pos_of_ne_zero h)

theorem settle_of_lt (hpos : 0 < r) (hlt : r < 2 ^ 53) (hleast : -1074 ≤ e) :
    settle sign r e = .finite sign r e hpos := by
  have hlog : r.log2 < 53 := (Nat.log2_lt hpos.ne').2 hlt
  have htarget : (Format.binary64.targetExponent (totalExponent r e) - e).toNat = 0 := by
    rw [targetExponent_eq, totalExponent]
    omega
  have hshift : shiftToTargetExponent Format.binary64 r e .exact = (⟨r, false, false⟩, e) := by
    rw [shiftToTargetExponent, shiftToExponent, htarget]
    exact congrArg _ (add_zero e)
  rw [settle, hshift]
  exact dif_neg hpos.ne'

theorem settle_carry (hleast : -1074 ≤ e) : settle sign (2 ^ 53) e = .finite sign (2 ^ 52) (e + 1) (by decide) := by
  have htarget : (Format.binary64.targetExponent (totalExponent (2 ^ 53) e) - e).toNat = 1 := by
    rw [targetExponent_eq, totalExponent, Nat.log2_two_pow]
    omega
  have hshift : shiftToTargetExponent Format.binary64 (2 ^ 53) e .exact = (⟨2 ^ 52, false, false⟩, e + 1) := by
    rw [shiftToTargetExponent, shiftToExponent, htarget]
    rfl
  rw [settle, hshift]
  rfl

/-- A number is rounded at the exponent of its own binade, the least exponent at least. -/
theorem round_eq_settle (h : Describes (.ofMantissaAndAccuracy m accuracy) (x / 2 ^ t)) (hte : t ≤ e)
    (hleast : -1074 ≤ e) (hhigh : x / 2 ^ e < 2 ^ 53) (hlow : 2 ^ 52 ≤ x / 2 ^ e ∨ e = -1074)
    (hr : Nearest r (x / 2 ^ e)) : roundWithAccuracy Format.binary64 sign m t accuracy = settle sign r e := by
  obtain ⟨n, hn⟩ := Int.eq_ofNat_of_zero_le (sub_nonneg.2 hte)
  have hscale : x / 2 ^ t = x / 2 ^ e * 2 ^ n := by
    rw [show e = t + n by omega, zpow_add₀ two_ne_zero, zpow_natCast, ← div_div, div_mul_cancel₀ _ (by positivity)]
  have hfloor : (m : ℚ) ≤ x / 2 ^ t ∧ x / 2 ^ t < m + 1 := by
    cases accuracy with
    | exact => exact ⟨h.mantissa_le, h.lt_succ⟩
    | inexact side => cases side <;> exact ⟨h.mantissa_le, h.lt_succ⟩
  have hlt : m < 2 ^ (53 + n) := by
    have : (m : ℚ) < 2 ^ 53 * 2 ^ n := by
      refine hfloor.1.trans_lt ?_
      rw [hscale]
      gcongr
    rw [pow_add]
    exact_mod_cast this
  have hlog : m.log2 < 53 + n := by
    rcases Nat.eq_zero_or_pos m with rfl | hpos
    · rw [Nat.log2_zero]
      omega
    · exact (Nat.log2_lt hpos.ne').2 hlt
  have htarget : Format.binary64.targetExponent (totalExponent m t) = e := by
    rw [targetExponent_eq, totalExponent]
    rcases hlow with hlow | hlow
    · have hge : 2 ^ (52 + n) ≤ m := by
        have : (2 : ℚ) ^ 52 * 2 ^ n < m + 1 := by
          refine lt_of_le_of_lt ?_ hfloor.2
          rw [hscale]
          gcongr
        rw [pow_add]
        exact Nat.lt_succ_iff.1 (by exact_mod_cast this)
      have hlogLow : 52 + n ≤ m.log2 := (Nat.le_log2 (Nat.ne_of_gt (Nat.lt_of_lt_of_le (Nat.two_pow_pos _) hge))).2 hge
      omega
    · omega
  obtain ⟨em, hem, hdescribes⟩ := shiftToTargetExponent_eq h hte htarget
  rw [roundWithAccuracy, hem]
  dsimp only
  rw [hdescribes.roundedMantissa_eq hr]
  rfl

/-! ### The interval around a floating point number -/

/-- The one way to write a positive floating point number as m · 2^e: with 53 bits, or
with fewer at the least exponent. -/
structure Canonical (m : ℕ) (e : ℤ) : Prop where
  pos : 0 < m
  lt : m < 2 ^ 53
  least : -1074 ≤ e
  normal : 2 ^ 52 ≤ m ∨ e = -1074

/-- The number lies in the interval around m · 2^e: it is nearest to it, also among the
numbers below a power of two, which lie closer together. -/
structure RoundsTo (m : ℕ) (e : ℤ) (x : ℚ) : Prop where
  nearest : Nearest m (x / 2 ^ e)
  below : m = 2 ^ 52 → -1074 < e → m - 1 / 4 ≤ x / 2 ^ e

/-- **Whatever lies in the interval around a floating point number is rounded to it.** -/
theorem round_eq {q : ℕ} (hc : Canonical m e) (hx : RoundsTo m e x)
    (h : Describes (.ofMantissaAndAccuracy q accuracy) (x / 2 ^ t)) (ht : t ≤ -1074 ∨ 2 ^ (52 + t) ≤ x) :
    roundWithAccuracy Format.binary64 sign q t accuracy = .finite sign m e hc.pos := by
  have hfits (e' : ℤ) (hleast : -1074 ≤ e') (hhigh : x / 2 ^ e' < 2 ^ 53) : t ≤ e' := by
    rcases ht with ht | ht
    · exact ht.trans hleast
    · rw [div_lt_iff₀ (by positivity), ← zpow_natCast, ← zpow_add₀ two_ne_zero] at hhigh
      have := (zpow_lt_zpow_iff_right₀ (one_lt_two : (1 : ℚ) < 2)).1 (ht.trans_lt hhigh)
      push_cast at this
      omega
  have hm : (m : ℚ) ≤ 2 ^ 53 - 1 := by
    have : (m : ℚ) + 1 ≤ 2 ^ 53 := by exact_mod_cast hc.lt
    linarith
  have hhigh : x / 2 ^ e < 2 ^ 53 := by linarith [hx.nearest.high]
  by_cases hlow : 2 ^ 52 ≤ x / 2 ^ e ∨ e = -1074
  · rw [round_eq_settle h (hfits e hc.least hhigh) hc.least hhigh hlow hx.nearest, settle_of_lt hc.pos hc.lt hc.least]
  · -- just below a power of two: the mantissa has one more bit, and rounding carries
    rw [not_or, not_le] at hlow
    obtain ⟨hlow, hne⟩ := hlow
    have hleast := hc.least
    have hm : m = 2 ^ 52 := by
      refine le_antisymm ?_ (hc.normal.resolve_right hne)
      have : (m : ℚ) < 2 ^ 52 + 1 := by linarith [hx.nearest.low]
      exact Nat.lt_succ_iff.1 (by exact_mod_cast this)
    have hbelow := hx.below hm (by omega)
    rw [hm] at hbelow
    push_cast at hbelow
    have hdouble : x / 2 ^ (e - 1) = 2 * (x / 2 ^ e) := by
      rw [zpow_sub_one₀ two_ne_zero]
      field_simp
    have hhigh' : x / 2 ^ (e - 1) < 2 ^ 53 := by
      rw [hdouble]
      linarith
    have hnearest : Nearest (2 ^ 53) (x / 2 ^ (e - 1)) := by
      rw [hdouble]
      refine ⟨?_, ?_, fun _ => by decide⟩
      · push_cast
        linarith
      · push_cast
        linarith
    have hlow' : 2 ^ 52 ≤ x / 2 ^ (e - 1) := by
      rw [hdouble]
      linarith
    rw [round_eq_settle h (hfits (e - 1) (by omega) hhigh') (by omega) hhigh' (.inl hlow') hnearest,
      settle_carry (by omega)]
    subst hm
    rw [sub_add_cancel]

/-- **Division rounds the quotient.** -/
theorem div_eq {m₁ m₂ : ℕ} {e₁ e₂ : ℤ} (h₁ : 0 < m₁) (h₂ : 0 < m₂) (hc : Canonical m e)
    (hx : RoundsTo m e (m₁ * 2 ^ e₁ / (m₂ * 2 ^ e₂))) :
    div Format.binary64 (.finite .positive m₁ e₁ h₁) (.finite .positive m₂ e₂ h₂) = .finite .positive m e hc.pos := by
  have hcore : div Format.binary64 (.finite .positive m₁ e₁ h₁) (.finite .positive m₂ e₂ h₂)
      = roundWithAccuracy Format.binary64 .positive (divCore Format.binary64 m₁ e₁ m₂ e₂).1
          (divCore Format.binary64 m₁ e₁ m₂ e₂).2.1 (divCore Format.binary64 m₁ e₁ m₂ e₂).2.2 := rfl
  rw [hcore, divCore, targetExponent_eq, totalExponent, totalExponent]
  set t : ℤ := min (e₁ - e₂) (max (m₁.log2 + 1 + e₁ - (m₂.log2 + 1 + e₂) - 53) (-1074))
  refine round_eq hc hx ?_ ?_
  · have hshift : ((e₁ - e₂ - t).toNat : ℤ) = e₁ - e₂ - t := by omega
    have hscale : (m₁ : ℚ) * 2 ^ e₁ / (m₂ * 2 ^ e₂) / 2 ^ t = (m₁ <<< (e₁ - e₂ - t).toNat : ℕ) / m₂ := by
      rw [Nat.shiftLeft_eq, Nat.cast_mul, Nat.cast_pow, Nat.cast_ofNat, ← zpow_natCast, hshift,
        zpow_sub₀ two_ne_zero, zpow_sub₀ two_ne_zero]
      field_simp
    rw [hscale]
    exact describes_quotient _ h₂
  · -- the quotient of two leading bits is at least half the power of two between them
    by_cases hleast : t ≤ -1074
    · exact .inl hleast
    · right
      have hlow : (2 : ℚ) ^ m₁.log2 ≤ m₁ := by exact_mod_cast Nat.log2_self_le h₁.ne'
      have hhigh : (m₂ : ℚ) ≤ 2 ^ (m₂.log2 + 1) := by exact_mod_cast Nat.lt_log2_self.le
      rw [le_div_iff₀ (by positivity)]
      calc (2 : ℚ) ^ (52 + t) * (m₂ * 2 ^ e₂) ≤ 2 ^ (52 + t) * (2 ^ (m₂.log2 + 1) * 2 ^ e₂) := by gcongr
        _ = 2 ^ (52 + t + (m₂.log2 + 1 + e₂)) := by
          rw [← zpow_natCast, ← zpow_add₀ two_ne_zero, ← zpow_add₀ two_ne_zero, Nat.cast_add, Nat.cast_one]
        _ ≤ 2 ^ (m₁.log2 + e₁) := zpow_le_zpow_right₀ one_le_two (by omega)
        _ = 2 ^ m₁.log2 * 2 ^ e₁ := by rw [zpow_add₀ two_ne_zero, zpow_natCast]
        _ ≤ m₁ * 2 ^ e₁ := by gcongr

end Rounding

end SealedScript
