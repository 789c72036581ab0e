/-
SealedScript/Proofs/Number/Shortest.lean

The shortest decimal lies in the interval around its number.  The search goes from one
grid of decimals to the next finer one and stops at the first hit; with as many
places as the number has binary ones the number itself is on the grid, so the search
never runs out of tries.

Main results: `Shortest.readsBack_decimal`, `Shortest.roundsTo_of_readsBack`.
-/
import SealedScript.Number.Shortest
import SealedScript.Proofs.Number.Rounding

namespace SealedScript

namespace Shortest

variable {mantissa down places digits : ℕ}

/-! ### The search -/

theorem readsBack_of_atPlaces? (h : atPlaces? mantissa down places = some digits) :
    readsBack mantissa down places digits = true := by
  unfold atPlaces? at h
  dsimp only at h
  split at h
  · next hbelow habove =>
    obtain rfl := Option.some.inj h
    split
    · exact hbelow
    · exact habove
  · next hbelow _ =>
    obtain rfl := Option.some.inj h
    exact hbelow
  · next _ habove =>
    obtain rfl := Option.some.inj h
    exact habove
  · cases h

theorem lower_lt (hm : 0 < mantissa) (down : ℕ) : lower mantissa down < 4 * mantissa := by
  rw [lower]
  split <;> omega

/-- With as many decimal places as binary ones the number itself is tested. -/
theorem readsBack_exact (hm : 0 < mantissa) (down : ℕ) :
    readsBack mantissa down down (mantissa * Nat.pow 10 down / Nat.pow 2 down) = true := by
  have hten : Nat.pow 10 down = Nat.pow 5 down * Nat.pow 2 down := by
    rw [Nat.pow_eq, Nat.pow_eq, Nat.pow_eq, ← Nat.mul_pow]
  have hquotient : mantissa * Nat.pow 10 down / Nat.pow 2 down = mantissa * Nat.pow 5 down := by
    rw [hten, ← Nat.mul_assoc]
    exact Nat.mul_div_cancel _ (Nat.pow_pos two_pos)
  have hpoint : mantissa * Nat.pow 5 down * Nat.pow 2 (down + 2) = 4 * mantissa * Nat.pow 10 down := by
    rw [hten, Nat.pow_eq, Nat.pow_eq, Nat.pow_eq, pow_add]
    ring
  have hten : 0 < Nat.pow 10 down := Nat.pow_pos (by decide)
  have hlow : lower mantissa down * Nat.pow 10 down < 4 * mantissa * Nat.pow 10 down :=
    Nat.mul_lt_mul_of_pos_right (lower_lt hm down) hten
  have hhigh : 4 * mantissa * Nat.pow 10 down < upper mantissa * Nat.pow 10 down :=
    Nat.mul_lt_mul_of_pos_right (by rw [upper]; omega) hten
  rw [hquotient, readsBack, hpoint]
  split
  · rw [Bool.and_eq_true, decide_eq_true_eq, decide_eq_true_eq]
    exact ⟨hlow.le, hhigh.le⟩
  · rw [Bool.and_eq_true, decide_eq_true_eq, decide_eq_true_eq]
    exact ⟨hlow, hhigh⟩

theorem atPlaces?_exact (hm : 0 < mantissa) (down : ℕ) : atPlaces? mantissa down down ≠ none := by
  unfold atPlaces?
  dsimp only
  rw [readsBack_exact hm down]
  split <;> simp_all

theorem readsBack_search (hm : 0 < mantissa) (tries : ℕ) (hplaces : 1 ≤ places) (hle : places ≤ down)
    (htries : down < places + tries) :
    readsBack mantissa down (search mantissa down tries places).places
        (search mantissa down tries places).digits = true ∧
      1 ≤ (search mantissa down tries places).places := by
  induction tries generalizing places with
  | zero => omega
  | succ tries ih =>
    rw [search]
    split
    · next digits hdigits => exact ⟨readsBack_of_atPlaces? hdigits, hplaces⟩
    · next hnone =>
      have hne : places ≠ down := by
        rintro rfl
        exact atPlaces?_exact hm places hnone
      exact ih (by omega) (by omega) (by omega)

/-- **The search ends with a decimal that reads back.** -/
theorem readsBack_decimal (hm : 0 < mantissa) (hdown : 0 < down) :
    readsBack mantissa down (decimal mantissa down).places (decimal mantissa down).digits = true ∧
      1 ≤ (decimal mantissa down).places :=
  readsBack_search hm down le_rfl hdown (by omega)

/-! ### The interval -/

theorem le_lower (mantissa down : ℕ) : 4 * mantissa ≤ lower mantissa down + 2 := by
  rw [lower]
  split <;> omega

/-- The ends of the interval belong to it only if the mantissa is even. -/
theorem bounds_of_readsBack (h : readsBack mantissa down places digits = true) :
    lower mantissa down * 10 ^ places ≤ digits * 2 ^ (down + 2) ∧
      digits * 2 ^ (down + 2) ≤ upper mantissa * 10 ^ places ∧
      (mantissa % 2 ≠ 0 → lower mantissa down * 10 ^ places < digits * 2 ^ (down + 2) ∧
        digits * 2 ^ (down + 2) < upper mantissa * 10 ^ places) := by
  rw [readsBack] at h
  split at h
  · next heven =>
    simp only [Bool.and_eq_true, decide_eq_true_eq] at h
    exact ⟨h.1, h.2, fun hodd => absurd (beq_iff_eq.1 heven) hodd⟩
  · simp only [Bool.and_eq_true, decide_eq_true_eq] at h
    exact ⟨h.1.le, h.2.le, fun _ => h⟩

/-- **What reads back lies in the interval around the number.** -/
theorem roundsTo_of_readsBack (h : readsBack mantissa down places digits = true) :
    Rounding.RoundsTo mantissa (-(down : ℤ)) (digits / 10 ^ places) := by
  obtain ⟨hlow, hhigh, hodd⟩ := bounds_of_readsBack h
  have hten : (0 : ℚ) < 4 * 10 ^ places := by positivity
  have hpoint : (digits : ℚ) / 10 ^ places / 2 ^ (-(down : ℤ)) = (digits * 2 ^ (down + 2) : ℕ) / (4 * 10 ^ places) := by
    rw [zpow_neg, zpow_natCast, div_inv_eq_mul, pow_add]
    push_cast
    field_simp
  have hend (bound : ℕ) : (bound * 10 ^ places : ℕ) / (4 * 10 ^ places) = (bound : ℚ) / 4 := by
    push_cast
    field_simp
  have hlower : (4 * mantissa : ℚ) ≤ lower mantissa down + 2 := by exact_mod_cast le_lower mantissa down
  have hupper : (upper mantissa : ℚ) = 4 * mantissa + 2 := by rw [upper]; push_cast; rfl
  have hlowQ : (lower mantissa down : ℚ) / 4 ≤ (digits * 2 ^ (down + 2) : ℕ) / (4 * 10 ^ places) := by
    rw [← hend]
    gcongr
  have hhighQ : ((digits * 2 ^ (down + 2) : ℕ) : ℚ) / (4 * 10 ^ places) ≤ upper mantissa / 4 := by
    rw [← hend]
    gcongr
  refine ⟨⟨?_, ?_, ?_⟩, ?_⟩ <;> rw [hpoint]
  · linarith
  · linarith
  · intro htie
    by_contra hne
    obtain ⟨hlow, hhigh⟩ := hodd hne
    have hlowQ : (lower mantissa down : ℚ) / 4 < (digits * 2 ^ (down + 2) : ℕ) / (4 * 10 ^ places) := by
      rw [← hend]
      gcongr
    have hhighQ : ((digits * 2 ^ (down + 2) : ℕ) : ℚ) / (4 * 10 ^ places) < upper mantissa / 4 := by
      rw [← hend]
      gcongr
    rcases htie with htie | htie <;> linarith
  · intro hpower hleast
    have hquarter : lower mantissa down + 1 = 4 * mantissa := by
      have hpower : (mantissa == Binary64.normalBit && down < 1074) = true := by
        rw [Bool.and_eq_true, beq_iff_eq, decide_eq_true_eq]
        exact ⟨hpower, by omega⟩
      rw [lower, if_pos hpower]
      omega
    have : (lower mantissa down : ℚ) + 1 = 4 * mantissa := by exact_mod_cast hquarter
    linarith

end Shortest

end SealedScript
