/-
SealedScript/Proofs/Number/Comparison.lean

When two floating point numbers count as equal: both are zeros, of whatever sign, or
they are the same infinity, or they have the same sign, mantissa and exponent.  So
equality of floating point numbers is symmetric and transitive, and everything but
what is no number is equal to itself.

Main results: `float_beq_self`, `float_beq_symm`, `float_beq_trans`.
-/
import SealedScript.Number.Binary64

namespace SealedScript

open Float.Model Float.Model.UnpackedFloat

/-- The two numbers count as equal. -/
inductive SameNumber : UnpackedFloat → UnpackedFloat → Prop
  | zero (sign sign' : Sign) : SameNumber (.zero sign) (.zero sign')
  | infinity (sign : Sign) : SameNumber (.infinity sign) (.infinity sign)
  | finite (sign : Sign) (m : Nat) (e : Int) (hm : 0 < m) : SameNumber (.finite sign m e hm) (.finite sign m e hm)

namespace SameNumber

variable {u v w : UnpackedFloat}

theorem symm (h : SameNumber u v) : SameNumber v u := by
  cases h with
  | zero sign sign' => exact .zero sign' sign
  | infinity sign => exact .infinity sign
  | finite sign m e hm => exact .finite sign m e hm

theorem trans (huv : SameNumber u v) (hvw : SameNumber v w) : SameNumber u w := by
  cases huv with
  | zero sign _ =>
    cases hvw with
    | zero _ sign' => exact .zero sign sign'
  | infinity _ => exact hvw
  | finite _ _ _ _ => exact hvw

theorem refl (h : u.isNaN = false) : SameNumber u u := by
  cases u with
  | notANumber => cases h
  | infinity sign => exact .infinity sign
  | zero sign => exact .zero sign sign
  | finite sign m e hm => exact .finite sign m e hm

end SameNumber

theorem compare_finite_eq_iff {sign sign' : Sign} {m m' : Nat} {e e' : Int} {hm : 0 < m} {hm' : 0 < m'} :
    (UnpackedFloat.finite sign m e hm).compare (.finite sign' m' e' hm') = some .eq ↔
      sign = sign' ∧ e = e' ∧ m = m' := by
  cases sign <;> cases sign'
  case negative.negative =>
    show some ((compare e e').then (compare m m')).swap = some .eq ↔ _
    simp
  case positive.positive =>
    show some ((compare e e').then (compare m m')) = some .eq ↔ _
    simp
  -- of different signs one is less
  all_goals exact iff_of_false (fun heq => by cases heq) fun hsame => by cases hsame.1

theorem compare_infinity_eq_iff {sign sign' : Sign} :
    (UnpackedFloat.infinity sign).compare (.infinity sign') = some .eq ↔ sign = sign' := by
  show some (compare sign sign') = some .eq ↔ _
  cases sign <;> cases sign' <;> simp [compare]

theorem compare_eq_iff_sameNumber {u v : UnpackedFloat} : u.compare v = some .eq ↔ SameNumber u v := by
  constructor
  · intro h
    cases u with
    | notANumber => cases h
    | infinity sign =>
      cases v with
      | infinity sign' =>
        obtain rfl := compare_infinity_eq_iff.mp h
        exact .infinity sign
      | notANumber | zero _ | finite _ _ _ _ => cases sign <;> cases h
    | zero sign =>
      cases v with
      | zero sign' => exact .zero sign sign'
      | notANumber => cases h
      | infinity sign' | finite sign' _ _ _ => cases sign' <;> cases h
    | finite sign m e hm =>
      cases v with
      | finite sign' m' e' hm' =>
        obtain ⟨rfl, rfl, rfl⟩ := compare_finite_eq_iff.mp h
        exact .finite sign m e hm
      | notANumber => cases sign <;> cases h
      | infinity sign' | zero sign' => cases sign <;> cases sign' <;> cases h
  · intro h
    cases h with
    | zero _ _ => rfl
    | infinity sign => exact compare_infinity_eq_iff.mpr rfl
    | finite sign m e hm => exact compare_finite_eq_iff.mpr ⟨rfl, rfl, rfl⟩

/-! ### Floating point numbers -/

variable {x y z : Float}

theorem float_beq_iff : (x == y) = true ↔ SameNumber x.toModel.unpack y.toModel.unpack := by
  rw [← compare_eq_iff_sameNumber]
  show (x.toModel.unpack.compare y.toModel.unpack == some .eq) = true ↔ _
  exact beq_iff_eq

/-- What is a number is equal to itself. -/
theorem float_beq_self (h : x.isNaN = false) : (x == x) = true := float_beq_iff.mpr (.refl h)

theorem isNaN_eq_false_of_isFinite (h : x.isFinite = true) : x.isNaN = false := by
  show x.toModel.unpack.isNaN = false
  have hunpack : x.toModel.unpack.isFinite = true := h
  generalize x.toModel.unpack = u at hunpack ⊢
  cases u with
  | finite _ _ _ _ | zero _ => rfl
  | notANumber | infinity _ => cases hunpack

theorem float_beq_symm (h : (x == y) = true) : (y == x) = true := float_beq_iff.mpr (float_beq_iff.mp h).symm

theorem float_beq_trans (hxy : (x == y) = true) (hyz : (y == z) = true) : (x == z) = true :=
  float_beq_iff.mpr ((float_beq_iff.mp hxy).trans (float_beq_iff.mp hyz))

end SealedScript
