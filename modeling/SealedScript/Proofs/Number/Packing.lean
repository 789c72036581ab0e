/-
SealedScript/Proofs/Number/Packing.lean

Floating point numbers and their bits.  The exact content that is read off the three
fields of the bits determines them: a positive mantissa with its exponent is packed
into exactly the number it was read from, and unpacked from it again.

Main results: `Packing.unpack_pack`, `Packing.ofModel_pack`.
-/
import SealedScript.Number.FloatText
import SealedScript.Proofs.Number.Rounding

namespace SealedScript

open Float.Model Float.Model.UnpackedFloat

namespace Packing

open Rounding

/-! ### The three fields -/

theorem toNat_packComponents (sign : Sign) (field : BitVec 11) (fraction : BitVec 52) :
    (packComponents Format.binary64 sign field fraction).toNat
      = sign.toBitVec.toNat * 2 ^ 63 + field.toNat * 2 ^ 52 + fraction.toNat := by
  rw [packComponents, BitVec.toNat_append, BitVec.toNat_append, ← Nat.shiftLeft_add_eq_or_of_lt fraction.isLt,
    ← Nat.shiftLeft_add_eq_or_of_lt field.isLt, Nat.shiftLeft_eq, Nat.shiftLeft_eq]
  ring

theorem toNat_unpackExponent (bits : BitVec 64) :
    (@unpackExponent Format.binary64 bits).toNat = bits.toNat / 2 ^ 52 % 2 ^ 11 := by
  rw [unpackExponent, BitVec.toNat_cast, BitVec.extractLsb_toNat, Nat.shiftRight_eq_div_pow]
  rfl

theorem toNat_unpackMantissa (bits : BitVec 64) :
    (@unpackMantissa Format.binary64 bits).toNat = bits.toNat % 2 ^ 52 := by
  rw [unpackMantissa, BitVec.toNat_cast, BitVec.extractLsb_toNat, Nat.shiftRight_zero]
  rfl

theorem toNat_unpackSign (bits : BitVec 64) : (@unpackSign Format.binary64 bits).toNat = bits.toNat / 2 ^ 63 % 2 := by
  rw [unpackSign, BitVec.toNat_cast, BitVec.extractLsb_toNat, Nat.shiftRight_eq_div_pow]
  rfl

/-- The sign as a bit. -/
def signOf (negative : Bool) : Sign := if negative then .negative else .positive

/-- The bits of ± m · 2^e. -/
def bitsOf (negative : Bool) (m : ℕ) (e : ℤ) : ℕ :=
  negative.toNat * 2 ^ 63 + (if 2 ^ 52 ≤ m then (e + 1075).toNat else 0) * 2 ^ 52 + m % 2 ^ 52

variable {negative : Bool} {m : ℕ} {e : ℤ}

/-! ### Reading the fields -/

theorem normalBit_eq : Binary64.normalBit = 2 ^ 52 := rfl

theorem signBit_eq : Binary64.signBit = 2 ^ 63 := rfl

/-- The fields can be read in one way only. -/
theorem ofBits_eq_finite {bits : ℕ} (hbits : bits < 2 ^ 64) (h : Binary64.ofBits bits = .finite negative m e) :
    bits = bitsOf negative m e ∧ m < 2 ^ 53 ∧ -1074 ≤ e ∧ e ≤ 971 ∧ (2 ^ 52 ≤ m ∨ e = -1074) := by
  have hsign : (bits / 2 ^ 63 % 2 == 1).toNat = bits / 2 ^ 63 % 2 := by
    rcases Nat.mod_two_eq_zero_or_one (bits / 2 ^ 63) with hbit | hbit <;> rw [hbit] <;> rfl
  simp only [Binary64.ofBits, signBit_eq, normalBit_eq, Binary64.leastExponent, beq_iff_eq] at h
  split at h
  · split at h <;> cases h
  · split at h
    · next hsubnormal =>
      cases h
      rw [bitsOf, hsign, if_neg (by omega)]
      omega
    · next hfield hnormal =>
      cases h
      rw [bitsOf, hsign, if_pos (by omega)]
      omega

/-! ### Packing and unpacking -/

theorem finite_congr {sign sign' : Sign} {m m' : ℕ} {e e' : ℤ} (hm : 0 < m) (hm' : 0 < m') (hsign : sign = sign')
    (hmantissa : m = m') (hexponent : e = e') :
    UnpackedFloat.finite sign m e hm = UnpackedFloat.finite sign' m' e' hm' := by
  subst hsign hmantissa hexponent
  rfl

theorem ofBitVec_eq {bit : BitVec 1} (h : bit.toNat = negative.toNat) : Sign.ofBitVec bit = signOf negative := by
  have hbit : bit = BitVec.ofBool negative := by
    apply BitVec.eq_of_toNat_eq
    rw [h, BitVec.toNat_ofBool]
  rw [hbit]
  cases negative <;> rfl

theorem unpack_of_bits {bits : BitVec 64} (hc : Canonical m e) (he : e ≤ 971)
    (hbits : bits.toNat = bitsOf negative m e) :
    UnpackedFloat.unpack Format.binary64 bits = .finite (signOf negative) m e hc.pos := by
  obtain ⟨hpos, hlt, hleast, hnormal⟩ := hc
  have hbit : negative.toNat ≤ 1 := negative.toNat_le
  have hsign : Sign.ofBitVec (@unpackSign Format.binary64 bits) = signOf negative := by
    apply ofBitVec_eq
    rw [toNat_unpackSign, hbits, bitsOf]
    split <;> omega
  have hmantissa : (@unpackMantissa Format.binary64 bits).toNat = m % 2 ^ 52 := by
    rw [toNat_unpackMantissa, hbits, bitsOf]
    omega
  have hexponent : (@unpackExponent Format.binary64 bits).toNat = if 2 ^ 52 ≤ m then (e + 1075).toNat else 0 := by
    rw [toNat_unpackExponent, hbits, bitsOf]
    split <;> omega
  have hfull : ¬ @unpackExponent Format.binary64 bits = -1#_ := by
    intro heq
    have hvalue : (if 2 ^ 52 ≤ m then (e + 1075).toNat else 0) = 2047 :=
      hexponent.symm.trans (congrArg BitVec.toNat heq)
    split at hvalue <;> omega
  delta UnpackedFloat.unpack
  dsimp only
  by_cases hm : 2 ^ 52 ≤ m
  · rw [if_pos hm] at hexponent
    have hempty : ¬ @unpackExponent Format.binary64 bits = 0#_ := by
      intro heq
      have hvalue : (e + 1075).toNat = 0 := hexponent.symm.trans (congrArg BitVec.toNat heq)
      omega
    rw [if_neg hfull, if_neg hempty]
    refine finite_congr _ _ hsign ?_ ?_
    · rw [BitVec.toNat_append, ← Nat.shiftLeft_add_eq_or_of_lt (BitVec.isLt _), hmantissa]
      show 2 ^ 52 + m % 2 ^ 52 = m
      omega
    · rw [hexponent]
      show ((e + 1075).toNat : ℤ) - ((1023 : ℕ) + (52 : ℕ)) = e
      omega
  · rw [if_neg hm] at hexponent
    have hempty : @unpackExponent Format.binary64 bits = 0#_ := BitVec.eq_of_toNat_eq hexponent
    have hmantissa : (@unpackMantissa Format.binary64 bits).toNat = m := by omega
    have hzero : ¬ @unpackMantissa Format.binary64 bits = 0#_ := by
      intro heq
      have hvalue : m = 0 := hmantissa.symm.trans (congrArg BitVec.toNat heq)
      omega
    rw [if_neg hfull, if_pos hempty, dif_neg hzero]
    refine finite_congr _ _ hsign hmantissa ?_
    rw [hexponent, hnormal.resolve_left hm]
    rfl

theorem toBits_pack (hc : Canonical m e) (he : e ≤ 971) :
    (Float.Model.pack (.finite (signOf negative) m e hc.pos)).toBits.toNat = bitsOf negative m e := by
  obtain ⟨hpos, hlt, hleast, hnormal⟩ := hc
  have hsign : (signOf negative).toBitVec.toNat = negative.toNat := by cases negative <;> rfl
  have hlog : m.log2 + 1 ≤ 53 := (Nat.log2_lt hpos.ne').2 hlt
  have hfits : ¬ 2 ^ Format.binary64.exponentBits
      ≤ (e + Format.binary64.exponentBias + Format.binary64.mantissaBitsWithoutImplicit).toNat + 1 := by
    show ¬ 2048 ≤ (e + (1023 : ℕ) + (52 : ℕ)).toNat + 1
    omega
  show (UnpackedFloat.pack Format.binary64 (.finite (signOf negative) m e hpos)).toNat = bitsOf negative m e
  rw [UnpackedFloat.pack, if_neg hfits]
  by_cases hm : 2 ^ 52 ≤ m
  · have hlong : m.log2 + 1 = Format.binary64.mantissaBits := by
      have := (Nat.le_log2 hpos.ne').2 hm
      show m.log2 + 1 = 53
      omega
    have hfield : (BitVec.ofNat Format.binary64.exponentBits
        (e + Format.binary64.exponentBias + Format.binary64.mantissaBitsWithoutImplicit).toNat).toNat
          = (e + 1075).toNat := by
      rw [BitVec.toNat_ofNat]
      show (e + (1023 : ℕ) + (52 : ℕ)).toNat % 2 ^ 11 = (e + 1075).toNat
      omega
    rw [if_pos hlong, toNat_packComponents, hsign, bitsOf, if_pos hm, hfield, BitVec.toNat_ofNat]
  · have hshort : ¬ m.log2 + 1 = Format.binary64.mantissaBits := by
      have := (Nat.log2_lt hpos.ne').2 (not_le.1 hm)
      show ¬ m.log2 + 1 = 53
      omega
    rw [if_neg hshort, toNat_packComponents, hsign, bitsOf, if_neg hm, BitVec.toNat_ofNat]
    rfl

/-! ### Numbers -/

theorem canonical_of_ofFloat {x : Float} (hx : Binary64.ofFloat x = .finite negative m e) (hm : 0 < m) :
    Canonical m e ∧ e ≤ 971 ∧ x.toModel.toBits.toNat = bitsOf negative m e := by
  obtain ⟨hbits, hlt, hleast, hgreatest, hnormal⟩ := ofBits_eq_finite x.toBits.toNat_lt hx
  exact ⟨⟨hm, hlt, hleast, hnormal⟩, hgreatest, hbits⟩

theorem unpack_of_ofFloat {x : Float} (hx : Binary64.ofFloat x = .finite negative m e) (hm : 0 < m) :
    x.toModel.unpack = .finite (signOf negative) m e hm := by
  obtain ⟨hc, he, hbits⟩ := canonical_of_ofFloat hx hm
  exact unpack_of_bits hc he hbits

theorem unpack_pack (hc : Canonical m e) (he : e ≤ 971) :
    (Float.Model.pack (.finite (signOf negative) m e hc.pos)).unpack = .finite (signOf negative) m e hc.pos :=
  unpack_of_bits hc he (toBits_pack hc he)

theorem model_ext {a b : Float.Model} (h : a.toBits.toNat = b.toBits.toNat) : a = b := by
  cases a
  cases b
  cases UInt64.toNat_inj.1 h
  rfl

/-- **A number is packed from its exact content.** -/
theorem ofModel_pack {x : Float} (hx : Binary64.ofFloat x = .finite negative m e) (hm : 0 < m) :
    Float.ofModel (Float.Model.pack (.finite (signOf negative) m e hm)) = x := by
  obtain ⟨hc, he, hbits⟩ := canonical_of_ofFloat hx hm
  rw [model_ext ((toBits_pack hc he).trans hbits.symm)]

/-! ### Finite numbers -/

/-- The field of eleven bits is full only for infinities and for what is no number. -/
theorem exists_finite {x : Float} (h : x.isFinite = true) :
    ∃ negative m e, Binary64.ofFloat x = .finite negative m e := by
  have hfield : (x.toBits.toNat / Binary64.normalBit % 2048 == 2047) = false := by
    rw [beq_eq_false_iff_ne]
    intro hfield
    have hexponent : @unpackExponent Format.binary64 x.toModel.toBits.toBitVec = -1#_ :=
      BitVec.eq_of_toNat_eq ((toNat_unpackExponent _).trans hfield)
    have hunpack : (UnpackedFloat.unpack Format.binary64 x.toModel.toBits.toBitVec).isFinite = true := h
    delta UnpackedFloat.unpack at hunpack
    rw [if_pos hexponent] at hunpack
    split at hunpack <;> cases hunpack
  simp only [Binary64.ofFloat, Binary64.ofBits, hfield, Bool.false_eq_true, if_false]
  split <;> exact ⟨_, _, _, rfl⟩

end Packing

end SealedScript
