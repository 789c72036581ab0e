/-
SealedScript/Proofs/Cipher/Block.lean

Decrypting a block undoes encrypting it, under every key schedule.

Each layer of a round is undone by the layer beside it.  Three of the four are
plain: the substitution is a look into two tables, moving the rows is a
permutation of sixteen places, and adding a key twice adds nothing.  Mixing is
the one that needs an argument.  It is additive, because doubling is, and it
commutes with rotating the column, so it is enough to undo it for columns with
a single byte in the first place; there it is an identity between sums of
doublings of that byte, which holds before any reduction takes place.

Main result: `Block.decrypt_encrypt`.
-/
import SealedScript.Cipher.Block

namespace SealedScript

/-! ### Substitution -/

/-- Looking up every entry of the first table in the second one counts the
bytes in order. -/
theorem Substitution.backward_forward :
    Substitution.forward.toList.map (fun y => Substitution.backward.toList[y.toNat]?)
      = (List.range 256).map fun n => some (UInt8.ofNat n) := by
  decide +kernel

theorem unsubstitute_substitute (x : UInt8) : unsubstitute (substitute x) = x := by
  have hx : x.toNat < 256 := x.toNat_lt
  have hlength : Substitution.forward.toList.length = 256 := by
    simpa using congrArg List.length Substitution.backward_forward
  have hsize : x.toNat < Substitution.forward.toList.length := hlength ▸ hx
  -- the equation of the tables, at the place of this byte
  have hentry := congrArg (fun l => l[x.toNat]?) Substitution.backward_forward
  simp only [List.getElem?_map, List.getElem?_range hx, Option.map_some, UInt8.ofNat_toNat,
    List.getElem?_eq_getElem hsize, Option.some.injEq] at hentry
  unfold unsubstitute substitute
  rw [Array.getD_eq_getD_getElem?, Array.getD_eq_getD_getElem?, ← Array.getElem?_toList,
    ← Array.getElem?_toList, List.getElem?_eq_getElem hsize, Option.getD_some, hentry]
  rfl

/-! ### The field of bytes -/

namespace ByteField

theorem topBit (a : UInt8) : a &&& 0x80 = 0 ∨ a &&& 0x80 = 0x80 := by
  have all : ∀ n : Fin 256, UInt8.ofFin n &&& 0x80 = 0 ∨ UInt8.ofFin n &&& 0x80 = 0x80 := by
    decide +kernel
  exact all a.toFin

theorem xor_cancel_left (a b : UInt8) : a ^^^ (a ^^^ b) = b := by
  rw [← UInt8.xor_assoc, UInt8.xor_self, UInt8.zero_xor]

theorem xor_cancel_right (a b : UInt8) : a ^^^ b ^^^ b = a := by
  rw [UInt8.xor_assoc, UInt8.xor_self, UInt8.xor_zero]

theorem double_eq (a : UInt8) :
    double a = a <<< 1 ^^^ (if a &&& 0x80 = 0 then 0 else 0x1B) := by
  unfold double
  split
  · rw [UInt8.xor_zero]
  · rfl

/-- Doubling is additive: the reductions of two bytes cancel when both take
place. -/
theorem double_xor (a b : UInt8) : double (a ^^^ b) = double a ^^^ double b := by
  have htop : (a ^^^ b) &&& 0x80 = (a &&& 0x80) ^^^ (b &&& 0x80) := by
    apply UInt8.toNat_inj.1
    simp [Nat.and_xor_distrib_right]
  have hshift : (a ^^^ b) <<< 1 = a <<< 1 ^^^ b <<< 1 := UInt8.shiftLeft_xor
  rw [double_eq, double_eq, double_eq, htop, hshift]
  have h80 : ¬(0x80 : UInt8) = 0 := by decide
  rcases topBit a with ha | ha <;> rcases topBit b with hb | hb <;> rw [ha, hb]
  · -- neither byte is reduced
    simp only [UInt8.xor_self, if_true, UInt8.xor_zero]
  · -- only the second one is
    simp only [UInt8.zero_xor, h80, if_true, if_false, UInt8.xor_zero]
    ac_rfl
  · -- only the first one is
    simp only [UInt8.xor_zero, h80, if_true, if_false]
    ac_rfl
  · -- both are, and the sum is not: the constant comes in twice
    simp only [UInt8.xor_self, h80, if_true, if_false, UInt8.xor_zero]
    calc a <<< 1 ^^^ b <<< 1
        = a <<< 1 ^^^ ((0x1B : UInt8) ^^^ ((0x1B : UInt8) ^^^ b <<< 1)) := by rw [xor_cancel_left]
      _ = a <<< 1 ^^^ (0x1B : UInt8) ^^^ (b <<< 1 ^^^ (0x1B : UInt8)) := by ac_rfl

theorem double_zero : double 0 = 0 := rfl

end ByteField

/-! ### Mixing -/

namespace Column

open ByteField

theorem add_add_cancel (x y : Column) : (x.add y).add y = x := by
  simp only [add, xor_cancel_right]

theorem mix_add (x y : Column) : (x.add y).mix = x.mix.add y.mix := by
  simp only [mix, add, times3, double_xor, Column.mk.injEq]
  refine ⟨?_, ?_, ?_, ?_⟩ <;> ac_rfl

theorem unmix_add (x y : Column) : (x.add y).unmix = x.unmix.add y.unmix := by
  simp only [unmix, add, times9, times11, times13, times14, double_xor, Column.mk.injEq]
  refine ⟨?_, ?_, ?_, ?_⟩ <;> ac_rfl

theorem mix_rotate (x : Column) : x.rotate.mix = x.mix.rotate := by
  simp only [mix, rotate, Column.mk.injEq]
  refine ⟨?_, ?_, ?_, ?_⟩ <;> ac_rfl

theorem unmix_rotate (x : Column) : x.rotate.unmix = x.unmix.rotate := by
  simp only [unmix, rotate, Column.mk.injEq]
  refine ⟨?_, ?_, ?_, ?_⟩ <;> ac_rfl

/-- The column with one byte in the first place. -/
def single (a : UInt8) : Column := ⟨a, 0, 0, 0⟩

/-- A column is the sum of its bytes, each turned into its place. -/
theorem eq_sum_of_singles (x : Column) :
    x = (single x.b0).add ((single x.b1).rotate.rotate.rotate.add
      ((single x.b2).rotate.rotate.add (single x.b3).rotate)) := by
  obtain ⟨b0, b1, b2, b3⟩ := x
  simp only [single, rotate, add, UInt8.xor_zero, UInt8.zero_xor]

/-- Each place holds a sum of doublings of `a` in which all terms but the
expected one occur twice. -/
theorem unmix_mix_single (a : UInt8) : (single a).mix.unmix = single a := by
  have swap (x y z : UInt8) : x ^^^ (y ^^^ z) = y ^^^ (x ^^^ z) := by ac_rfl
  simp only [single, mix, unmix, times3, times9, times11, times13, times14, double_xor,
    double_zero, UInt8.xor_zero, Column.mk.injEq]
  -- the terms are put in one order, in which equal ones meet and cancel
  refine ⟨?_, ?_, ?_, ?_⟩ <;>
    simp only [UInt8.xor_comm, swap, xor_cancel_left, UInt8.xor_self, UInt8.xor_zero]

theorem unmix_mix (x : Column) : x.mix.unmix = x := by
  have hsum := eq_sum_of_singles x
  rw [hsum]
  simp only [mix_add, unmix_add, mix_rotate, unmix_rotate, unmix_mix_single]

end Column

/-! ### Blocks -/

namespace Block

theorem add_add_cancel (x y : Block) : (x.add y).add y = x := by
  simp only [add, Column.add_add_cancel]

theorem unsubstitute_substitute (x : Block) : x.substitute.unsubstitute = x := by
  simp only [substitute, unsubstitute, map, Column.map, SealedScript.unsubstitute_substitute]

theorem unshift_shift (x : Block) : x.shift.unshift = x := rfl

theorem unmix_mix (x : Block) : x.mix.unmix = x := by
  simp only [mix, unmix, map, Column.unmix_mix]

theorem unrounds_singleton (last x : Block) :
    unrounds [last] x = (x.add last).unshift.unsubstitute := rfl

theorem unrounds_cons_cons (key key' : Block) (keys : List Block) (x : Block) :
    unrounds (key :: key' :: keys) x
      = ((unrounds (key' :: keys) x).add key).unmix.unshift.unsubstitute := rfl

/-- Rounds are taken back in the order opposite to that in which they were
made, so the induction is on the keys still to come. -/
theorem unrounds_rounds (keys : List Block) (x : Block) : unrounds keys (rounds keys x) = x := by
  induction keys generalizing x with
  | nil => rfl
  | cons key keys ih =>
    cases keys with
    | nil =>
      -- the last round does not mix
      rw [rounds, unrounds_singleton]
      simp only [add_add_cancel, unshift_shift, unsubstitute_substitute]
    | cons key' keys =>
      have hkeys : key' :: keys ≠ [] := List.cons_ne_nil _ _
      rw [rounds.eq_3 x key (key' :: keys) hkeys, unrounds_cons_cons, ih]
      simp only [add_add_cancel, unmix_mix, unshift_shift, unsubstitute_substitute]

/-- **Decryption undoes encryption of a block**, whatever the round keys are. -/
theorem decrypt_encrypt (keys : KeySchedule) (x : Block) : (x.encrypt keys).decrypt keys = x := by
  rw [encrypt, decrypt, unrounds_rounds, add_add_cancel]

end Block

end SealedScript
