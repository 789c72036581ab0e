/-
SealedScript/Proofs/Number/RoundTrip.lean

Floating point numbers are read back from their texts.  The digits around the point
make up one whole number, and the places behind it its power of ten.  For a whole
number this decimal is the number itself, and for any other the shortest one in the
interval around it; in both cases it is rounded to the number it was written for.

Main result: `readFloat?_floatText`.
-/
import SealedScript.Proofs.Number.FloatText
import SealedScript.Proofs.Number.Scientific
import SealedScript.Proofs.Number.Shortest

namespace SealedScript

open Rounding

variable {m : ℕ} {e : ℤ}

/-! ### Digits -/

theorem natOfDigits_append (front back : List Char) :
    natOfDigits (front ++ back) = 10 ^ back.length * natOfDigits front + natOfDigits back :=
  (Nat.ofDigitChars_append 0).trans Nat.ofDigitChars_eq_ofDigitChars_zero

theorem natOfDigits_toDigits (n : ℕ) : natOfDigits (Nat.toDigits 10 n) = n := Nat.ofDigitChars_ten_toDigits

theorem natOfDigits_zeroPadded (width n : ℕ) : natOfDigits (zeroPadded width n) = n := by
  have hzeros (k : ℕ) : natOfDigits (List.replicate k '0') = 0 := Nat.ofDigitChars_replicate_zero
  rw [zeroPadded, natOfDigits_append, hzeros, natOfDigits_toDigits, Nat.mul_zero, Nat.zero_add]

theorem length_zeroPadded {width n : ℕ} (hwidth : 0 < width) (hn : n < 10 ^ width) :
    (zeroPadded width n).length = width := by
  have hlength := (Nat.length_toDigits_le_iff (by decide) hwidth).2 hn
  rw [zeroPadded, List.length_append, List.length_replicate, Nat.sub_add_cancel hlength]

/-! ### Reading digits around a point -/

namespace FloatText

theorem magnitude?_of_point_mem {text : List Char} (h : '.' ∈ text) : magnitude? text = unsigned? text := by
  have hother {word : String} (hword : '.' ∉ word.toList) :
      (String.ofList (text.map Char.toLower) == word) = false := by
    rw [beq_eq_false_iff_ne]
    rintro rfl
    rw [String.toList_ofList] at hword
    exact hword (List.mem_map.2 ⟨'.', h, rfl⟩)
  simp only [magnitude?, hother (by decide : '.' ∉ "inf".toList), hother (by decide : '.' ∉ "infinity".toList),
    hother (by decide : '.' ∉ "nan".toList), Bool.or_self, Bool.false_eq_true, if_false]

theorem unsigned?_eq {whole fraction : List Char} (hne : whole ≠ [])
    (hdigits : ∀ c ∈ whole ++ fraction, c.isDigit = true) :
    unsigned? (whole ++ '.' :: fraction) = some (scaled (natOfDigits (whole ++ fraction)) (0 - fraction.length)) := by
  have hwhole : ∀ c ∈ whole, c.isDigit = true := fun c hc => hdigits c (List.mem_append_left _ hc)
  have hfraction : ∀ c ∈ fraction, c.isDigit = true := fun c hc => hdigits c (List.mem_append_right _ hc)
  have htake : (whole ++ '.' :: fraction).takeWhile Char.isDigit = whole := by
    rw [List.takeWhile_append_of_pos hwhole, List.takeWhile_cons_of_neg (by decide), List.append_nil]
  have hdrop : (whole ++ '.' :: fraction).dropWhile Char.isDigit = '.' :: fraction := by
    rw [List.dropWhile_append_of_pos hwhole, List.dropWhile_cons_of_neg (by decide)]
  have htakeFraction : fraction.takeWhile Char.isDigit = fraction := List.takeWhile_eq_self_iff.2 hfraction
  have hdropFraction : fraction.dropWhile Char.isDigit = [] := List.dropWhile_eq_nil_iff.2 hfraction
  have hempty : whole.isEmpty = false := List.isEmpty_eq_false_iff.2 hne
  simp only [unsigned?, htake, hdrop, htakeFraction, hdropFraction, hempty, Bool.false_and, Bool.false_eq_true,
    if_false, exponent?, Option.map_some]

/-! ### Magnitudes -/

/-- The whole part of a whole number is the number. -/
theorem wholePart_eq (h : Binary64.isWhole m e = true) : (Binary64.wholePart m e : ℚ) = m * 2 ^ e := by
  cases e with
  | ofNat up =>
    show ((m * 2 ^ up : ℕ) : ℚ) = m * 2 ^ (up : ℤ)
    push_cast
    rw [zpow_natCast]
  | negSucc down =>
    have hdvd : 2 ^ (down + 1) ∣ m := Nat.dvd_of_mod_eq_zero (beq_iff_eq.1 h)
    show ((m / 2 ^ (down + 1) : ℕ) : ℚ) = m * 2 ^ Int.negSucc down
    rw [Nat.cast_div hdvd (by positivity), zpow_negSucc, div_eq_mul_inv]
    push_cast
    rfl

/-- Every positive number is written as a decimal in the interval around it. -/
theorem exists_decimal (hc : Canonical m e) :
    ∃ d : Decimal, magnitude m e = d.text ∧ 0 < d.places ∧ RoundsTo m e (d.digits / 10 ^ d.places) := by
  rw [magnitude]
  split
  · next hwhole =>
    refine ⟨⟨10 * Binary64.wholePart m e, 1⟩, ?_, Nat.one_pos, ?_⟩
    · have hfront : 10 * Binary64.wholePart m e / Nat.pow 10 1 = Binary64.wholePart m e :=
        Nat.mul_div_cancel_left _ (by decide)
      have hback : 10 * Binary64.wholePart m e % Nat.pow 10 1 = 0 := Nat.mul_mod_right 10 _
      rw [Decimal.text, hfront, hback]
      rfl
    · have hvalue : ((10 * Binary64.wholePart m e : ℕ) : ℚ) / 10 ^ 1 = m * 2 ^ e := by
        rw [← wholePart_eq hwhole]
        push_cast
        field_simp
      rw [hvalue]
      exact roundsTo_exact m e
  · next hfraction =>
    cases e with
    | ofNat up => exact absurd rfl hfraction
    | negSucc down =>
      obtain ⟨hreads, hplaces⟩ := Shortest.readsBack_decimal hc.pos down.succ_pos
      exact ⟨_, rfl, hplaces, Shortest.roundsTo_of_readsBack hreads⟩

theorem unsigned?_text {d : Decimal} (hplaces : 0 < d.places) :
    unsigned? d.text = some (scaled d.digits (0 - d.places)) := by
  have hback : (zeroPadded d.places (d.digits % Nat.pow 10 d.places)).length = d.places :=
    length_zeroPadded hplaces (Nat.mod_lt _ (Nat.pow_pos (by decide)))
  have hdigits : natOfDigits (Nat.toDigits 10 (d.digits / Nat.pow 10 d.places)
      ++ zeroPadded d.places (d.digits % Nat.pow 10 d.places)) = d.digits := by
    rw [natOfDigits_append, hback, natOfDigits_toDigits, natOfDigits_zeroPadded]
    exact Nat.div_add_mod d.digits (10 ^ d.places)
  rw [Decimal.text, unsigned?_eq Nat.toDigits_ne_nil, hdigits, hback]
  intro c hc
  rw [List.mem_append] at hc
  exact hc.elim isDigit_of_mem_toDigits isDigit_of_mem_zeroPadded

theorem magnitude_eq_cons (m : ℕ) (e : ℤ) : ∃ c rest, magnitude m e = c :: rest ∧ c.isDigit = true := by
  rw [magnitude]
  split
  · obtain ⟨c, rest, hcons, hdigit⟩ := toDigits_eq_cons (Binary64.wholePart m e)
    exact ⟨c, _, by rw [hcons, List.cons_append], hdigit⟩
  · obtain ⟨c, rest, hcons, hdigit⟩ := toDigits_eq_cons _
    exact ⟨c, _, by rw [Decimal.text, hcons, List.cons_append], hdigit⟩

/-- **The text of a positive number is read as the number.** -/
theorem magnitude?_magnitude (hc : Canonical m e) (he : e ≤ 971) :
    magnitude? (magnitude m e) = some (.ofModel (.pack (.finite .positive m e hc.pos))) := by
  obtain ⟨d, htext, hplaces, hx⟩ := exists_decimal hc
  rw [magnitude?_of_point_mem (magnitude_isDecimal m e).point_mem, htext, unsigned?_text hplaces,
    scaled_eq hc he hx hplaces]

end FloatText

/-! ### Signs -/

theorem readFloat?_of_digit {c : Char} (h : c.isDigit = true) (rest : List Char) :
    readFloat? (c :: rest) = FloatText.magnitude? (c :: rest) := by
  unfold readFloat?
  split
  · next heq =>
    cases heq
    exact absurd h (by decide)
  · next heq =>
    cases heq
    exact absurd h (by decide)
  · rfl

/-- There are two zeros. -/
theorem eq_zero_of_ofFloat {x : Float} {negative : Bool} (hx : Binary64.ofFloat x = .finite negative 0 e) :
    x = if negative then -0.0 else 0.0 := by
  have hbits : x.toModel.toBits.toNat = Packing.bitsOf negative 0 e := (Packing.ofBits_eq_finite x.toBits.toNat_lt hx).1
  rw [Packing.bitsOf, if_neg (by decide), Nat.zero_mul, Nat.zero_mod] at hbits
  cases negative with
  | false =>
    have hzero : (0.0 : Float).toModel.toBits.toNat = false.toNat * 2 ^ 63 := by decide +kernel
    exact congrArg Float.ofModel (Packing.model_ext (hbits.trans hzero.symm))
  | true =>
    have hzero : (-0.0 : Float).toModel.toBits.toNat = true.toNat * 2 ^ 63 := by decide +kernel
    exact congrArg Float.ofModel (Packing.model_ext (hbits.trans hzero.symm))

/-- **Finite floating point numbers are read back from their texts.** -/
theorem readFloat?_floatText {x : Float} (h : x.isFinite = true) : readFloat? (floatText x).toList = some x := by
  obtain ⟨negative, m, e, hx⟩ := Packing.exists_finite h
  rcases Nat.eq_zero_or_pos m with rfl | hm
  · obtain rfl := eq_zero_of_ofFloat hx
    cases negative <;> decide +kernel
  · obtain ⟨hc, he, -⟩ := Packing.canonical_of_ofFloat hx hm
    have hread := FloatText.magnitude?_magnitude hc he
    rw [floatText, hx]
    simp only [String.toList_ofList]
    cases negative with
    | false =>
      obtain ⟨c, rest, hcons, hdigit⟩ := FloatText.magnitude_eq_cons m e
      rw [if_neg (by decide), hcons, readFloat?_of_digit hdigit, ← hcons, hread]
      exact congrArg some (Packing.ofModel_pack hx hm)
    | true =>
      rw [if_pos rfl, readFloat?, hread, Option.map_some]
      have hunpack : (Float.Model.pack (.finite .positive m e hm)).unpack = .finite .positive m e hm :=
        @Packing.unpack_pack false _ _ hc he
      show some (Float.ofModel (.pack (Float.Model.pack (.finite .positive m e hm)).unpack.neg)) = some x
      rw [hunpack]
      exact congrArg some (Packing.ofModel_pack hx hm)

end SealedScript
