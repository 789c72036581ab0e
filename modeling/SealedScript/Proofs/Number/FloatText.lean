/-
SealedScript/Proofs/Number/FloatText.lean

The texts of finite floating point numbers.  They are digits on both sides of a
point, with a minus sign in front of negative numbers, and so cannot be taken for
a whole number or a word.

Main result: `floatText_isDecimal`.
-/
import SealedScript.Proofs.Number.Packing
import SealedScript.Proofs.Value.ReadBack

namespace SealedScript

/-! ### Decimal texts -/

/-- Digits on both sides of a point, perhaps behind a minus sign. -/
inductive IsDecimal : List Char → Prop
  | unsigned {whole fraction : List Char} (known : whole ≠ []) (digits : ∀ c ∈ whole ++ fraction, c.isDigit = true) :
      IsDecimal (whole ++ '.' :: fraction)
  | negative {text : List Char} (magnitude : IsDecimal text) : IsDecimal ('-' :: text)

theorem isDigit_of_mem_toDigits {n : Nat} {c : Char} (hc : c ∈ Nat.toDigits 10 n) : c.isDigit = true :=
  Nat.isDigit_of_mem_toDigits (by decide) (by decide) hc

theorem isDigit_of_mem_zeroPadded {width n : Nat} {c : Char} (hc : c ∈ zeroPadded width n) : c.isDigit = true := by
  rw [zeroPadded, List.mem_append] at hc
  rcases hc with hzero | hdigit
  · rw [List.eq_of_mem_replicate hzero]
    rfl
  · exact isDigit_of_mem_toDigits hdigit

theorem FloatText.magnitude_isDecimal (mantissa : Nat) (exponent : Int) : IsDecimal (magnitude mantissa exponent) := by
  rw [magnitude]
  split
  · refine .unsigned Nat.toDigits_ne_nil ?_
    intro c hc
    rw [List.mem_append, List.mem_singleton] at hc
    rcases hc with hdigit | rfl
    · exact isDigit_of_mem_toDigits hdigit
    · rfl
  · refine .unsigned Nat.toDigits_ne_nil ?_
    intro c hc
    rw [List.mem_append] at hc
    exact hc.elim isDigit_of_mem_toDigits isDigit_of_mem_zeroPadded

/-- **The text of a finite number is decimal.** -/
theorem floatText_isDecimal {x : Float} (h : x.isFinite = true) : IsDecimal (floatText x).toList := by
  obtain ⟨negative, mantissa, exponent, hx⟩ := Packing.exists_finite h
  have hmagnitude := FloatText.magnitude_isDecimal mantissa exponent
  rw [floatText, hx]
  simp only [String.toList_ofList]
  cases negative with
  | true => exact hmagnitude.negative
  | false => exact hmagnitude

namespace IsDecimal

variable {text : List Char}

theorem point_mem (h : IsDecimal text) : '.' ∈ text := by
  induction h with
  | unsigned _ _ => simp
  | negative _ ih => exact List.mem_cons_of_mem _ ih

theorem mem_cases (h : IsDecimal text) {c : Char} (hc : c ∈ text) : c = '-' ∨ c = '.' ∨ c.isDigit = true := by
  induction h with
  | unsigned _ digits =>
    simp only [List.mem_append, List.mem_cons] at hc digits
    rcases hc with hwhole | rfl | hfraction
    · exact .inr (.inr (digits c (.inl hwhole)))
    · exact .inr (.inl rfl)
    · exact .inr (.inr (digits c (.inr hfraction)))
  | negative _ ih =>
    rw [List.mem_cons] at hc
    exact hc.elim .inl ih

theorem toNat_le (h : IsDecimal text) {c : Char} (hc : c ∈ text) : 45 ≤ c.toNat ∧ c.toNat ≤ 57 := by
  rcases h.mem_cases hc with rfl | rfl | hdigit
  · decide
  · decide
  · exact IsNumeral.toNat_le (.inr hdigit)

theorem any_isDigit (h : IsDecimal text) : text.any Char.isDigit = true := by
  induction h with
  | unsigned known digits =>
    obtain ⟨c, rest, rfl⟩ := List.exists_cons_of_ne_nil known
    rw [List.cons_append, List.any_cons, digits c (List.mem_append_left _ List.mem_cons_self), Bool.true_or]
  | negative _ ih => rw [List.any_cons, ih, Bool.or_true]

theorem looksNumeric_eq (h : IsDecimal text) : looksNumeric text = true := by
  rw [looksNumeric, h.any_isDigit, Bool.and_true, List.all_eq_true]
  intro c hc
  rcases h.mem_cases hc with rfl | rfl | hdigit
  · rfl
  · rfl
  · simp only [hdigit, Bool.true_or]

end IsDecimal

/-- A whole number has no point. -/
theorem readInt64?_of_point_mem {text : List Char} (h : '.' ∈ text) : readInt64? text = none := by
  have hnat {text : List Char} (h : '.' ∈ text) : readNat? text = none := by
    have hall : text.all Char.isDigit = false :=
      List.all_eq_false.mpr ⟨'.', h, by decide⟩
    rw [readNat?, hall, Bool.not_false, Bool.or_true, if_pos rfl]
  have hint : readInt? text = none := by
    unfold readInt?
    split
    · rw [hnat ((List.mem_cons.1 h).resolve_left (by decide))]
      rfl
    · rw [hnat ((List.mem_cons.1 h).resolve_left (by decide))]
      rfl
    · rw [hnat h]
      rfl
  rw [readInt64?, hint, Option.bind_none]

end SealedScript
