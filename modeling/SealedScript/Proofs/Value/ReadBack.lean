/-
SealedScript/Proofs/Value/ReadBack.lean

Values that are read back from their texts.  A whole number is written with a
sign and digits, and these are read as the number again; the two truth words
are read as truth values.  Neither takes a place in the heap.

Main result: `Heap.place_ofText_text`.
-/
import SealedScript.Proofs.Text.Trimming
import SealedScript.Value.Heap

namespace SealedScript

/-! ### Digits -/

theorem readNat?_toDigits (n : Nat) : readNat? (Nat.toDigits 10 n) = some n := by
  have hdigits : (Nat.toDigits 10 n).all Char.isDigit = true := by
    rw [List.all_eq_true]
    intro c hc
    exact Nat.isDigit_of_mem_toDigits (by decide) (by decide) hc
  have hvalue : natOfDigits (Nat.toDigits 10 n) = n := Nat.ofDigitChars_ten_toDigits
  rw [readNat?, hdigits, hvalue, List.isEmpty_eq_false_iff.mpr Nat.toDigits_ne_nil]
  rfl

/-- A text of digits has no sign in front. -/
theorem readInt?_of_digit {c : Char} (h : c.isDigit = true) (rest : List Char) :
    readInt? (c :: rest) = (readNat? (c :: rest)).map Int.ofNat := by
  unfold readInt?
  split
  · rename_i heq
    cases heq
    exact absurd h (by decide)
  · rename_i heq
    cases heq
    exact absurd h (by decide)
  · rfl

/-- The characters of a written number. -/
def IsNumeral (c : Char) : Prop := c = '-' ∨ c.isDigit = true

/-- The digits of a number, the first one apart. -/
theorem toDigits_eq_cons (n : Nat) : ∃ c rest, Nat.toDigits 10 n = c :: rest ∧ c.isDigit = true := by
  obtain ⟨c, rest, h⟩ := List.exists_cons_of_ne_nil (Nat.toDigits_ne_nil (n := n) (b := 10))
  refine ⟨c, rest, h, Nat.isDigit_of_mem_toDigits (b := 10) (n := n) (by decide) (by decide) ?_⟩
  rw [h]
  exact List.mem_cons_self

theorem toList_toString_ofNat (n : Nat) : (toString (Int.ofNat n)).toList = Nat.toDigits 10 n :=
  Nat.toList_repr

theorem toList_toString_negSucc (n : Nat) :
    (toString (Int.negSucc n)).toList = '-' :: Nat.toDigits 10 (n + 1) := by
  show ("-" ++ (n + 1).repr).toList = _
  rw [String.toList_append, Nat.toList_repr]
  rfl

theorem readInt?_toString (n : Int) : readInt? (toString n).toList = some n := by
  cases n with
  | ofNat n =>
    obtain ⟨c, rest, hcons, hdigit⟩ := toDigits_eq_cons n
    rw [toList_toString_ofNat, hcons, readInt?_of_digit hdigit, ← hcons, readNat?_toDigits]
    rfl
  | negSucc n =>
    rw [toList_toString_negSucc, readInt?, readNat?_toDigits]
    rfl

theorem readInt64?_toString (n : Int64) : readInt64? (toString n.toInt).toList = some n := by
  have hle : -(int64Bound : Int) ≤ n.toInt := n.le_toInt
  have hlt : n.toInt < (int64Bound : Int) := n.toInt_lt
  rw [readInt64?, readInt?_toString]
  simp only [Option.bind_some, hle, hlt, decide_true, Bool.and_self, if_true, Int64.ofInt_toInt]

theorem isNumeral_of_mem_toString (n : Int) {c : Char} (hc : c ∈ (toString n).toList) : IsNumeral c := by
  have hdigits {k : Nat} (hc : c ∈ Nat.toDigits 10 k) : IsNumeral c :=
    .inr (Nat.isDigit_of_mem_toDigits (by decide) (by decide) hc)
  cases n with
  | ofNat n =>
    rw [toList_toString_ofNat] at hc
    exact hdigits hc
  | negSucc n =>
    rw [toList_toString_negSucc, List.mem_cons] at hc
    rcases hc with rfl | hc
    · exact .inl rfl
    · exact hdigits hc

/-! ### Numerals as data -/

theorem IsNumeral.toNat_le {c : Char} (h : IsNumeral c) : 45 ≤ c.toNat ∧ c.toNat ≤ 57 := by
  rcases h with rfl | hdigit
  · decide
  · simp only [Char.isDigit, Bool.and_eq_true, decide_eq_true_eq, ge_iff_le] at hdigit
    exact ⟨Nat.le_trans (by decide) (UInt32.le_iff_toNat_le.mp hdigit.1),
      UInt32.le_iff_toNat_le.mp hdigit.2⟩

/-- No blank stands between the minus sign and the digits. -/
theorem isBlank_of_toNat_le {c : Char} (hge : 45 ≤ c.toNat) (hle : c.toNat ≤ 57) : isBlank c = false := by
  have all : ∀ n : Fin 58, 45 ≤ n.val → inRanges Blank.ranges n.val = false := by decide
  exact all ⟨c.toNat, by omega⟩ hge

/-- Letters come behind the digits. -/
theorem toLower_of_toNat_le {c : Char} (hle : c.toNat ≤ 57) : c.toLower = c := by
  refine dif_neg ?_
  intro hletter
  have := UInt32.le_iff_toNat_le.mp hletter.1
  have hA : 'A'.val.toNat = 65 := rfl
  have hc : c.val.toNat = c.toNat := rfl
  omega

theorem not_spells_of_toNat_le {w : Char} {word text : List Char} (hw : 57 < w.toNat)
    (htext : ∀ c ∈ text, c.toNat ≤ 57) : Datum.spells (w :: word) text = false := by
  cases text with
  | nil => rfl
  | cons c rest =>
    have hc := htext c List.mem_cons_self
    have hne : (w == c.toLower) = false := by
      rw [toLower_of_toNat_le hc, beq_eq_false_iff_ne]
      rintro rfl
      omega
    rw [Datum.spells, hne, Bool.false_and]

theorem Datum.readWithin_int (depth : Nat) (n : Int64) :
    readWithin (depth + 1) (toString n.toInt).toList = .int n := by
  have hrange (c : Char) (hc : c ∈ (toString n.toInt).toList) : 45 ≤ c.toNat ∧ c.toNat ≤ 57 :=
    (isNumeral_of_mem_toString n.toInt hc).toNat_le
  have htrim := trim_of_no_blanks fun c hc => isBlank_of_toNat_le (hrange c hc).1 (hrange c hc).2
  have htrue : spells "true".toList (toString n.toInt).toList = false :=
    not_spells_of_toNat_le (by decide) fun c hc => (hrange c hc).2
  have hfalse : spells "false".toList (toString n.toInt).toList = false :=
    not_spells_of_toNat_le (by decide) fun c hc => (hrange c hc).2
  simp only [readWithin, htrim, htrue, hfalse, readInt64?_toString, Bool.false_eq_true, if_false]

theorem Datum.readWithin_true (depth : Nat) : readWithin (depth + 1) "true".toList = .bool true := by
  have htrim : trim "true".toList = "true".toList := by decide
  have hspells : spells "true".toList "true".toList = true := by decide
  simp only [readWithin, htrim, hspells, if_true]

theorem Datum.readWithin_false (depth : Nat) : readWithin (depth + 1) "false".toList = .bool false := by
  have htrim : trim "false".toList = "false".toList := by decide
  have hother : spells "true".toList "false".toList = false := by decide
  have hspells : spells "false".toList "false".toList = true := by decide
  simp only [readWithin, htrim, hother, hspells, Bool.false_eq_true, if_false, if_true]

theorem Datum.ofText_int (n : Int64) : Datum.ofText (toString n.toInt) = .int n := readWithin_int _ n

theorem Datum.ofText_true : Datum.ofText "true" = .bool true := readWithin_true "true".toList.length

theorem Datum.ofText_false : Datum.ofText "false" = .bool false := readWithin_false "false".toList.length

/-! ### Values -/

/-- Whether a value is a whole number or a truth value. -/
def Value.isIntOrBool : Value → Bool
  | .int _ => true
  | .bool _ => true
  | _ => false

/-- **Whole numbers and truth values are read back from their texts**, and take no
place in the heap. -/
theorem Heap.place_ofText_text (h : Heap) {v : Value} (hv : v.isIntOrBool = true) :
    h.place (Datum.ofText (h.text v)) = (v, h) := by
  cases v with
  | int n =>
    have htext : h.text (.int n) = toString n.toInt := String.ofList_toList
    rw [htext, Datum.ofText_int, place]
  | bool b =>
    cases b with
    | true =>
      have htext : h.text (.bool true) = "true" := String.ofList_toList
      rw [htext, Datum.ofText_true, place]
    | false =>
      have htext : h.text (.bool false) = "false" := String.ofList_toList
      rw [htext, Datum.ofText_false, place]
  | nil | float _ | text _ | list _ | object _ => cases hv

end SealedScript
