/-
SealedScript/Proofs/Value/WholeArithmetic.lean

Arithmetic on operands that count as whole numbers: whole numbers themselves, truth
values, nothing, and texts, which count as the whole number of 64 bits that they spell
between blanks, or as zero if they spell no number at all.

For such operands the operators are those of the whole numbers.  Sums, differences and
products are right modulo 2^64, and so are quotients, which go toward zero; remainders
are exact, and of the sign of the dividend.  The one quotient that does not fit, the
least number by minus one, is again the least number, and its remainder is zero.
The divisor of a quotient is tested for zero by its floating point number, which is a
zero for no other whole number.
Comparisons are those of the whole numbers, also where both operands are texts.

Main result: `whole_arithmetic_exact`.
-/
import Mathlib.Data.Int.ModEq
import SealedScript.Proofs.Number.Conversion
import SealedScript.Value.Operators

namespace SealedScript

/-! ### Texts of whole numbers -/

/-- A sign, if there is one, and digits. -/
inductive WholeNumeral : List Char → Int → Prop
  | unsigned {digits : List Char} : digits ≠ [] → (∀ c ∈ digits, c.isDigit = true) →
      WholeNumeral digits (Nat.ofDigitChars 10 digits 0)
  | plus {digits : List Char} : digits ≠ [] → (∀ c ∈ digits, c.isDigit = true) →
      WholeNumeral ('+' :: digits) (Nat.ofDigitChars 10 digits 0)
  | minus {digits : List Char} : digits ≠ [] → (∀ c ∈ digits, c.isDigit = true) →
      WholeNumeral ('-' :: digits) (-(Nat.ofDigitChars 10 digits 0 : Int))

theorem readNat?_eq_some_iff {text : List Char} {n : Nat} :
    readNat? text = some n ↔
      text ≠ [] ∧ (∀ c ∈ text, c.isDigit = true) ∧ Nat.ofDigitChars 10 text 0 = n := by
  rw [readNat?]
  split
  · next hnone =>
    simp only [Bool.or_eq_true, List.isEmpty_iff, Bool.not_eq_true', List.all_eq_false] at hnone
    constructor
    · rintro ⟨⟩
    · rintro ⟨hne, hdigits, -⟩
      rcases hnone with rfl | ⟨c, hc, hnot⟩
      · exact absurd rfl hne
      · exact absurd (hdigits c hc) hnot
  · next hsome =>
    simp only [Bool.or_eq_true, List.isEmpty_iff, Bool.not_eq_true', not_or, Bool.not_eq_false,
      List.all_eq_true] at hsome
    exact ⟨fun hvalue => ⟨hsome.1, hsome.2, Option.some.inj hvalue⟩, fun hvalue => congrArg some hvalue.2.2⟩

theorem readInt?_minus (digits : List Char) :
    readInt? ('-' :: digits) = (readNat? digits).map fun n : Nat => -(n : Int) := by
  rw [readInt?]
  cases readNat? digits <;> rfl

theorem readInt?_plus (digits : List Char) : readInt? ('+' :: digits) = (readNat? digits).map Int.ofNat := rfl

/-- A text is read as a signed number exactly if it is written as one. -/
theorem readInt?_eq_some_iff {text : List Char} {a : Int} : readInt? text = some a ↔ WholeNumeral text a := by
  constructor
  · intro hread
    unfold readInt? at hread
    split at hread
    · next digits =>
      rw [← readInt?, readInt?_minus] at hread
      obtain ⟨n, hn, rfl⟩ := Option.map_eq_some_iff.mp hread
      obtain ⟨hne, hdigits, rfl⟩ := readNat?_eq_some_iff.mp hn
      exact .minus hne hdigits
    · obtain ⟨n, hn, rfl⟩ := Option.map_eq_some_iff.mp hread
      obtain ⟨hne, hdigits, rfl⟩ := readNat?_eq_some_iff.mp hn
      exact .plus hne hdigits
    · obtain ⟨n, hn, rfl⟩ := Option.map_eq_some_iff.mp hread
      obtain ⟨hne, hdigits, rfl⟩ := readNat?_eq_some_iff.mp hn
      exact .unsigned hne hdigits
  · intro hnumeral
    cases hnumeral with
    | unsigned hne hdigits =>
      unfold readInt?
      split
      · exact absurd (hdigits '-' List.mem_cons_self) (by decide)
      · exact absurd (hdigits '+' List.mem_cons_self) (by decide)
      · exact congrArg (Option.map Int.ofNat) (readNat?_eq_some_iff.mpr ⟨hne, hdigits, rfl⟩)
    | plus hne hdigits =>
      rw [readInt?_plus, readNat?_eq_some_iff.mpr ⟨hne, hdigits, rfl⟩]
      rfl
    | minus hne hdigits =>
      rw [readInt?_minus, readNat?_eq_some_iff.mpr ⟨hne, hdigits, rfl⟩]
      rfl

/-- Whether a whole number has 64 bits, the sign among them. -/
def FitsInt64 (a : Int) : Prop := -(int64Bound : Int) ≤ a ∧ a < int64Bound

theorem fitsInt64_toInt (n : Int64) : FitsInt64 n.toInt := ⟨n.le_toInt, n.toInt_lt⟩

theorem FitsInt64.toInt_ofInt {a : Int} (h : FitsInt64 a) : (Int64.ofInt a).toInt = a :=
  Int64.toInt_ofInt_of_le h.1 h.2

theorem readInt64?_eq_some_iff {text : List Char} {n : Int64} :
    readInt64? text = some n ↔ WholeNumeral text n.toInt := by
  rw [readInt64?, Option.bind_eq_some_iff, ← readInt?_eq_some_iff]
  constructor
  · rintro ⟨a, hread, hfits⟩
    rw [Option.ite_none_right_eq_some, Bool.and_eq_true, decide_eq_true_eq, decide_eq_true_eq] at hfits
    obtain ⟨hfits, hn⟩ := hfits
    rw [← Option.some.inj hn, FitsInt64.toInt_ofInt hfits, hread]
  · intro hread
    refine ⟨n.toInt, hread, ?_⟩
    rw [Option.ite_none_right_eq_some, Bool.and_eq_true, decide_eq_true_eq, decide_eq_true_eq]
    exact ⟨fitsInt64_toInt n, congrArg some n.ofInt_toInt⟩

/-- A size that is not zero is written as a whole number. -/
theorem readSize?_eq_some_iff {text : List Char} {n : Nat} (hn : 1 ≤ n) :
    readSize? text = some n ↔ WholeNumeral text n ∧ n < UInt64.size := by
  unfold readSize?
  rw [Option.filter_eq_some_iff, decide_eq_true_eq]
  refine and_congr_left fun _ => ?_
  constructor
  · intro hread
    split at hread
    · obtain ⟨hne, hdigits, rfl⟩ := readNat?_eq_some_iff.mp hread
      exact .plus hne hdigits
    · obtain ⟨hne, hdigits, rfl⟩ := readNat?_eq_some_iff.mp hread
      exact .unsigned hne hdigits
  · intro hnumeral
    generalize ha : (n : Int) = a at hnumeral
    cases hnumeral with
    | unsigned hne hdigits =>
      split
      · exact absurd (hdigits '+' List.mem_cons_self) (by decide)
      · exact readNat?_eq_some_iff.mpr ⟨hne, hdigits, Int.ofNat_inj.mp ha.symm⟩
    | plus hne hdigits => exact readNat?_eq_some_iff.mpr ⟨hne, hdigits, Int.ofNat_inj.mp ha.symm⟩
    | minus _ _ => omega

/-! ### Operands -/

/-- The text spells a number: a whole one of 64 bits, or a decimal one. -/
def SpellsNumber (text : List Char) : Prop :=
  (∃ a, WholeNumeral text a ∧ FitsInt64 a) ∨ looksNumeric text = true ∧ (readFloat? text).isSome = true

/-- The whole number that an operand counts as. -/
inductive Value.CountsAs : Value → Int → Prop
  | int (n : Int64) : CountsAs (.int n) n.toInt
  | bool (b : Bool) : CountsAs (.bool b) (if b then 1 else 0)
  | nil : CountsAs .nil 0
  | numeral {s : String} {a : Int} : WholeNumeral (trim s.toList) a → FitsInt64 a → CountsAs (.text s) a
  | word {s : String} : ¬SpellsNumber (trim s.toList) → CountsAs (.text s) 0

/-- What a text counts as. -/
theorem Number.ofText_eq_int_iff {text : List Char} {n : Int64} :
    Number.ofText text = .int n ↔
      WholeNumeral (trim text) n.toInt ∨ ¬SpellsNumber (trim text) ∧ n = 0 := by
  simp only [Number.ofText]
  generalize trim text = t
  rcases hread : readInt64? t with - | k
  · -- no whole number of 64 bits
    have hnone (a : Int) : ¬(WholeNumeral t a ∧ FitsInt64 a) := by
      rintro ⟨hnumeral, hfits⟩
      rw [← hfits.toInt_ofInt] at hnumeral
      rw [readInt64?_eq_some_iff.mpr hnumeral] at hread
      cases hread
    have hspells : SpellsNumber t ↔ looksNumeric t = true ∧ (readFloat? t).isSome = true :=
      or_iff_right fun ⟨a, ha⟩ => hnone a ha
    have hnumeral : ¬WholeNumeral t n.toInt := fun h => hnone _ ⟨h, fitsInt64_toInt n⟩
    rw [hspells, or_iff_right hnumeral]
    by_cases hlooks : looksNumeric t = true
    · rcases readFloat? t with - | x
      · simpa [hlooks] using eq_comm
      · simp [hlooks]
    · simpa [hlooks] using eq_comm
  · have hnumeral := readInt64?_eq_some_iff.mp hread
    have hspells : SpellsNumber t := .inl ⟨k.toInt, hnumeral, fitsInt64_toInt k⟩
    rw [or_iff_left fun h => h.1 hspells, ← readInt64?_eq_some_iff, hread]
    simp

/-- **The operands that count as whole numbers** are those that arithmetic takes for such. -/
theorem Value.countsAs_iff {v : Value} {a : Int} :
    v.CountsAs a ↔ ∃ n : Int64, v.number? = some (.int n) ∧ n.toInt = a := by
  constructor
  · intro h
    cases h with
    | int n => exact ⟨n, rfl, rfl⟩
    | bool b =>
      refine ⟨if b then 1 else 0, rfl, ?_⟩
      cases b <;> rfl
    | nil => exact ⟨0, rfl, rfl⟩
    | numeral hnumeral hfits =>
      rw [← hfits.toInt_ofInt] at hnumeral
      exact ⟨Int64.ofInt a, congrArg some (Number.ofText_eq_int_iff.mpr (.inl hnumeral)), hfits.toInt_ofInt⟩
    | word hword => exact ⟨0, congrArg some (Number.ofText_eq_int_iff.mpr (.inr ⟨hword, rfl⟩)), rfl⟩
  · rintro ⟨n, hnumber, rfl⟩
    cases v with
    | nil =>
      cases hnumber
      exact .nil
    | bool b =>
      cases hnumber
      have hbool := CountsAs.bool b
      cases b <;> exact hbool
    | int k =>
      cases hnumber
      exact .int _
    | text s =>
      rcases Number.ofText_eq_int_iff.mp (Option.some.inj hnumber) with hnumeral | ⟨hword, rfl⟩
      · exact .numeral hnumeral (fitsInt64_toInt n)
      · exact .word hword
    | float x => cases hnumber
    | list id | object id => cases hnumber

/-! ### Operators -/

/-- Operators on operands that count as numbers are those of the numbers, except that `&&` and `||` ask
for the truth of their operands and `+` joins texts. -/
theorem Heap.apply_numbers (h : Heap) {op : BinaryOp} {l r : Value} {x y : Number} (hl : l.number? = some x)
    (hr : r.number? = some y) (hop : op ≠ .and ∧ op ≠ .or)
    (htext : op = .add → l.isText = false ∧ r.isText = false) :
    h.apply op l r = (Number.apply op x y).map fun v => (v, h) := by
  have hplain {v : Value} {z : Number} (hv : v.number? = some z) : v.isShared = false := by
    cases v with
    | list id | object id => cases hv
    | _ => rfl
  have hsum : (decide (op = .add) && (l.isText || r.isText)) = false := by
    rw [Bool.and_eq_false_imp]
    intro hadd
    rw [(htext (of_decide_eq_true hadd)).1, (htext (of_decide_eq_true hadd)).2]
    rfl
  have hstructured : h.applyStructured op l r = (Number.apply op x y).map fun v => (v, h) := by
    unfold Heap.applyStructured
    split
    · cases hl
    · rw [hplain hl, hplain hr, Value.arithmetic, hl, hr]
      simp
  unfold Heap.apply
  split
  · exact absurd rfl hop.1
  · exact absurd rfl hop.2
  · rw [hsum]
    exact hstructured

namespace Number

variable (x y : Int64)

/-- What wraps around is right modulo 2^64. -/
theorem bmod_modEq (a : Int) : a.bmod (2 ^ 64) ≡ a [ZMOD Int64.size] := Int.bmod_emod

/-- A whole number is zero exactly if it stands for zero. -/
theorem eq_zero_iff_toInt : y = 0 ↔ y.toInt = 0 := by
  rw [← Int64.toInt_inj, Int64.toInt_zero]

/-- A whole number is taken for a zero by its floating point number exactly if it is zero. -/
theorem isZero_int : (Number.int y).isZero = true ↔ y = 0 := by
  have hbound : y.toInt.natAbs ≤ 2 ^ 64 := by
    obtain ⟨hlow, hhigh⟩ := fitsInt64_toInt y
    simp only [int64Bound] at hlow hhigh
    omega
  rw [eq_zero_iff_toInt, ← float_ofInt_beq_zero hbound]
  rfl

theorem apply_div_zero {op : BinaryOp} (hop : op = .div ∨ op = .rem) :
    Number.apply op (.int x) (.int 0) = .error .divisionByZero := by
  rcases hop with rfl | rfl
  · rw [Number.apply, if_pos ((isZero_int 0).mpr rfl)]
  · rfl

variable {y}

theorem apply_div_int (hy : y ≠ 0) : Number.apply .div (.int x) (.int y) = .ok (.int (x / y)) :=
  if_neg fun hzero => hy ((isZero_int y).mp hzero)

theorem apply_rem_int (hy : y ≠ 0) : Number.apply .rem (.int x) (.int y) = .ok (.int (x % y)) :=
  if_neg fun hzero => hy (beq_iff_eq.mp hzero)

/-- Quotient and remainder make up the dividend, up to what wraps around. -/
theorem div_mul_add_rem : (x / y).toInt * y.toInt + (x % y).toInt ≡ x.toInt [ZMOD Int64.size] := by
  have hquotient : (x / y).toInt ≡ x.toInt.tdiv y.toInt [ZMOD Int64.size] := by
    rw [Int64.toInt_div]
    exact bmod_modEq _
  have hexact : x.toInt.tdiv y.toInt * y.toInt + (x % y).toInt = x.toInt := by
    rw [Int64.toInt_mod]
    exact Int.tdiv_mul_add_tmod x.toInt y.toInt
  have hproduct := (hquotient.mul_right y.toInt).add_right (x % y).toInt
  rwa [hexact] at hproduct

/-- The remainder is smaller than the divisor. -/
theorem natAbs_rem_lt (hy : y ≠ 0) : (x % y).toInt.natAbs < y.toInt.natAbs := by
  rw [Int64.toInt_mod, Int.natAbs_tmod]
  exact Nat.mod_lt _ (Int.natAbs_pos.mpr fun hzero => hy ((eq_zero_iff_toInt y).mpr hzero))

/-- The remainder is zero or has the sign of the dividend. -/
theorem sign_rem : (x % y).toInt = 0 ∨ (x % y).toInt.sign = x.toInt.sign := by
  rw [Int64.toInt_mod]
  have hsign := Int.sign_tmod x.toInt y.toInt
  split at hsign
  · exact .inl (Int.sign_eq_zero_iff_zero.mp hsign)
  · exact .inr hsign

variable (y)

/-- Whole numbers are compared as such. -/
theorem compare_int : Number.compare (.int x) (.int y) = some (Ord.compare x.toInt y.toInt) := by
  show some (compareOfLessAndEq x y) = some (compareOfLessAndEq x.toInt y.toInt)
  simp only [compareOfLessAndEq, Int64.lt_iff_toInt_lt, Int64.toInt_inj]

/-- Whether a comparison holds of two whole numbers, for an operator that is one. -/
def comparison? (a b : Int) : BinaryOp → Option Bool
  | .lt => some (decide (a < b))
  | .le => some (decide (a ≤ b))
  | .eq => some (decide (a = b))
  | .ne => some (decide (a ≠ b))
  | .ge => some (decide (a ≥ b))
  | .gt => some (decide (a > b))
  | _ => none

/-- **Comparisons of whole numbers are exact.** -/
theorem apply_comparison {op : BinaryOp} {holds : Bool} (hop : comparison? x.toInt y.toInt op = some holds) :
    Number.apply op (.int x) (.int y) = .ok (.bool holds) := by
  have hcompare := compare_int x y
  rcases lt_trichotomy x.toInt y.toInt with hlt | heq | hgt
  · rw [compare_lt_iff_lt.mpr hlt] at hcompare
    cases op <;> cases hop <;> simp [Number.apply, hcompare, hlt, hlt.le, hlt.ne, hlt.not_ge, hlt.not_gt]
  · rw [compare_eq_iff_eq.mpr heq] at hcompare
    cases op <;> cases hop <;> simp [Number.apply, hcompare, heq]
  · rw [compare_gt_iff_gt.mpr hgt] at hcompare
    cases op <;> cases hop <;> simp [Number.apply, hcompare, hgt, hgt.le, hgt.ne', hgt.not_ge, hgt.not_gt]

end Number

/-- **Arithmetic on whole numbers is right modulo 2^64 and always answers.**  Let the operands count as
the whole numbers `a` and `b`.  Sums, unless an operand is a text, differences and products are right
modulo 2^64.  Quotients and remainders fail exactly if `b` is zero; otherwise they make up `a` modulo
2^64, and the remainder is smaller than `b` and zero or of the sign of `a`.  Comparisons are those of
`a` and `b`. -/
theorem whole_arithmetic_exact (h : Heap) {l r : Value} {a b : Int} (hl : l.CountsAs a) (hr : r.CountsAs b) :
    (l.isText = false → r.isText = false →
      ∃ n : Int64, h.apply .add l r = .ok (.int n, h) ∧ n.toInt ≡ a + b [ZMOD Int64.size]) ∧
    (∃ n : Int64, h.apply .sub l r = .ok (.int n, h) ∧ n.toInt ≡ a - b [ZMOD Int64.size]) ∧
    (∃ n : Int64, h.apply .mul l r = .ok (.int n, h) ∧ n.toInt ≡ a * b [ZMOD Int64.size]) ∧
    (h.apply .div l r = .error .divisionByZero ↔ b = 0) ∧
    (h.apply .rem l r = .error .divisionByZero ↔ b = 0) ∧
    (b ≠ 0 → ∃ q m : Int64, h.apply .div l r = .ok (.int q, h) ∧ h.apply .rem l r = .ok (.int m, h) ∧
      q.toInt * b + m.toInt ≡ a [ZMOD Int64.size] ∧ m.toInt.natAbs < b.natAbs ∧
      (m.toInt = 0 ∨ m.toInt.sign = a.sign)) ∧
    h.apply .lt l r = .ok (.bool (decide (a < b)), h) ∧ h.apply .le l r = .ok (.bool (decide (a ≤ b)), h) ∧
    h.apply .eq l r = .ok (.bool (decide (a = b)), h) ∧ h.apply .ne l r = .ok (.bool (decide (a ≠ b)), h) ∧
    h.apply .ge l r = .ok (.bool (decide (a ≥ b)), h) ∧ h.apply .gt l r = .ok (.bool (decide (a > b)), h) := by
  obtain ⟨x, hx, rfl⟩ := Value.countsAs_iff.mp hl
  obtain ⟨y, hy, rfl⟩ := Value.countsAs_iff.mp hr
  have happly {op : BinaryOp} {v : Except RuntimeError Value} (hv : Number.apply op (.int x) (.int y) = v)
      (hop : op ≠ .and ∧ op ≠ .or) (htext : op = .add → l.isText = false ∧ r.isText = false) :
      h.apply op l r = v.map fun v => (v, h) := hv ▸ h.apply_numbers hx hy hop htext
  have hfails {op : BinaryOp} (hop : op = .div ∨ op = .rem) (hok : y ≠ 0 → ∃ n, h.apply op l r = .ok (.int n, h)) :
      h.apply op l r = .error .divisionByZero ↔ y.toInt = 0 := by
    rw [← Number.eq_zero_iff_toInt]
    constructor
    · intro herror
      by_contra hne
      obtain ⟨n, hn⟩ := hok hne
      rw [hn] at herror
      cases herror
    · rintro rfl
      rw [happly (Number.apply_div_zero x hop) (by rcases hop with rfl | rfl <;> decide)
        (by rcases hop with rfl | rfl <;> nofun)]
      rfl
  have hdiv (hne : y ≠ 0) := happly (Number.apply_div_int x hne) (by decide) nofun
  have hrem (hne : y ≠ 0) := happly (Number.apply_rem_int x hne) (by decide) nofun
  refine ⟨fun hltext hrtext => ⟨x + y, happly rfl (by decide) fun _ => ⟨hltext, hrtext⟩, ?_⟩,
    ⟨x - y, happly rfl (by decide) nofun, ?_⟩, ⟨x * y, happly rfl (by decide) nofun, ?_⟩,
    hfails (.inl rfl) fun hne => ⟨_, hdiv hne⟩, hfails (.inr rfl) fun hne => ⟨_, hrem hne⟩, fun hne => ?_, ?_⟩
  · rw [Int64.toInt_add]
    exact Number.bmod_modEq _
  · rw [Int64.toInt_sub]
    exact Number.bmod_modEq _
  · rw [Int64.toInt_mul]
    exact Number.bmod_modEq _
  · have hne' : y ≠ 0 := fun hzero => hne ((Number.eq_zero_iff_toInt y).mp hzero)
    exact ⟨x / y, x % y, hdiv hne', hrem hne', Number.div_mul_add_rem x, Number.natAbs_rem_lt x hne',
      Number.sign_rem x⟩
  · have hcompares {op : BinaryOp} {holds : Bool} (hop : Number.comparison? x.toInt y.toInt op = some holds)
        (hkind : op ≠ .and ∧ op ≠ .or ∧ op ≠ .add) : h.apply op l r = .ok (.bool holds, h) :=
      happly (Number.apply_comparison x y hop) ⟨hkind.1, hkind.2.1⟩ fun hadd => absurd hadd hkind.2.2
    exact ⟨hcompares rfl (by decide), hcompares rfl (by decide), hcompares rfl (by decide),
      hcompares rfl (by decide), hcompares rfl (by decide), hcompares rfl (by decide)⟩

/-- The quotient that does not fit: the least number, spelled by a text, by minus one. -/
theorem least_number_by_minus_one :
    (Value.text " -9223372036854775808\t").CountsAs (-9223372036854775808) ∧ (Value.int (-1)).CountsAs (-1) ∧
    ∃ q m : Int64, Heap.apply {} .div (.text " -9223372036854775808\t") (.int (-1)) = .ok (.int q, {}) ∧
      Heap.apply {} .rem (.text " -9223372036854775808\t") (.int (-1)) = .ok (.int m, {}) ∧
      q.toInt * -1 + m.toInt ≡ -9223372036854775808 [ZMOD Int64.size] ∧ m.toInt = 0 := by
  have hl : (Value.text " -9223372036854775808\t").CountsAs (-9223372036854775808) :=
    .numeral (readInt?_eq_some_iff.mp (by decide +kernel)) ⟨by decide, by decide⟩
  have hr : (Value.int (-1)).CountsAs (-1) := .int (-1)
  obtain ⟨-, -, -, -, -, hquotient, -⟩ := whole_arithmetic_exact {} hl hr
  obtain ⟨q, m, hdiv, hrem, hmod, hsmall, -⟩ := hquotient (by decide)
  refine ⟨hl, hr, q, m, hdiv, hrem, hmod, ?_⟩
  rw [← Int.natAbs_eq_zero]
  exact Nat.lt_one_iff.mp hsmall

end SealedScript
