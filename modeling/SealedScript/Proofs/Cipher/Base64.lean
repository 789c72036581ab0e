/-
SealedScript/Proofs/Cipher/Base64.lean

Reading undoes writing in 64 symbols, for rows of bytes of every length.

A written text is cut where the reader cuts it: into whole groups, which the
reader takes first, and a last group of four, which may be filled up.  The
induction is on the groups of three bytes that the writer takes, and the three
lengths of a rest are its base cases.

Main results: `Base64.decode_encode`, and `Base64.encode_isSymbol`, by which a
written text has nothing in it that a reader of lines could take for a blank.
-/
import SealedScript.Cipher.Base64

namespace SealedScript

namespace Base64

/-! ### Symbols -/

/-- A byte that a written text can hold. -/
def IsSymbol (b : UInt8) : Prop := b = filler ∨ ∃ n, n < 64 ∧ b = symbol n

theorem value?_symbol {n : Nat} (h : n < 64) : value? (symbol n) = some n := by
  have all : ∀ n : Fin 64, value? (symbol n) = some n.val := by decide +kernel
  exact all ⟨n, h⟩

theorem symbol_ne_filler {n : Nat} (h : n < 64) : symbol n ≠ filler := by
  have all : ∀ n : Fin 64, symbol n ≠ filler := by decide +kernel
  exact all ⟨n, h⟩

theorem readSymbol_symbol (offset : Nat) {n : Nat} (h : n < 64) :
    readSymbol offset (symbol n) = .ok n := by
  rw [readSymbol, value?_symbol h]

theorem encode_isSymbol (bytes : List UInt8) : ∀ b ∈ encode bytes, IsSymbol b := by
  have hsymbol {n : Nat} (h : n < 64) : IsSymbol (symbol n) := .inr ⟨n, h, rfl⟩
  have hfiller : IsSymbol filler := .inl rfl
  fun_induction encode bytes with
  | case1 => simp
  | case2 x a =>
    have ha : a < 256 := x.toNat_lt
    simp only [List.forall_mem_cons, List.not_mem_nil, false_implies, implies_true, and_true]
    exact ⟨hsymbol (by omega), hsymbol (by omega), hfiller, hfiller⟩
  | case3 x y a b =>
    have ha : a < 256 := x.toNat_lt
    have hb : b < 256 := y.toNat_lt
    simp only [List.forall_mem_cons, List.not_mem_nil, false_implies, implies_true, and_true]
    exact ⟨hsymbol (by omega), hsymbol (by omega), hsymbol (by omega), hfiller⟩
  | case4 x y z rest a b c ih =>
    have ha : a < 256 := x.toNat_lt
    have hb : b < 256 := y.toNat_lt
    have hc : c < 256 := z.toNat_lt
    simp only [List.forall_mem_cons]
    exact ⟨hsymbol (by omega), hsymbol (by omega), hsymbol (by omega), hsymbol (by omega), ih⟩

/-! ### Groups -/

/-- The three bytes that four symbols of a whole group were made of. -/
theorem group_bytes (x y z : UInt8) :
    UInt8.ofNat (x.toNat / 4 * 4 + (x.toNat % 4 * 16 + y.toNat / 16) / 16) = x ∧
    UInt8.ofNat ((x.toNat % 4 * 16 + y.toNat / 16) % 16 * 16 + (y.toNat % 16 * 4 + z.toNat / 64) / 4) = y ∧
    UInt8.ofNat ((y.toNat % 16 * 4 + z.toNat / 64) % 4 * 64 + z.toNat % 64) = z := by
  have hy : y.toNat < 256 := y.toNat_lt
  have hz : z.toNat < 256 := z.toNat_lt
  have h1 : x.toNat / 4 * 4 + (x.toNat % 4 * 16 + y.toNat / 16) / 16 = x.toNat := by omega
  have h2 : (x.toNat % 4 * 16 + y.toNat / 16) % 16 * 16 + (y.toNat % 16 * 4 + z.toNat / 64) / 4
      = y.toNat := by omega
  have h3 : (y.toNat % 16 * 4 + z.toNat / 64) % 4 * 64 + z.toNat % 64 = z.toNat := by omega
  rw [h1, h2, h3]
  exact ⟨UInt8.ofNat_toNat, UInt8.ofNat_toNat, UInt8.ofNat_toNat⟩

theorem readGroups_group (offset : Nat) (x y z : UInt8) {rest bytes : List UInt8}
    (h : readGroups (offset + 4) rest = .ok bytes) :
    readGroups offset (symbol (x.toNat / 4) :: symbol (x.toNat % 4 * 16 + y.toNat / 16)
      :: symbol (y.toNat % 16 * 4 + z.toNat / 64) :: symbol (z.toNat % 64) :: rest)
      = .ok (x :: y :: z :: bytes) := by
  have hx : x.toNat < 256 := x.toNat_lt
  have hy : y.toNat < 256 := y.toNat_lt
  have hz : z.toNat < 256 := z.toNat_lt
  obtain ⟨h1, h2, h3⟩ := group_bytes x y z
  rw [readGroups, readSymbol_symbol _ (by omega), readSymbol_symbol _ (by omega),
    readSymbol_symbol _ (by omega), readSymbol_symbol _ (by omega), h]
  simp only [bind, Except.bind, pure, Except.pure, h1, h2, h3]

theorem readLastSymbols_symbol (offset index : Nat) {n : Nat} (h : n < 64) (rest : List UInt8) :
    readLastSymbols offset (symbol n :: rest) index 0
      = (readLastSymbols offset rest (index + 1) 0).map fun (more, count) => (n :: more, count) := by
  rw [readLastSymbols, if_neg (symbol_ne_filler h), if_neg (Nat.lt_irrefl 0), readSymbol_symbol _ h]
  rcases hrest : readLastSymbols offset rest (index + 1) 0 with e | ⟨more, count⟩ <;> rfl

theorem readLastSymbols_filler (offset : Nat) {index : Nat} (h : 2 ≤ index) (rest : List UInt8)
    (filling : Nat) :
    readLastSymbols offset (filler :: rest) index filling
      = readLastSymbols offset rest (index + 1) (filling + 1) := by
  rw [readLastSymbols, if_pos rfl, if_neg (by omega)]

/-- What is left to do once the symbols of the last group have been read. -/
theorem readLastGroup_of_symbols {offset : Nat} {group : List UInt8} (symbols : List Nat) (filling : Nat)
    {bytes : List UInt8} (hread : readLastSymbols offset group 0 0 = .ok (symbols, filling))
    (htwo : 2 ≤ symbols.length) (hfour : symbols.length + filling = 4)
    (hbytes : ∀ last, lastBytes offset last symbols = .ok bytes) :
    readLastGroup offset group = .ok bytes := by
  have hlength : ¬symbols.length < 2 := by omega
  rw [readLastGroup, hread]
  simp only [bind, Except.bind, hlength, hfour, if_false, Nat.mod_self, ne_eq, not_true]
  exact hbytes _

theorem readLastGroup_one (offset : Nat) (x : UInt8) :
    readLastGroup offset [symbol (x.toNat / 4), symbol (x.toNat % 4 * 16), filler, filler] = .ok [x] := by
  have hx : x.toNat < 256 := x.toNat_lt
  have hbyte : x.toNat / 4 * 4 + x.toNat % 4 * 16 / 16 = x.toNat := by omega
  have hrest : x.toNat % 4 * 16 % 16 = 0 := by omega
  refine readLastGroup_of_symbols [x.toNat / 4, x.toNat % 4 * 16] 2 ?_ (Nat.le_refl 2) rfl ?_
  · rw [readLastSymbols_symbol _ _ (by omega), readLastSymbols_symbol _ _ (by omega),
      readLastSymbols_filler _ (by omega), readLastSymbols_filler _ (by omega), readLastSymbols]
    rfl
  · intro last
    rw [lastBytes, if_pos hrest, hbyte, UInt8.ofNat_toNat]

theorem readLastGroup_two (offset : Nat) (x y : UInt8) :
    readLastGroup offset [symbol (x.toNat / 4), symbol (x.toNat % 4 * 16 + y.toNat / 16),
      symbol (y.toNat % 16 * 4), filler] = .ok [x, y] := by
  have hx : x.toNat < 256 := x.toNat_lt
  have hy : y.toNat < 256 := y.toNat_lt
  have hbyte : x.toNat / 4 * 4 + (x.toNat % 4 * 16 + y.toNat / 16) / 16 = x.toNat := by omega
  have hbyte' : (x.toNat % 4 * 16 + y.toNat / 16) % 16 * 16 + y.toNat % 16 * 4 / 4 = y.toNat := by
    omega
  have hrest : y.toNat % 16 * 4 % 4 = 0 := by omega
  refine readLastGroup_of_symbols
    [x.toNat / 4, x.toNat % 4 * 16 + y.toNat / 16, y.toNat % 16 * 4] 1 ?_ (by simp) rfl ?_
  · rw [readLastSymbols_symbol _ _ (by omega), readLastSymbols_symbol _ _ (by omega),
      readLastSymbols_symbol _ _ (by omega), readLastSymbols_filler _ (by omega), readLastSymbols]
    rfl
  · intro last
    rw [lastBytes, if_pos hrest, hbyte, hbyte', UInt8.ofNat_toNat, UInt8.ofNat_toNat]

theorem readLastGroup_three (offset : Nat) (x y z : UInt8) :
    readLastGroup offset [symbol (x.toNat / 4), symbol (x.toNat % 4 * 16 + y.toNat / 16),
      symbol (y.toNat % 16 * 4 + z.toNat / 64), symbol (z.toNat % 64)] = .ok [x, y, z] := by
  have hx : x.toNat < 256 := x.toNat_lt
  have hy : y.toNat < 256 := y.toNat_lt
  have hz : z.toNat < 256 := z.toNat_lt
  obtain ⟨h1, h2, h3⟩ := group_bytes x y z
  refine readLastGroup_of_symbols [x.toNat / 4, x.toNat % 4 * 16 + y.toNat / 16,
    y.toNat % 16 * 4 + z.toNat / 64, z.toNat % 64] 0 ?_ (by simp) rfl ?_
  · rw [readLastSymbols_symbol _ _ (by omega), readLastSymbols_symbol _ _ (by omega),
      readLastSymbols_symbol _ _ (by omega), readLastSymbols_symbol _ _ (by omega), readLastSymbols]
    rfl
  · intro last
    rw [lastBytes, h1, h2, h3]

/-! ### The text as a whole -/

/-- A text that reads as the given bytes in its two parts: whole groups in
front, and a last group of four. -/
inductive Cut (offset : Nat) : List UInt8 → List UInt8 → Prop
  | parts (front last frontBytes lastBytes : List UInt8)
      (front_length : front.length % 4 = 0) (last_length : last.length = 4)
      (read_front : readGroups offset front = .ok frontBytes)
      (read_last : readLastGroup (offset + front.length) last = .ok lastBytes) :
      Cut offset (front ++ last) (frontBytes ++ lastBytes)

/-- A text of one group, which is then the last one. -/
theorem Cut.ofLast {offset : Nat} {last bytes : List UInt8} (hlength : last.length = 4)
    (hread : readLastGroup offset last = .ok bytes) : Cut offset last bytes :=
  .parts [] last [] bytes rfl hlength rfl hread

/-- A whole group in front of a text that can be cut. -/
theorem Cut.cons {offset : Nat} (x y z : UInt8) {text bytes : List UInt8}
    (h : Cut (offset + 4) text bytes) :
    Cut offset (symbol (x.toNat / 4) :: symbol (x.toNat % 4 * 16 + y.toNat / 16)
      :: symbol (y.toNat % 16 * 4 + z.toNat / 64) :: symbol (z.toNat % 64) :: text)
      (x :: y :: z :: bytes) := by
  obtain ⟨front, last, frontBytes, lastBytes, hfront, hlast, hreadFront, hreadLast⟩ := h
  refine .parts (symbol (x.toNat / 4) :: symbol (x.toNat % 4 * 16 + y.toNat / 16)
      :: symbol (y.toNat % 16 * 4 + z.toNat / 64) :: symbol (z.toNat % 64) :: front) last
    (x :: y :: z :: frontBytes) lastBytes ?_ hlast (readGroups_group offset x y z hreadFront) ?_
  · simp only [List.length_cons]
    omega
  · simp only [List.length_cons]
    rw [show offset + (front.length + 1 + 1 + 1 + 1) = offset + 4 + front.length by omega]
    exact hreadLast

/-- Every written text but the empty one can be cut. -/
theorem cut_encode (bytes : List UInt8) (h : bytes ≠ []) (offset : Nat) :
    Cut offset (encode bytes) bytes := by
  fun_induction encode bytes generalizing offset with
  | case1 => exact absurd rfl h
  -- one or two bytes are left over and the group is filled up
  | case2 x a => exact .ofLast rfl (readLastGroup_one offset x)
  | case3 x y a b => exact .ofLast rfl (readLastGroup_two offset x y)
  | case4 x y z rest a b c ih =>
    cases rest with
    | nil => exact .ofLast rfl (readLastGroup_three offset x y z)
    | cons next rest => exact .cons x y z (ih (List.cons_ne_nil _ _) (offset + 4))

theorem Cut.ne_nil {offset : Nat} {text bytes : List UInt8} (h : Cut offset text bytes) :
    text ≠ [] := by
  obtain ⟨front, last, -, -, -, hlast, -, -⟩ := h
  intro hnil
  have := congrArg List.length hnil
  simp only [List.length_append, List.length_nil] at this
  omega

theorem decode_of_cut {text bytes : List UInt8} (h : Cut 0 text bytes) :
    decode text = .ok bytes := by
  have hempty : text.isEmpty = false := List.isEmpty_eq_false_iff.2 h.ne_nil
  obtain ⟨front, last, frontBytes, lastBytes, hfront, hlast, hreadFront, hreadLast⟩ := h
  have hlength : (front ++ last).length = front.length + 4 := by
    rw [List.length_append, hlast]
  -- the length is a multiple of four, so no byte stands behind the groups
  have hstray : checkStray (front ++ last) = .ok () := by
    unfold checkStray
    split
    · omega
    · rfl
  have hleading : leadingLength (front ++ last).length = front.length := by
    rw [leadingLength, if_pos (by omega)]
    omega
  rw [Nat.zero_add] at hreadLast
  simp only [decode, hempty, hstray, hleading, List.take_left, List.drop_left, hreadFront, hreadLast,
    bind, Except.bind, pure, Except.pure, Bool.false_eq_true, if_false]

/-- **Reading undoes writing**, for every row of bytes. -/
theorem decode_encode (bytes : List UInt8) : decode (encode bytes) = .ok bytes := by
  by_cases h : bytes = []
  · subst h
    rfl
  · exact decode_of_cut (cut_encode bytes h 0)

/-- Only the empty row of bytes is written as nothing. -/
theorem encode_ne_nil {bytes : List UInt8} (h : bytes ≠ []) : encode bytes ≠ [] :=
  (cut_encode bytes h 0).ne_nil

/-! ### Texts that are refused -/

theorem readSymbol_stranger (offset : Nat) {b : UInt8} (h : value? b = none) :
    readSymbol offset b = .error (.invalidByte b offset) := by
  rw [readSymbol, h]

theorem readLastGroup_stranger (offset : Nat) {b : UInt8} (h : value? b = none) (rest : List UInt8) :
    ∃ e, readLastGroup offset (b :: rest) = .error e := by
  refine ⟨.invalidByte b (offset + 0), ?_⟩
  rw [readLastGroup, readLastSymbols]
  split
  · rfl
  · rw [if_neg (Nat.lt_irrefl 0), readSymbol_stranger _ h]
    rfl

/-- A text that begins with neither a symbol nor a filler is not read. -/
theorem decode_stranger {b : UInt8} (h : value? b = none) (rest : List UInt8) :
    ∃ e, decode (b :: rest) = .error e := by
  have hempty : (b :: rest).isEmpty = false := rfl
  rcases hstray : checkStray (b :: rest) with e | ⟨⟩
  · exact ⟨e, by simp only [decode, hempty, hstray, bind, Except.bind, Bool.false_eq_true, if_false]⟩
  -- the byte stands in the last group if the text has no more than four, and else in the first
  by_cases hlength : rest.length < 4
  · have hleading : leadingLength (b :: rest).length = 0 := by
      rw [leadingLength, List.length_cons]
      split <;> omega
    obtain ⟨e, he⟩ := readLastGroup_stranger 0 h rest
    refine ⟨e, ?_⟩
    simp only [decode, hempty, hstray, hleading, List.take_zero, List.drop_zero, he, readGroups, bind,
      Except.bind, Bool.false_eq_true, if_false]
  · obtain ⟨q, r, s, t, rest, rfl⟩ : ∃ q r s t rest', rest = q :: r :: s :: t :: rest' := by
      match rest, hlength with
      | q :: r :: s :: t :: rest, _ => exact ⟨q, r, s, t, rest, rfl⟩
      | [], hlength | [_], hlength | [_, _], hlength | [_, _, _], hlength =>
        exact absurd (by simp) hlength
    obtain ⟨k, hk⟩ : ∃ k, leadingLength (b :: q :: r :: s :: t :: rest).length = k + 4 := by
      refine ⟨leadingLength (b :: q :: r :: s :: t :: rest).length - 4, ?_⟩
      simp only [leadingLength, List.length_cons]
      split <;> omega
    refine ⟨.invalidByte b 0, ?_⟩
    simp only [decode, hempty, hstray, hk, List.take_succ_cons, readGroups, readSymbol_stranger _ h, bind,
      Except.bind, Bool.false_eq_true, if_false]

end Base64

end SealedScript
