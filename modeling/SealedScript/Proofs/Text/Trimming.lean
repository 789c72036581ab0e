/-
SealedScript/Proofs/Text/Trimming.lean

What trimming leaves of a text.  Blanks at an end do not count, and a character
that is not blank stays together with everything on its other side.

Main results: `trim_between_blanks`, `Trimmed.trim_eq`.
-/
import SealedScript.Text.Blank

namespace SealedScript

theorem trimStart_append_of_blank {blanks text : List Char} (h : ∀ c ∈ blanks, isBlank c = true) :
    trimStart (blanks ++ text) = trimStart text :=
  List.dropWhile_append_of_pos h

theorem trimEnd_append_of_blank {blanks text : List Char} (h : ∀ c ∈ blanks, isBlank c = true) :
    trimEnd (text ++ blanks) = trimEnd text := by
  have hreverse : ∀ c ∈ blanks.reverse, isBlank c = true := fun c hc => h c (List.mem_reverse.1 hc)
  rw [trimEnd, List.reverse_append, List.dropWhile_append_of_pos hreverse, trimEnd]

theorem trimStart_cons {c : Char} (h : isBlank c = false) (text : List Char) :
    trimStart (c :: text) = c :: text := by
  rw [trimStart, List.dropWhile_cons_of_neg (by simp [h])]

theorem trimEnd_concat {c : Char} (h : isBlank c = false) (text : List Char) :
    trimEnd (text ++ [c]) = text ++ [c] := by
  rw [trimEnd, List.reverse_append, List.reverse_singleton, List.singleton_append,
    List.dropWhile_cons_of_neg (by simp [h]), List.reverse_cons, List.reverse_reverse]

/-- Blanks in front do not count. -/
theorem trim_blank_append {blanks : List Char} (h : ∀ c ∈ blanks, isBlank c = true) (text : List Char) :
    trim (blanks ++ text) = trim text := by
  rw [trim, trimStart_append_of_blank h, trim]

/-- Blanks behind do not count, not even behind nothing but blanks. -/
theorem trim_append_blank {blanks : List Char} (h : ∀ c ∈ blanks, isBlank c = true) (text : List Char) :
    trim (text ++ blanks) = trim text := by
  rw [trim, trim, trimStart, List.dropWhile_append]
  split
  · next hnone =>
    have hdry : blanks.dropWhile isBlank = [] := by
      have hdrop : (blanks ++ []).dropWhile isBlank = [] := List.dropWhile_append_of_pos h
      rwa [List.append_nil] at hdrop
    rw [hdry, trimStart, List.isEmpty_iff.mp hnone]
  · rw [trimEnd_append_of_blank h, trimStart]

/-- What trimming takes away are blanks. -/
theorem exists_blanks_around (text : List Char) : ∃ before after, (∀ c ∈ before, isBlank c = true) ∧
    (∀ c ∈ after, isBlank c = true) ∧ text = before ++ (trim text ++ after) := by
  have hblank (l : List Char) : ∀ c ∈ l.takeWhile isBlank, isBlank c = true :=
    fun c hc => List.all_eq_true.mp List.all_takeWhile c hc
  refine ⟨text.takeWhile isBlank, ((trimStart text).reverse.takeWhile isBlank).reverse, hblank _, ?_, ?_⟩
  · exact fun c hc => hblank _ c (List.mem_reverse.1 hc)
  · rw [trim, trimEnd, ← List.reverse_append, List.takeWhile_append_dropWhile, List.reverse_reverse, trimStart,
      List.takeWhile_append_dropWhile]

theorem length_trim_le (text : List Char) : (trim text).length ≤ text.length := by
  have hend : (trim text).length ≤ (trimStart text).length := by
    rw [trim, trimEnd, List.length_reverse, ← (trimStart text).length_reverse]
    exact (List.dropWhile_sublist _).length_le
  exact Nat.le_trans hend (List.dropWhile_sublist _).length_le

/-- Trimming a text without blanks takes away exactly the blanks around it. -/
theorem trim_between_blanks {before text after : List Char} (hbefore : ∀ c ∈ before, isBlank c = true)
    (hafter : ∀ c ∈ after, isBlank c = true) (hne : text ≠ [])
    (htext : ∀ c ∈ text, isBlank c = false) : trim (before ++ text ++ after) = text := by
  obtain ⟨c, rest, rfl⟩ := List.exists_cons_of_ne_nil hne
  obtain ⟨front, last, hlast⟩ : ∃ front last, c :: rest = front ++ [last] :=
    ⟨_, _, (List.dropLast_concat_getLast hne).symm⟩
  have hc : isBlank c = false := htext c List.mem_cons_self
  have hl : isBlank last = false := htext last (by rw [hlast]; simp)
  rw [trim, List.append_assoc, trimStart_append_of_blank hbefore, List.cons_append,
    trimStart_cons hc, ← List.cons_append, trimEnd_append_of_blank hafter, hlast, trimEnd_concat hl]

theorem trim_of_no_blanks {text : List Char} (htext : ∀ c ∈ text, isBlank c = false) : trim text = text := by
  by_cases hne : text = []
  · rw [hne]
    rfl
  · have hnil : ∀ c ∈ ([] : List Char), isBlank c = true := fun _ hc => absurd hc List.not_mem_nil
    have h := trim_between_blanks hnil hnil hne htext
    rwa [List.nil_append, List.append_nil] at h

/-- The first character stays in front. -/
theorem trim_cons {c : Char} (h : isBlank c = false) (text : List Char) :
    ∃ rest, trim (c :: text) = c :: rest := by
  rw [trim, trimStart_cons h, trimEnd, List.reverse_cons, List.dropWhile_append]
  split
  · refine ⟨[], ?_⟩
    rw [List.dropWhile_cons_of_neg (by simp [h])]
    rfl
  · refine ⟨(text.reverse.dropWhile isBlank).reverse, ?_⟩
    rw [List.reverse_append]
    rfl

/-- Trimming takes away blanks only. -/
theorem mem_trim_iff {text : List Char} {c : Char} (h : isBlank c = false) : c ∈ trim text ↔ c ∈ text := by
  have hdrop (l : List Char) : c ∈ l.dropWhile isBlank ↔ c ∈ l := by
    refine ⟨fun hc => (List.dropWhile_sublist _).mem hc, fun hc => ?_⟩
    rw [← List.takeWhile_append_dropWhile (p := isBlank) (l := l), List.mem_append] at hc
    refine hc.resolve_left fun htake => ?_
    rw [List.all_eq_true.mp List.all_takeWhile c htake] at h
    cases h
  rw [trim, trimEnd, List.mem_reverse, hdrop, List.mem_reverse, trimStart, hdrop]

/-! ### Texts with no blank at either end -/

/-- No blank stands at either end. -/
structure Trimmed (text : List Char) : Prop where
  first : ∀ c, text.head? = some c → isBlank c = false
  last : ∀ c, text.getLast? = some c → isBlank c = false

instance (text : List Char) : Decidable (Trimmed text) :=
  decidable_of_iff (text.head?.all (!isBlank ·) = true ∧ text.getLast?.all (!isBlank ·) = true)
    ⟨fun h => ⟨fun c hc => by simpa [hc] using h.1, fun c hc => by simpa [hc] using h.2⟩,
      fun h => ⟨by simpa [Option.all_eq_true] using h.first, by simpa [Option.all_eq_true] using h.last⟩⟩

namespace Trimmed

variable {text other : List Char}

theorem trim_eq (h : Trimmed text) : trim text = text := by
  cases text with
  | nil => rfl
  | cons c rest =>
    obtain ⟨front, last, hlast⟩ : ∃ front last, c :: rest = front ++ [last] :=
      ⟨_, _, (List.dropLast_concat_getLast (List.cons_ne_nil c rest)).symm⟩
    have hl : isBlank last = false := h.last last (by rw [hlast, List.getLast?_append, List.getLast?_singleton]; rfl)
    rw [trim, trimStart_cons (h.first c rfl), hlast, trimEnd_concat hl]

theorem of_no_blanks (h : ∀ c ∈ text, isBlank c = false) : Trimmed text :=
  ⟨fun c hc => h c (List.mem_of_mem_head? hc), fun c hc => h c (List.mem_of_mem_getLast? hc)⟩

/-- What stands between two such texts does not matter. -/
theorem append (h : Trimmed text) (hne : text ≠ []) (middle : List Char) (hother : Trimmed other) (hne' : other ≠ []) :
    Trimmed (text ++ middle ++ other) := by
  constructor
  · intro c hc
    rw [List.append_assoc, List.head?_append, List.head?_eq_some_head hne, Option.some_or] at hc
    exact h.first c (by rw [List.head?_eq_some_head hne, hc])
  · intro c hc
    rw [List.getLast?_append, List.getLast?_eq_some_getLast hne', Option.some_or] at hc
    exact hother.last c (by rw [List.getLast?_eq_some_getLast hne', hc])

/-- A blank in front of such a text is all that trimming takes away. -/
theorem trim_cons_blank (h : Trimmed text) {c : Char} (hc : isBlank c = true) : trim (c :: text) = text := by
  have hstart : trimStart (c :: text) = trimStart text := List.dropWhile_cons_of_pos hc
  rw [trim, hstart]
  exact h.trim_eq

end Trimmed

end SealedScript
