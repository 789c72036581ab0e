/-
SealedScript/Proofs/Value/Splitting.lean

Dividing the text of a list at its commas.  The text of an element is passed over as
a whole when it brings the count of brackets back to where it was and shows no comma
on the way that would count; such a text is solid.  Texts without brackets, quotes
and commas are solid, rows of solid texts are, and in brackets commas do not count.
What is joined by commas out of solid texts is divided into these texts again.

Main result: `Datum.split_joined`.
-/
import SealedScript.Value.Datum

namespace SealedScript

namespace Datum

/-! ### Pieces -/

/-- Puts a text in front of the first piece. -/
def attach (front : List Char) : List (List Char) → List (List Char)
  | [] => [front]
  | piece :: pieces => (front ++ piece) :: pieces

theorem attach_attach (front middle : List Char) (pieces : List (List Char)) :
    attach front (attach middle pieces) = attach (front ++ middle) pieces := by
  cases pieces with
  | nil => rfl
  | cons piece pieces => simp only [attach, List.append_assoc]

theorem split_ne_nil (depth : Nat) (quoted : Bool) (text : List Char) : split depth quoted text ≠ [] := by
  cases text with
  | nil => exact List.cons_ne_nil _ _
  | cons c rest =>
    rw [split]
    split
    · exact List.cons_ne_nil _ _
    · dsimp only
      split <;> exact List.cons_ne_nil _ _

theorem attach_nil_split (depth : Nat) (quoted : Bool) (text : List Char) :
    attach [] (split depth quoted text) = split depth quoted text := by
  obtain ⟨piece, pieces, h⟩ := List.exists_cons_of_ne_nil (split_ne_nil depth quoted text)
  rw [h, attach, List.nil_append]

/-- A comma that counts ends a piece. -/
theorem split_comma (rest : List Char) : split 0 false (',' :: rest) = [] :: split 0 false rest := rfl

/-- Any other character belongs to the piece. -/
theorem split_cons {depth : Nat} {c : Char} (h : c ≠ ',' ∨ 0 < depth) (hquote : c ≠ '"') (rest : List Char) :
    split depth false (c :: rest)
      = attach [c] (split (if c = '[' then depth + 1 else if c = ']' then depth - 1 else depth) false rest) := by
  have hcomma : (c = ',' && !false && depth == 0) = false := by
    rcases h with hc | hdepth
    · simp [hc]
    · simp [Nat.pos_iff_ne_zero.1 hdepth]
  have hopen : (false != (c == '"')) = false := by simp [hquote]
  rw [split, hcomma, hopen]
  simp only [Bool.false_eq_true, if_false]
  split
  · next piece pieces hpieces => rw [hpieces, attach, List.singleton_append]
  · next hpieces => rw [hpieces, attach]

/-! ### Solid texts -/

/-- Read at this depth of brackets and outside quotes, the text stays in one piece and
leaves the depth as it was. -/
def Solid (depth : Nat) (text : List Char) : Prop :=
  ∀ rest, split depth false (text ++ rest) = attach text (split depth false rest)

namespace Solid

variable {depth : Nat} {text other : List Char}

theorem nil (depth : Nat) : Solid depth [] := fun rest => (attach_nil_split depth false rest).symm

theorem append (h : Solid depth text) (hother : Solid depth other) : Solid depth (text ++ other) := by
  intro rest
  rw [List.append_assoc, h, hother, attach_attach]

theorem cons {c : Char} (h : Solid depth [c]) (hrest : Solid depth text) : Solid depth (c :: text) :=
  h.append hrest

/-- Characters that mean nothing to the division. -/
theorem of_plain (h : ∀ c ∈ text, c ≠ ',' ∧ c ≠ '"' ∧ c ≠ '[' ∧ c ≠ ']') : Solid depth text := by
  induction text with
  | nil => exact nil depth
  | cons c rest ih =>
    rw [List.forall_mem_cons] at h
    obtain ⟨⟨hcomma, hquote, hopen, hclose⟩, hrest⟩ := h
    refine cons (fun rest => ?_) (ih hrest)
    rw [List.singleton_append, split_cons (.inl hcomma) hquote, if_neg hopen, if_neg hclose]

/-- Inside brackets a comma is a character like any other. -/
theorem comma (depth : Nat) : Solid (depth + 1) [','] := by
  intro rest
  exact split_cons (.inr (Nat.succ_pos depth)) (by decide) rest

/-- Commas between texts inside brackets. -/
theorem joined {texts : List (List Char)} (h : ∀ t ∈ texts, Solid (depth + 1) t) :
    Solid (depth + 1) (", ".toList.intercalate texts) := by
  have hblank : Solid (depth + 1) [' '] := of_plain (by simp)
  have hseparator : Solid (depth + 1) ", ".toList := (comma depth).append hblank
  induction texts with
  | nil => exact nil _
  | cons t rest ih =>
    rw [List.forall_mem_cons] at h
    cases rest with
    | nil =>
      rw [List.intercalate_singleton]
      exact h.1
    | cons t' rest =>
      rw [List.intercalate_cons_cons]
      exact (h.1.append hseparator).append (ih h.2)

theorem bracketed (h : Solid (depth + 1) text) : Solid depth ('[' :: (text ++ [']'])) := by
  intro rest
  have hclose : split (depth + 1) false (']' :: rest) = attach [']'] (split depth false rest) :=
    split_cons (.inl (by decide)) (by decide) rest
  rw [List.cons_append, List.append_assoc, split_cons (.inl (by decide)) (by decide), if_pos rfl, h,
    List.singleton_append, hclose, attach_attach, attach_attach]
  rfl

end Solid

/-! ### Joined texts -/

/-- **Solid texts that are joined by commas are divided again.** -/
theorem split_joined {texts : List (List Char)} (hne : texts ≠ []) (h : ∀ t ∈ texts, Solid 0 t) :
    split 0 false ([','].intercalate texts) = texts := by
  induction texts with
  | nil => exact absurd rfl hne
  | cons t rest ih =>
    rw [List.forall_mem_cons] at h
    cases rest with
    | nil =>
      have hone := h.1 []
      rw [List.append_nil] at hone
      rw [List.intercalate_singleton, hone, split, attach, List.append_nil]
    | cons t' rest =>
      rw [List.intercalate_cons_cons, List.append_assoc, h.1, List.singleton_append, split_comma,
        ih (List.cons_ne_nil _ _) h.2, attach, List.append_nil]

end Datum

end SealedScript
