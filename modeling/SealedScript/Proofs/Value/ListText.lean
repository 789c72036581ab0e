/-
SealedScript/Proofs/Value/ListText.lean

The text of a list is read element by element, whatever the elements are.  A text can
be an element if scanning it leads back to where it began, outside brackets and
quotes, and meets no comma there; blanks around it do not matter.  It need not be the
text of any value: an element may be empty, close brackets that were never opened, or
hold commas in quotes.

Blanks at the ends of the whole row are taken away before the row is divided, and
those around an element afterwards.  Both comes to the same, since the blanks at the
ends lie in the first and in the last piece.  And an element is read as it would be
on its own: it is shorter than the list, so the depth that is left is enough for it.

Main result: `Datum.ofText_listText`.
-/
import SealedScript.Proofs.Value.Legible

namespace SealedScript

/-! ### Scanning -/

/-- Where a scan stands: the brackets that are open, and whether a quote is. -/
structure Scan where
  depth : Nat := 0
  quoted : Bool := false
  deriving DecidableEq

namespace Scan

/-- Passes over one character.  A quote opens or closes, brackets count outside quotes
only, and a bracket that closes nothing changes nothing. -/
def next (s : Scan) (c : Char) : Scan where
  depth := if s.quoted then s.depth else if c = '[' then s.depth + 1 else if c = ']' then s.depth - 1 else s.depth
  quoted := s.quoted != (c == '"')

/-- The scan of the text meets no comma outside brackets and quotes, and ends outside them. -/
def Whole : Scan → List Char → Prop
  | s, [] => s = {}
  | s, c :: rest => (c = ',' → s ≠ {}) ∧ Whole (s.next c) rest

instance decidableWhole : (s : Scan) → (text : List Char) → Decidable (s.Whole text)
  | s, [] => inferInstanceAs (Decidable (s = {}))
  | s, c :: rest =>
    have := decidableWhole (s.next c) rest
    inferInstanceAs (Decidable ((c = ',' → s ≠ {}) ∧ (s.next c).Whole rest))

end Scan

namespace Datum

/-! ### Dividing and scanning -/

/-- A comma that counts ends a piece, and any other character belongs to it. -/
theorem split_scan (s : Scan) (c : Char) (rest : List Char) :
    (c = ',' ∧ s = {} ∧ split s.depth s.quoted (c :: rest) = [] :: split 0 false rest) ∨
      ((c = ',' → s ≠ {}) ∧
        split s.depth s.quoted (c :: rest) = attach [c] (split (s.next c).depth (s.next c).quoted rest)) := by
  by_cases hcounts : c = ',' ∧ s = {}
  · obtain ⟨rfl, rfl⟩ := hcounts
    exact .inl ⟨rfl, rfl, split_comma rest⟩
  · rw [not_and] at hcounts
    have hno : (c = ',' && !s.quoted && s.depth == 0) = false := by
      rw [← Bool.not_eq_true]
      simp only [Bool.and_eq_true, decide_eq_true_eq, Bool.not_eq_true', beq_iff_eq]
      rintro ⟨⟨hc, hquoted⟩, hdepth⟩
      obtain ⟨depth, quoted⟩ := s
      exact hcounts hc (by rw [show depth = 0 from hdepth, show quoted = false from hquoted])
    refine .inr ⟨hcounts, ?_⟩
    rw [split, hno]
    simp only [Bool.false_eq_true, if_false]
    show _ = attach [c] (split _ _ rest)
    split
    · next hpieces => rw [Scan.next, hpieces, attach, List.singleton_append]
    · next hpieces => rw [Scan.next, hpieces, attach]

/-- A whole text stays in one piece. -/
theorem split_whole {s : Scan} {text : List Char} (h : s.Whole text) (rest : List Char) :
    split s.depth s.quoted (text ++ rest) = attach text (split 0 false rest) := by
  induction text generalizing s with
  | nil =>
    cases h
    exact (attach_nil_split 0 false rest).symm
  | cons c text ih =>
    obtain ⟨hc, hs, -⟩ | ⟨-, hsplit⟩ := split_scan s c (text ++ rest)
    · exact absurd hs (h.1 hc)
    · rw [List.cons_append, hsplit, ih h.2, attach_attach, List.singleton_append]

theorem solid_of_whole {text : List Char} (h : Scan.Whole {} text) : Solid 0 text := split_whole h

/-- No piece is longer than the text. -/
theorem length_le_of_mem_split {s : Scan} {text piece : List Char} (h : piece ∈ split s.depth s.quoted text) :
    piece.length ≤ text.length := by
  induction text generalizing s piece with
  | nil =>
    rw [split, List.mem_singleton] at h
    rw [h]
  | cons c rest ih =>
    rw [List.length_cons]
    obtain ⟨-, -, hsplit⟩ | ⟨-, hsplit⟩ := split_scan s c rest
    · rw [hsplit, List.mem_cons] at h
      obtain rfl | hmem := h
      · exact Nat.zero_le _
      · have := ih (s := {}) hmem
        omega
    · obtain ⟨first, others, hpieces⟩ := List.exists_cons_of_ne_nil (split_ne_nil (s.next c).depth (s.next c).quoted rest)
      have hshort : ∀ p ∈ first :: others, p.length ≤ rest.length := fun p hp => ih (s := s.next c) (hpieces ▸ hp)
      rw [List.forall_mem_cons] at hshort
      rw [hsplit, hpieces, attach, List.mem_cons, List.singleton_append] at h
      obtain rfl | hmem := h
      · exact Nat.succ_le_succ hshort.1
      · exact Nat.le_succ_of_le (hshort.2 _ hmem)

/-! ### Blanks at the ends -/

theorem solid_blanks {blanks : List Char} (h : ∀ c ∈ blanks, isBlank c = true) (depth : Nat) : Solid depth blanks := by
  refine .of_plain fun c hc => ?_
  have hother (mark : Char) (hmark : isBlank mark = false) : c ≠ mark := by
    rintro rfl
    rw [h c hc] at hmark
    cases hmark
  exact ⟨hother _ (by decide), hother _ (by decide), hother _ (by decide), hother _ (by decide)⟩

/-- Blanks are one piece, in quotes and brackets as outside. -/
theorem split_blanks {blanks : List Char} (h : ∀ c ∈ blanks, isBlank c = true) (s : Scan) :
    split s.depth s.quoted blanks = [blanks] := by
  induction blanks generalizing s with
  | nil => rfl
  | cons c rest ih =>
    rw [List.forall_mem_cons] at h
    obtain ⟨rfl, -, -⟩ | ⟨-, hsplit⟩ := split_scan s c rest
    · exact absurd h.1 (by decide)
    · rw [hsplit, ih h.2, attach, List.singleton_append]

/-- Blanks at the end of a text belong to its last piece. -/
theorem split_append_blank {blanks : List Char} (h : ∀ c ∈ blanks, isBlank c = true) (s : Scan) (text : List Char) :
    ∃ front last, split s.depth s.quoted text = front ++ [last] ∧
      split s.depth s.quoted (text ++ blanks) = front ++ [last ++ blanks] := by
  induction text generalizing s with
  | nil => exact ⟨[], [], rfl, split_blanks h s⟩
  | cons c rest ih =>
    obtain ⟨rfl, rfl, -⟩ | ⟨hcounts, hsplit⟩ := split_scan s c rest
    · obtain ⟨front, last, hfront, hlast⟩ := ih {}
      exact ⟨[] :: front, last, congrArg ([] :: ·) hfront, congrArg ([] :: ·) hlast⟩
    · obtain ⟨front, last, hfront, hlast⟩ := ih (s.next c)
      obtain ⟨hc, hs, -⟩ | ⟨-, hsplit'⟩ := split_scan s c (rest ++ blanks)
      · exact absurd hs (hcounts hc)
      rw [List.cons_append, hsplit, hsplit', hfront, hlast]
      cases front with
      | nil => exact ⟨[], c :: last, rfl, rfl⟩
      | cons piece front => exact ⟨(c :: piece) :: front, last, rfl, rfl⟩

/-- Blanks at the ends of a row are blanks around its first and its last piece. -/
theorem map_trim_split_trim (text : List Char) :
    (split 0 false (trim text)).map trim = (split 0 false text).map trim := by
  obtain ⟨before, after, hbefore, hafter, htext⟩ := exists_blanks_around text
  obtain ⟨front, last, hfront, hlast⟩ := split_append_blank hafter {} (trim text)
  have hleading : (split 0 false text).map trim = (split 0 false (trim text ++ after)).map trim := by
    obtain ⟨piece, pieces, hpieces⟩ := List.exists_cons_of_ne_nil (split_ne_nil 0 false (trim text ++ after))
    conv_lhs => rw [htext, solid_blanks hbefore 0, hpieces]
    rw [hpieces, attach, List.map_cons, List.map_cons, trim_blank_append hbefore]
  rw [hleading, show split 0 false (trim text) = _ from hfront, show split 0 false (trim text ++ after) = _ from hlast,
    List.map_append, List.map_append, List.map_singleton, List.map_singleton, trim_append_blank hafter]

/-! ### Enough depth -/

theorem length_of_between? {opener closer : Char} {text inner : List Char}
    (h : between? opener closer text = some inner) : inner.length + 2 = text.length := by
  cases text with
  | nil => cases h
  | cons c rest =>
    rw [between?] at h
    split at h
    · next hends =>
      rw [Bool.and_eq_true, beq_iff_eq] at hends
      obtain ⟨front, hfront⟩ := List.getLast?_eq_some_iff.mp hends.2
      cases h
      simp [hfront]
    · cases h

/-- Beyond the length of the text, more depth changes nothing. -/
theorem readWithin_eq_of_length_lt {text : List Char} {depth depth' : Nat} (h : text.length < depth)
    (h' : text.length < depth') : readWithin depth text = readWithin depth' text := by
  induction depth generalizing depth' text with
  | zero => exact absurd h (Nat.not_lt_zero _)
  | succ depth ih =>
    obtain ⟨depth', rfl⟩ := Nat.exists_eq_add_of_le' (Nat.zero_lt_of_lt h')
    simp only [readWithin]
    cases hbetween : between? '[' ']' (trim text) with
    | none => rfl
    | some inner =>
      have hinner := length_of_between? hbetween
      have hpieces : (split 0 false (trim inner)).map (fun piece => readWithin depth (trim piece))
          = (split 0 false (trim inner)).map fun piece => readWithin depth' (trim piece) := by
        refine List.map_congr_left fun piece hpiece => ?_
        have hpiece := length_le_of_mem_split (s := {}) hpiece
        have htrims := length_trim_le piece
        have htrimmed := length_trim_le inner
        have htext := length_trim_le text
        exact ih (by omega) (by omega)
      simp only [hpieces]

/-! ### Lists -/

/-- An element as it is written: a text that can be an element, and blanks around it. -/
structure Element where
  before : List Char := []
  text : List Char
  after : List Char := []
  blankBefore : ∀ c ∈ before, isBlank c = true := by simp [isBlank, inRanges, Blank.ranges]
  blankAfter : ∀ c ∈ after, isBlank c = true := by simp [isBlank, inRanges, Blank.ranges]
  trimmed : Trimmed text
  whole : Scan.Whole {} text

namespace Element

/-- The element with its blanks. -/
def chars (e : Element) : List Char := e.before ++ (e.text ++ e.after)

theorem trim_chars (e : Element) : trim e.chars = e.text := by
  rw [chars, trim_blank_append e.blankBefore, trim_append_blank e.blankAfter, e.trimmed.trim_eq]

theorem solid_chars (e : Element) : Solid 0 e.chars :=
  (solid_blanks e.blankBefore 0).append ((solid_of_whole e.whole).append (solid_blanks e.blankAfter 0))

end Element

/-- The elements in brackets, with commas between them. -/
def listText (elements : List Element) : String :=
  String.ofList ('[' :: ([','].intercalate (elements.map Element.chars) ++ [']']))

theorem split_elements {elements : List Element} (hne : elements ≠ []) :
    split 0 false ([','].intercalate (elements.map Element.chars)) = elements.map Element.chars :=
  split_joined (List.map_eq_nil_iff.not.mpr hne) (List.forall_mem_map.2 fun e _ => e.solid_chars)

/-- A row is divided into its elements. -/
theorem map_trim_split_elements {elements : List Element} (hne : elements ≠ []) :
    (split 0 false (trim ([','].intercalate (elements.map Element.chars)))).map trim = elements.map Element.text := by
  rw [map_trim_split_trim, split_elements hne, List.map_map]
  exact List.map_congr_left fun e _ => e.trim_chars

theorem length_le_of_mem_elements {elements : List Element} {e : Element} (he : e ∈ elements) :
    e.text.length ≤ ([','].intercalate (elements.map Element.chars)).length := by
  have hmem := List.mem_map_of_mem (f := Element.chars) he
  rw [← split_elements (List.ne_nil_of_mem he)] at hmem
  have hchars := length_le_of_mem_split (s := {}) hmem
  rw [Element.chars, List.length_append, List.length_append] at hchars
  omega

/-- The text of a list is read element by element, each as it would be read on its own. -/
theorem ofText_listText {elements : List Element} (h : elements.map Element.text ≠ [[]]) :
    ofText (listText elements) = .list (elements.map fun e => ofText (String.ofList e.text)) := by
  obtain rfl | hne := eq_or_ne elements []
  · rfl
  have hpieces := map_trim_split_elements hne
  have hlength : ∀ e ∈ elements, _ := fun e he => length_le_of_mem_elements he
  set inner := [','].intercalate (elements.map Element.chars) with hinner
  have hsome : (trim inner).isEmpty = false := by
    rw [List.isEmpty_eq_false_iff]
    intro hnone
    rw [hnone] at hpieces
    exact h hpieces.symm
  have helement : ∀ e ∈ elements, readWithin (inner.length + 2) e.text = ofText (String.ofList e.text) := by
    intro e he
    have := hlength e he
    rw [ofText, String.toList_ofList]
    exact readWithin_eq_of_length_lt (by omega) (Nat.lt_succ_self _)
  have hdepth : ('[' :: (inner ++ [']'])).length + 1 = inner.length + 2 + 1 := by simp
  calc ofText (listText elements)
      = .list ((split 0 false (trim inner)).map fun piece => readWithin (inner.length + 2) (trim piece)) := by
        rw [ofText, listText, ← hinner, String.toList_ofList, hdepth, readWithin_brackets, hsome, if_neg (by decide)]
    _ = .list ((elements.map Element.text).map (readWithin (inner.length + 2))) := by
        rw [← hpieces, List.map_map]
        rfl
    _ = .list (elements.map fun e => ofText (String.ofList e.text)) := by
        rw [List.map_map]
        exact congrArg Datum.list (List.map_congr_left helement)

end Datum

/-! ### Lists in the heap -/

theorem Heap.HoldsAll.length_eq {h : Heap} {values : List Value} {items : List Datum}
    (hitems : h.HoldsAll values items) : values.length = items.length := by
  induction items generalizing values with
  | nil =>
    cases hitems
    rfl
  | cons d rest ih =>
    cases hitems with
    | cons _ hrest => rw [List.length_cons, List.length_cons, ih hrest]

open Datum in
/-- **A list is read element by element.**  What stands in brackets, divided by commas and
with any blanks around the commas and inside the brackets, is read as the list of what the
single texts are read as.  Given a place in the heap it has one element for each text. -/
theorem list_read_by_elements (h : Heap) {elements : List Element} (hsome : elements.map Element.text ≠ [[]]) :
    ofText (listText elements) = .list (elements.map fun e => ofText (String.ofList e.text)) ∧
      let placed := h.place (ofText (listText elements))
      ∃ id, placed.1 = .list id ∧ placed.2.length id = elements.length ∧
        placed.2.HoldsAll (placed.2.elements id).toList (elements.map fun e => ofText (String.ofList e.text)) := by
  have hread := ofText_listText hsome
  refine ⟨hread, ?_⟩
  obtain ⟨-, hplaced⟩ := h.place_holds (ofText (listText elements))
  dsimp only
  rw [hread] at hplaced ⊢
  generalize hitems : elements.map (fun e => ofText (String.ofList e.text)) = items at hplaced ⊢
  generalize h.place (.list items) = placed at hplaced ⊢
  obtain ⟨v, after⟩ := placed
  cases hplaced with
  | list known each =>
    refine ⟨_, rfl, ?_, each⟩
    rw [Heap.length, ← Array.length_toList, each.length_eq, ← hitems, List.length_map]

/-- A list in a list, an empty text, a comma in quotes, and a bracket that closes nothing,
with blanks around some of them. -/
def mixedElements : List Datum.Element :=
  [{ text := "[1, [2]]".toList, after := [' '], trimmed := by decide, whole := by decide },
    { text := [], trimmed := by decide, whole := by decide },
    { before := [' ', '\n'], text := "\"a,b\"".toList, trimmed := by decide, whole := by decide },
    { text := "]x".toList, after := ['\t'], trimmed := by decide, whole := by decide }]

theorem mixed_list_read :
    mixedElements.map Datum.Element.text ≠ [[]] ∧
      Datum.ofText "[[1, [2]] ,, \n\"a,b\",]x\t]"
        = .list (["[1, [2]]", "", "\"a,b\"", "]x"].map Datum.ofText) :=
  have hsome : mixedElements.map Datum.Element.text ≠ [[]] := by decide
  ⟨hsome, (list_read_by_elements {} hsome).1⟩

end SealedScript
