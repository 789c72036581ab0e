/-
SealedScript/Proofs/Value/Legible.lean

Values that are read back from their texts.  A text is read by trying one kind of
value after the other, so each kind has to fail on the texts of all kinds behind
it: a finite floating point number is written with a point and is no whole number,
the brackets of a list are part of no number, and an atom is a text that none of the
kinds accepts.  Lists of such values, inside each other to any depth and with empty
lists at any place, are then read element by element, for the commas and brackets of
an inner list do not count outside.

Main result: `values_read_back`.
-/
import SealedScript.Proofs.Number.Comparison
import SealedScript.Proofs.Number.RoundTrip
import SealedScript.Proofs.Value.Splitting
import SealedScript.Proofs.Value.Trees

namespace SealedScript

namespace Datum

/-! ### Kinds of data that can be read back -/

/-- A text that is read as itself, also as an element of a list. -/
structure IsAtom (s : String) : Prop where
  nonempty : s.toList ≠ []
  trimmed : Trimmed s.toList
  plain : ∀ c ∈ s.toList, c ≠ ',' ∧ c ≠ '"' ∧ c ≠ '[' ∧ c ≠ ']'
  noTruth : s.toList.map Char.toLower ≠ "true".toList ∧ s.toList.map Char.toLower ≠ "false".toList
  noInt : readInt64? s.toList = none
  noDecimal : looksNumeric s.toList = true → readFloat? s.toList = none

/-- Truth values, whole numbers, finite floating point numbers, atoms, and lists of these. -/
inductive Legible : Datum → Prop
  | bool (b : Bool) : Legible (.bool b)
  | int (n : Int64) : Legible (.int n)
  | float {x : Float} (finite : x.isFinite = true) : Legible (.float x)
  | text {s : String} (atom : IsAtom s) : Legible (.text s)
  | list {items : List Datum} (each : ∀ d ∈ items, Legible d) : Legible (.list items)

/-! ### Reading single values -/

theorem spells_eq_true_iff {word text : List Char} : spells word text = true ↔ text.map Char.toLower = word := by
  induction word generalizing text with
  | nil => cases text <;> simp [spells]
  | cons w word ih =>
    cases text with
    | nil => simp [spells]
    | cons c rest => rw [spells, Bool.and_eq_true, beq_iff_eq, ih, List.map_cons, List.cons.injEq, @eq_comm _ w]

theorem readWithin_float {x : Float} (hfinite : x.isFinite = true) (depth : Nat) :
    readWithin (depth + 1) (floatText x).toList = .float x := by
  have hdecimal := floatText_isDecimal hfinite
  have htrim := trim_of_no_blanks fun c hc => isBlank_of_toNat_le (hdecimal.toNat_le hc).1 (hdecimal.toNat_le hc).2
  have htrue : spells "true".toList (floatText x).toList = false :=
    not_spells_of_toNat_le (by decide) fun c hc => (hdecimal.toNat_le hc).2
  have hfalse : spells "false".toList (floatText x).toList = false :=
    not_spells_of_toNat_le (by decide) fun c hc => (hdecimal.toNat_le hc).2
  have hint := readInt64?_of_point_mem hdecimal.point_mem
  simp only [readWithin, htrim, htrue, hfalse, hint, hdecimal.looksNumeric_eq, readFloat?_floatText hfinite,
    Bool.false_eq_true, if_false, if_true]

theorem between?_of_not_mem {opener closer : Char} {text : List Char} (h : opener ∉ text) :
    between? opener closer text = none := by
  cases text with
  | nil => rfl
  | cons c rest =>
    have hne : c ≠ opener := fun heq => h (heq ▸ List.mem_cons_self)
    simp only [between?, hne, decide_false, Bool.false_and, Bool.false_eq_true, if_false]

theorem readWithin_atom {s : String} (h : IsAtom s) (depth : Nat) : readWithin (depth + 1) s.toList = .text s := by
  have htrue : spells "true".toList s.toList = false := by
    rw [← Bool.not_eq_true, spells_eq_true_iff]
    exact h.noTruth.1
  have hfalse : spells "false".toList s.toList = false := by
    rw [← Bool.not_eq_true, spells_eq_true_iff]
    exact h.noTruth.2
  have hfloat : (if looksNumeric s.toList then readFloat? s.toList else none) = none := by
    split
    · next hlooks => exact h.noDecimal hlooks
    · rfl
  have hbrackets : between? '[' ']' s.toList = none := between?_of_not_mem fun hc => (h.plain _ hc).2.2.1 rfl
  have hquotes : between? '"' '"' s.toList = none := between?_of_not_mem fun hc => (h.plain _ hc).2.1 rfl
  simp only [readWithin, h.trimmed.trim_eq, htrue, hfalse, h.noInt, hfloat, hbrackets, hquotes, Bool.false_eq_true,
    if_false, String.ofList_toList]

/-! ### Elements of lists -/

/-- A text that can be an element of a list: it has no blanks to lose at its ends, and
shows no comma outside its own brackets. -/
structure IsPiece (text : List Char) : Prop where
  nonempty : text ≠ []
  trimmed : Trimmed text
  solid : ∀ depth, Solid depth text

theorem IsAtom.isPiece {s : String} (h : IsAtom s) : IsPiece s.toList where
  nonempty := h.nonempty
  trimmed := h.trimmed
  solid _ := .of_plain h.plain

theorem isPiece_of_toNat_le {text : List Char} (hne : text ≠ [])
    (hrange : ∀ c ∈ text, 45 ≤ c.toNat ∧ c.toNat ≤ 57) : IsPiece text where
  nonempty := hne
  trimmed := .of_no_blanks fun c hc => isBlank_of_toNat_le (hrange c hc).1 (hrange c hc).2
  solid depth := by
    refine .of_plain fun c hc => ?_
    have hother (mark : Char) (hmark : mark.toNat < 45 ∨ 57 < mark.toNat) : c ≠ mark := by
      rintro rfl
      have := hrange c hc
      omega
    exact ⟨hother _ (by decide), hother _ (by decide), hother _ (by decide), hother _ (by decide)⟩

theorem joined_ne_nil {t : List Char} (h : t ≠ []) (separator : List Char) (rest : List (List Char)) :
    separator.intercalate (t :: rest) ≠ [] := by
  cases rest with
  | nil => rwa [List.intercalate_singleton]
  | cons t' rest => simp [List.intercalate_cons_cons, h]

/-- A row of pieces has no blanks at its ends. -/
theorem trimmed_joined {texts : List (List Char)} (h : ∀ t ∈ texts, IsPiece t) :
    Trimmed (", ".toList.intercalate texts) := by
  induction texts with
  | nil => exact .of_no_blanks fun _ hc => absurd hc List.not_mem_nil
  | cons t rest ih =>
    rw [List.forall_mem_cons] at h
    cases rest with
    | nil =>
      rw [List.intercalate_singleton]
      exact h.1.trimmed
    | cons t' rest =>
      rw [List.intercalate_cons_cons]
      exact h.1.trimmed.append h.1.nonempty _ (ih h.2) (joined_ne_nil (h.2 t' List.mem_cons_self).nonempty _ rest)

theorem isPiece_brackets {texts : List (List Char)} (h : ∀ t ∈ texts, IsPiece t) :
    IsPiece ('[' :: (", ".toList.intercalate texts ++ [']'])) where
  nonempty := List.cons_ne_nil _ _
  trimmed := by
    have hopen : Trimmed ['['] := .of_no_blanks (by simp [isBlank, inRanges, Blank.ranges])
    have hclose : Trimmed [']'] := .of_no_blanks (by simp [isBlank, inRanges, Blank.ranges])
    exact hopen.append (by decide) _ hclose (by decide)
  solid depth := .bracketed (.joined fun t ht => (h t ht).solid (depth + 1))

theorem Legible.isPiece {d : Datum} (h : Legible d) : IsPiece d.chars := by
  induction h with
  | bool b =>
    refine ⟨?_, .of_no_blanks ?_, fun depth => .of_plain ?_⟩ <;>
      cases b <;> simp [chars, isBlank, inRanges, Blank.ranges]
  | int n =>
    refine isPiece_of_toNat_le ?_ fun c hc => (isNumeral_of_mem_toString n.toInt hc).toNat_le
    intro hnil
    rw [chars] at hnil
    have hread := readInt?_toString n.toInt
    rw [hnil] at hread
    cases hread
  | float finite =>
    have hdecimal := floatText_isDecimal finite
    exact isPiece_of_toNat_le (List.ne_nil_of_mem hdecimal.point_mem) fun c hc => hdecimal.toNat_le hc
  | text atom => exact atom.isPiece
  | list _ ih =>
    rw [chars, allChars_eq_map]
    exact isPiece_brackets (List.forall_mem_map.2 ih)

/-! ### Reading lists -/

/-- What stands in brackets is read as a list. -/
theorem readWithin_brackets (depth : Nat) (inner : List Char) :
    readWithin (depth + 1) ('[' :: (inner ++ [']']))
      = if (trim inner).isEmpty then .list []
        else .list ((split 0 false (trim inner)).map fun piece => readWithin depth (trim piece)) := by
  have htrim : trim ('[' :: (inner ++ [']'])) = '[' :: (inner ++ [']']) := by
    rw [trim, trimStart_cons (by decide), ← List.cons_append, trimEnd_concat (by decide)]
  have hbetween : between? '[' ']' ('[' :: (inner ++ [']'])) = some inner := by
    simp [between?]
  have hint : readInt64? ('[' :: (inner ++ [']'])) = none := by
    simp [readInt64?, readInt?, readNat?]
  have hlooks : looksNumeric ('[' :: (inner ++ [']'])) = false := by
    simp [looksNumeric]
  have htrue : spells "true".toList ('[' :: (inner ++ [']'])) = false := rfl
  have hfalse : spells "false".toList ('[' :: (inner ++ [']'])) = false := rfl
  simp only [readWithin, htrim, htrue, hfalse, hint, hlooks, hbetween, Bool.false_eq_true, if_false]

/-- A blank behind every comma belongs to the piece behind it. -/
theorem intercalate_comma_space (t : List Char) (rest : List (List Char)) :
    ", ".toList.intercalate (t :: rest) = [','].intercalate (t :: rest.map (' ' :: ·)) := by
  induction rest generalizing t with
  | nil => rfl
  | cons t' rest ih =>
    rw [List.intercalate_cons_cons, ih t', List.map_cons, List.intercalate_cons_cons]
    cases rest with
    | nil => simp
    | cons t'' rest => simp

/-- **A list is read element by element** from the texts of its elements. -/
theorem readWithin_joined (depth : Nat) {texts : List (List Char)} (h : ∀ t ∈ texts, IsPiece t) :
    readWithin (depth + 1) ('[' :: (", ".toList.intercalate texts ++ [']']))
      = .list (texts.map (readWithin depth)) := by
  rw [readWithin_brackets, (trimmed_joined h).trim_eq]
  cases texts with
  | nil => rfl
  | cons t rest =>
    have hjoined : (", ".toList.intercalate (t :: rest)).isEmpty = false :=
      List.isEmpty_eq_false_iff.mpr (joined_ne_nil (h t List.mem_cons_self).nonempty _ rest)
    rw [List.forall_mem_cons] at h
    have hpieces : ∀ p ∈ t :: rest.map (' ' :: ·), Solid 0 p := by
      rw [List.forall_mem_cons, List.forall_mem_map]
      exact ⟨h.1.solid 0, fun t' ht' => .cons (.of_plain (by simp)) ((h.2 t' ht').solid 0)⟩
    have hrest : (rest.map (' ' :: ·)).map (fun piece => readWithin depth (trim piece))
        = rest.map (readWithin depth) := by
      rw [List.map_map]
      refine List.map_congr_left fun t' ht' => ?_
      exact congrArg (readWithin depth) ((h.2 t' ht').trimmed.trim_cons_blank (by decide))
    rw [hjoined, if_neg (by decide), intercalate_comma_space, split_joined (List.cons_ne_nil _ _) hpieces,
      List.map_cons, hrest, h.1.trimmed.trim_eq, List.map_cons]

/-! ### Reading trees -/

theorem Legible.readWithin_chars {d : Datum} (h : Legible d) {k : Nat} (hk : d.depth ≤ k) :
    readWithin (k + 1) d.chars = d := by
  induction h generalizing k with
  | bool b =>
    cases b with
    | true => exact readWithin_true k
    | false => exact readWithin_false k
  | int n => exact readWithin_int k n
  | float finite => exact readWithin_float finite k
  | text atom => exact readWithin_atom atom k
  | @list items each ih =>
    rw [depth] at hk
    obtain ⟨k, rfl⟩ := Nat.exists_eq_add_of_le' hk
    have hitems := depthOfAll_le_iff.1 (Nat.le_refl (depthOfAll items))
    have hpieces := List.forall_mem_map.2 fun d hd => (each d hd).isPiece
    rw [chars, allChars_eq_map, readWithin_joined _ hpieces, List.map_map]
    refine congrArg Datum.list ((List.map_congr_left fun d hd => ?_).trans (List.map_id items))
    exact ih d hd (Nat.le_trans (hitems d hd) (Nat.le_add_left _ _))

mutual

/-- Every list takes a character at least. -/
theorem depth_le_length (d : Datum) : d.depth ≤ d.chars.length := by
  match d with
  | .list items =>
    have := depthOfAll_le_length items
    rw [depth, chars, List.length_cons, List.length_append]
    omega
  | .nil | .bool _ | .int _ | .float _ | .text _ => exact Nat.zero_le _

theorem depthOfAll_le_length (items : List Datum) :
    depthOfAll items ≤ (", ".toList.intercalate (allChars items)).length := by
  match items with
  | [] => exact Nat.zero_le _
  | [d] =>
    have := depth_le_length d
    simpa [depthOfAll, allChars] using this
  | d :: e :: rest =>
    have hd := depth_le_length d
    have hrest := depthOfAll_le_length (e :: rest)
    rw [depthOfAll, Nat.max_le, allChars, allChars, List.intercalate_cons_cons, ← allChars]
    simp only [List.length_append]
    omega

end

theorem Legible.ofText_chars {d : Datum} (h : Legible d) : ofText (String.ofList d.chars) = d := by
  rw [ofText, String.toList_ofList]
  exact h.readWithin_chars (depth_le_length d)

/-! ### Equality -/

theorem sameAll_self {items : List Datum} (h : ∀ d ∈ items, d.same d = true) : sameAll items items = true := by
  induction items with
  | nil => rfl
  | cons d rest ih =>
    rw [List.forall_mem_cons] at h
    rw [sameAll, h.1, ih h.2, Bool.and_self]

theorem Legible.same_self {d : Datum} (h : Legible d) : d.same d = true := by
  induction h with
  | bool _ | int _ | text _ => simp [same]
  | float finite => exact float_beq_self (isNaN_eq_false_of_isFinite finite)
  | list _ ih => exact sameAll_self ih

end Datum

/-- **Values are read back from their texts.**  A value that stands for a tree of truth
values, whole numbers, finite floating point numbers, atoms and lists is written as
a text that is read as the very same tree; given a place in the heap, what was read
is equal to the value. -/
theorem values_read_back (h : Heap) {v : Value} {d : Datum} (hd : h.Holds v d) (hlegible : d.Legible) :
    Datum.ofText (h.text v) = d ∧
      let placed := h.place (Datum.ofText (h.text v))
      placed.2.Holds placed.1 d ∧ placed.2.Holds v d ∧ placed.2.equal v placed.1 = true := by
  have hread : Datum.ofText (h.text v) = d := by rw [hd.text_eq, hlegible.ofText_chars]
  obtain ⟨hext, hplaced⟩ := h.place_holds (Datum.ofText (h.text v))
  rw [hread] at hext hplaced ⊢
  have hv := hd.mono hext
  refine ⟨rfl, hplaced, hv, ?_⟩
  rw [hv.equal_eq hplaced hlegible.same_self, hlegible.same_self]

/-- Three lists, the first of them twice an element of the last. -/
def sharingHeap : Heap :=
  { lists := #[#[.int (-5), .bool true, .float 0.1, .text "two words"], #[], #[.list 0, .list 1, .list 0]] }

/-- The tree of the last list. -/
def sharedTree : Datum :=
  let inner : Datum := .list [.int (-5), .bool true, .float 0.1, .text "two words"]
  .list [inner, .list [], inner]

theorem sharedTree_legible : sharedTree.Legible := by
  have hfloat : Datum.Legible (.float 0.1) := .float (by decide +kernel)
  have htext : Datum.IsAtom "two words" :=
    ⟨by decide, ⟨by simp [isBlank, inRanges, Blank.ranges], by simp [isBlank, inRanges, Blank.ranges]⟩, by simp,
      by decide, by decide, by decide⟩
  have hinner : Datum.Legible (.list [.int (-5), .bool true, .float 0.1, .text "two words"]) := by
    refine .list ?_
    simp only [List.forall_mem_cons]
    exact ⟨.int _, .bool _, hfloat, .text htext, fun _ hd => absurd hd List.not_mem_nil⟩
  refine .list ?_
  simp only [List.forall_mem_cons]
  exact ⟨hinner, .list fun _ hd => absurd hd List.not_mem_nil, hinner, fun _ hd => absurd hd List.not_mem_nil⟩

theorem sharingHeap_holds : sharingHeap.Holds (.list 2) sharedTree := by
  have hinner : sharingHeap.Holds (.list 0) (.list [.int (-5), .bool true, .float 0.1, .text "two words"]) :=
    .list (by decide) (.cons (.int _) (.cons (.bool _) (.cons (.float _) (.cons (.text _) .nil))))
  have hempty : sharingHeap.Holds (.list 1) (.list []) := .list (by decide) .nil
  exact .list (by decide) (.cons hinner (.cons hempty (.cons hinner .nil)))

theorem shared_lists_read_back :
    sharingHeap.Holds (.list 2) sharedTree ∧ sharedTree.Legible ∧
      Datum.ofText (sharingHeap.text (.list 2)) = sharedTree :=
  ⟨sharingHeap_holds, sharedTree_legible, (values_read_back sharingHeap sharingHeap_holds sharedTree_legible).1⟩

end SealedScript
