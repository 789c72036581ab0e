/-
SealedScript/Proofs/Value/Trees.lean

Values as trees.  A value in a heap stands for a tree of data when following the
numbers of its lists comes to an end; lists may be shared, but none lies inside
itself.  What the heap does to such a value is then told by the tree alone: its text
is the text of the tree, and two values are equal iff their trees are.  The heap
counts how deep it goes into lists, and never has to stop early, because no more
lists lie inside each other than there are.

Main results: `Heap.Holds.depth_le`, `Heap.Holds.text_eq`, `Heap.Holds.equal_eq`,
`Heap.place_holds`.
-/
import Mathlib.Data.Fintype.Card
import SealedScript.Value.Heap

namespace SealedScript

/-! ### Trees -/

namespace Datum

mutual

/-- The text of a tree. -/
def chars : Datum → List Char
  | .nil => "null".toList
  | .bool b => (if b then "true" else "false").toList
  | .int n => (toString n.toInt).toList
  | .float x => (floatText x).toList
  | .text s => s.toList
  | .list items => '[' :: (", ".toList.intercalate (allChars items) ++ [']'])

/-- The texts of a row of trees. -/
def allChars : List Datum → List (List Char)
  | [] => []
  | d :: rest => d.chars :: allChars rest

end

mutual

/-- The number of lists inside each other. -/
def depth : Datum → Nat
  | .list items => depthOfAll items + 1
  | _ => 0

/-- The greatest depth in a row of trees. -/
def depthOfAll : List Datum → Nat
  | [] => 0
  | d :: rest => max d.depth (depthOfAll rest)

end

mutual

/-- Whether two trees are equal, element by element. -/
def same : Datum → Datum → Bool
  | .nil, .nil => true
  | .bool a, .bool b => a == b
  | .int a, .int b => a == b
  | .float a, .float b => a == b
  | .text a, .text b => a == b
  | .list items, .list others => sameAll items others
  | _, _ => false

/-- Whether two rows of trees are equal, one by one. -/
def sameAll : List Datum → List Datum → Bool
  | [], [] => true
  | d :: rest, e :: others => d.same e && sameAll rest others
  | _, _ => false

end

theorem allChars_eq_map (items : List Datum) : allChars items = items.map chars := by
  induction items with
  | nil => rfl
  | cons d rest ih => rw [allChars, ih, List.map_cons]

theorem depthOfAll_le_iff {items : List Datum} {k : Nat} : depthOfAll items ≤ k ↔ ∀ d ∈ items, d.depth ≤ k := by
  induction items with
  | nil => simp [depthOfAll]
  | cons d rest ih => rw [depthOfAll, Nat.max_le, ih, List.forall_mem_cons]

end Datum

/-! ### Values that stand for trees -/

namespace Heap

mutual

/-- The value stands for this tree. -/
inductive Holds (h : Heap) : Value → Datum → Prop
  | nil : Holds h .nil .nil
  | bool (b : Bool) : Holds h (.bool b) (.bool b)
  | int (n : Int64) : Holds h (.int n) (.int n)
  | float (x : Float) : Holds h (.float x) (.float x)
  | text (s : String) : Holds h (.text s) (.text s)
  | list {id : ListId} {items : List Datum} (known : id < h.lists.size)
      (elements : HoldsAll h (h.elements id).toList items) : Holds h (.list id) (.list items)

/-- The values of a row stand for these trees, one by one. -/
inductive HoldsAll (h : Heap) : List Value → List Datum → Prop
  | nil : HoldsAll h [] []
  | cons {v : Value} {d : Datum} {values : List Value} {items : List Datum} (first : Holds h v d)
      (rest : HoldsAll h values items) : HoldsAll h (v :: values) (d :: items)

end

variable {h : Heap}

mutual

/-- A value stands for one tree at most. -/
theorem Holds.unique {v : Value} {d d' : Datum} (hd : h.Holds v d) (hd' : h.Holds v d') : d = d' := by
  match hd, hd' with
  | .nil, .nil | .bool _, .bool _ | .int _, .int _ | .float _, .float _ | .text _, .text _ => rfl
  | .list _ elements, .list _ elements' => rw [elements.unique elements']

theorem HoldsAll.unique {values : List Value} {items items' : List Datum} (hitems : h.HoldsAll values items)
    (hitems' : h.HoldsAll values items') : items = items' := by
  match hitems, hitems' with
  | .nil, .nil => rfl
  | .cons first rest, .cons first' rest' => rw [first.unique first', rest.unique rest']

end

theorem HoldsAll.exists_of_mem {values : List Value} {items : List Datum} (hitems : h.HoldsAll values items)
    {v : Value} (hv : v ∈ values) : ∃ d ∈ items, h.Holds v d := by
  match hitems, hv with
  | .cons first _, .head _ => exact ⟨_, List.mem_cons_self, first⟩
  | .cons _ rest, .tail _ hv =>
    obtain ⟨d, hd, hholds⟩ := rest.exists_of_mem hv
    exact ⟨d, List.mem_cons_of_mem _ hd, hholds⟩

/-- No list that stands for a tree is an element of itself: the tree would be
deeper than itself. -/
theorem Holds.ne_self {id : ListId} {d : Datum} (hd : h.Holds (.list id) d) :
    ∀ v ∈ (h.elements id).toList, v ≠ .list id := by
  rintro v hv rfl
  cases hd with
  | @list _ items known elements =>
    obtain ⟨inner, hmem, hinner⟩ := elements.exists_of_mem hv
    have hself : inner = .list items := hinner.unique (.list known elements)
    have hdepth := Datum.depthOfAll_le_iff.1 (Nat.le_refl (Datum.depthOfAll items)) inner hmem
    rw [hself, Datum.depth] at hdepth
    omega

/-! ### Depth -/

mutual

/-- Below a tree there is a list of every depth up to its own. -/
theorem Holds.exists_depth {v : Value} {d : Datum} (hd : h.Holds v d) {j : Nat} (hj : j < d.depth) :
    ∃ id : Fin h.lists.size, ∃ inner, h.Holds (.list id) inner ∧ inner.depth = j + 1 := by
  match hd with
  | @Holds.list _ id items known elements =>
    rw [Datum.depth] at hj
    by_cases htop : j = Datum.depthOfAll items
    · exact ⟨⟨id, known⟩, .list items, .list known elements, by rw [Datum.depth, htop]⟩
    · exact elements.exists_depth (by omega)

theorem HoldsAll.exists_depth {values : List Value} {items : List Datum} (hitems : h.HoldsAll values items) {j : Nat}
    (hj : j < Datum.depthOfAll items) :
    ∃ id : Fin h.lists.size, ∃ inner, h.Holds (.list id) inner ∧ inner.depth = j + 1 := by
  match hitems with
  | .cons first rest =>
    rw [Datum.depthOfAll, lt_max_iff] at hj
    exact hj.elim first.exists_depth rest.exists_depth

end

/-- **No more lists lie inside each other than there are.**  Lists of different depths
have different numbers, since a number stands for one tree only. -/
theorem Holds.depth_le {v : Value} {d : Datum} (hd : h.Holds v d) : d.depth ≤ h.lists.size := by
  have hlists (j : Fin d.depth) := hd.exists_depth j.isLt
  choose number inner hinner hdepth using hlists
  have hinjective : Function.Injective number := by
    intro i j hij
    have hsame : inner i = inner j := (hinner i).unique (hij ▸ hinner j)
    have := hdepth i
    rw [hsame, hdepth j] at this
    exact Fin.ext (by omega)
  simpa using Fintype.card_le_of_injective number hinjective

/-! ### Texts -/

/-- The text of a list none of whose elements is the list itself. -/
theorem textWithin_list {id : ListId} (hself : ∀ v ∈ (h.elements id).toList, v ≠ .list id) (busy : Option ObjectId)
    (k : Nat) :
    h.textWithin busy (k + 1) (.list id)
      = '[' :: (", ".toList.intercalate ((h.elements id).toList.map (h.textWithin busy k)) ++ [']']) := by
  rw [textWithin, List.cons_append]
  congr 3
  refine List.map_congr_left ?_
  intro v hv
  cases v with
  | list inner =>
    have hne : inner ≠ id := fun heq => hself _ hv (by rw [heq])
    exact if_neg hne
  | nil | bool _ | int _ | float _ | text _ | object _ => rfl

mutual

theorem Holds.textWithin_eq {v : Value} {d : Datum} (hd : h.Holds v d) (busy : Option ObjectId) {k : Nat}
    (hk : d.depth ≤ k) : h.textWithin busy k v = d.chars := by
  match hd, k with
  | .nil, _ | .bool _, _ | .int _, _ | .float _, _ | .text _, _ => rw [textWithin, Datum.chars]
  | .list known elements, k + 1 =>
    rw [Datum.depth, Nat.add_le_add_iff_right] at hk
    rw [textWithin_list (Holds.list known elements).ne_self, elements.textWithin_eq busy hk, Datum.chars]

theorem HoldsAll.textWithin_eq {values : List Value} {items : List Datum} (hitems : h.HoldsAll values items)
    (busy : Option ObjectId) {k : Nat} (hk : Datum.depthOfAll items ≤ k) :
    values.map (h.textWithin busy k) = Datum.allChars items := by
  match hitems with
  | .nil => rfl
  | .cons first rest =>
    rw [Datum.depthOfAll, Nat.max_le] at hk
    rw [List.map_cons, first.textWithin_eq busy hk.1, rest.textWithin_eq busy hk.2, Datum.allChars]

end

/-- **The text of a value is the text of its tree.** -/
theorem Holds.text_eq {v : Value} {d : Datum} (hd : h.Holds v d) : h.text v = String.ofList d.chars := by
  have hwithin := hd.textWithin_eq none (Nat.le_succ_of_le hd.depth_le)
  cases hd with
  | text s => exact String.ofList_toList.symm
  | nil | bool _ | int _ | float _ | list _ _ => exact congrArg String.ofList hwithin

/-! ### Equality -/

mutual

/-- Comparing values compares their trees.  Two values with one number have one
tree, and that tree must be equal to itself. -/
theorem Holds.equalWithin_eq {v v' : Value} {d d' : Datum} (hd : h.Holds v d) (hd' : h.Holds v' d')
    (hself : d.same d = true) {k : Nat} (hk : d.depth ≤ k) : h.equalWithin k v v' = d.same d' := by
  match hd, hd', k with
  | @Holds.list _ a items known elements, @Holds.list _ b items' known' elements', k + 1 =>
    rw [Datum.depth, Nat.add_le_add_iff_right] at hk
    by_cases hab : a = b
    · subst hab
      rw [elements'.unique elements, hself, equalWithin, beq_self_eq_true, Bool.true_or]
    · rw [Datum.same] at hself
      rw [equalWithin, beq_eq_false_iff_ne.mpr hab, Bool.false_or, Datum.same,
        ← elements.equalWithin_eq elements' hself hk]
      rfl
  | .list _ _, .nil, _ | .list _ _, .bool _, _ | .list _ _, .int _, _ | .list _ _, .float _, _
  | .list _ _, .text _, _ => simp only [equalWithin, Datum.same]
  | .nil, hd', _ | .bool _, hd', _ | .int _, hd', _ | .float _, hd', _ | .text _, hd', _ =>
    cases hd' <;> simp only [equalWithin, Datum.same]

theorem HoldsAll.equalWithin_eq {values values' : List Value} {items items' : List Datum}
    (hitems : h.HoldsAll values items) (hitems' : h.HoldsAll values' items')
    (hself : Datum.sameAll items items = true) {k : Nat} (hk : Datum.depthOfAll items ≤ k) :
    (values.length == values'.length && (values.zip values').all fun (x, y) => h.equalWithin k x y)
      = Datum.sameAll items items' := by
  match hitems, hitems' with
  | .nil, .nil => rfl
  | .nil, .cons _ _ => rfl
  | .cons _ _, .nil => rfl
  | .cons first rest, .cons first' rest' =>
    rw [Datum.depthOfAll, Nat.max_le] at hk
    rw [Datum.sameAll, Bool.and_eq_true] at hself
    rw [Datum.sameAll, ← first.equalWithin_eq first' hself.1 hk.1, ← rest.equalWithin_eq rest' hself.2 hk.2]
    have hlength (n m : Nat) : (n + 1 == m + 1) = (n == m) := by simp
    simp only [List.length_cons, List.zip_cons_cons, List.all_cons, hlength, Bool.and_left_comm]

end

/-- **Two values are equal iff their trees are.** -/
theorem Holds.equal_eq {v v' : Value} {d d' : Datum} (hd : h.Holds v d) (hd' : h.Holds v' d')
    (hself : d.same d = true) : h.equal v v' = d.same d' :=
  hd.equalWithin_eq hd' hself (Nat.le_succ_of_le hd.depth_le)

/-! ### New lists -/

/-- Every list of the first heap is in the second, with the same elements. -/
structure Extends (h h' : Heap) : Prop where
  size_le : h.lists.size ≤ h'.lists.size
  elements_eq : ∀ {id : ListId}, id < h.lists.size → h'.elements id = h.elements id

theorem Extends.refl (h : Heap) : Extends h h := ⟨Nat.le_refl _, fun _ => rfl⟩

theorem Extends.trans {h₁ h₂ h₃ : Heap} (h₁₂ : Extends h₁ h₂) (h₂₃ : Extends h₂ h₃) : Extends h₁ h₃ where
  size_le := Nat.le_trans h₁₂.size_le h₂₃.size_le
  elements_eq hid := by
    rw [h₂₃.elements_eq (Nat.lt_of_lt_of_le hid h₁₂.size_le), h₁₂.elements_eq hid]

theorem elements_newList (h : Heap) (items : Array Value) : (h.newList items).2.elements h.lists.size = items := by
  simp [newList, elements]

theorem extends_newList (h : Heap) (items : Array Value) : Extends h (h.newList items).2 where
  size_le := by simp [newList]
  elements_eq hid := by
    simp [newList, elements, Array.getElem?_push, Nat.ne_of_lt hid]

mutual

/-- A value stands for the same tree in a larger heap. -/
theorem Holds.mono {h' : Heap} (hext : Extends h h') {v : Value} {d : Datum} (hd : h.Holds v d) : h'.Holds v d := by
  match hd with
  | .nil => exact .nil
  | .bool b => exact .bool b
  | .int n => exact .int n
  | .float x => exact .float x
  | .text s => exact .text s
  | .list known elements =>
    refine .list (Nat.lt_of_lt_of_le known hext.size_le) ?_
    rw [hext.elements_eq known]
    exact elements.mono hext

theorem HoldsAll.mono {h' : Heap} (hext : Extends h h') {values : List Value} {items : List Datum}
    (hitems : h.HoldsAll values items) : h'.HoldsAll values items := by
  match hitems with
  | .nil => exact .nil
  | .cons first rest => exact .cons (first.mono hext) (rest.mono hext)

end

mutual

/-- **Data that are given a place in the heap yield a value that stands for them**, and
no list that was there changes. -/
theorem place_holds (h : Heap) (d : Datum) : Extends h (h.place d).2 ∧ (h.place d).2.Holds (h.place d).1 d := by
  match d with
  | .nil => exact ⟨.refl h, .nil⟩
  | .bool b => exact ⟨.refl h, .bool b⟩
  | .int n => exact ⟨.refl h, .int n⟩
  | .float x => exact ⟨.refl h, .float x⟩
  | .text s => exact ⟨.refl h, .text s⟩
  | .list items =>
    obtain ⟨hext, hitems⟩ := placeAll_holds h items
    rw [place]
    set placed := (h.placeAll items).2
    have hnew := extends_newList placed (h.placeAll items).1.toArray
    refine ⟨hext.trans hnew, .list ?_ ?_⟩
    · simp [newList]
    · rw [elements_newList]
      exact hitems.mono hnew

theorem placeAll_holds (h : Heap) (items : List Datum) :
    Extends h (h.placeAll items).2 ∧ (h.placeAll items).2.HoldsAll (h.placeAll items).1 items := by
  match items with
  | [] => exact ⟨.refl h, .nil⟩
  | d :: rest =>
    obtain ⟨hext, hd⟩ := place_holds h d
    obtain ⟨hextAll, hrest⟩ := placeAll_holds (h.place d).2 rest
    rw [placeAll]
    exact ⟨hext.trans hextAll, .cons (hd.mono hextAll) hrest⟩

end

end Heap

end SealedScript
