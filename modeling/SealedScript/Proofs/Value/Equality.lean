/-
SealedScript/Proofs/Value/Equality.lean

Equality of values, and lists that are shared.  To compare two lists is to compare them
element by element, and the comparison takes two short cuts that look at the numbers
of the lists: a list is equal to itself without a look at its elements, and it goes no
deeper than there are lists.  Neither shows, as long as no list lies inside itself and
nothing inside is no number.

`Heap.Alike` is the comparison without short cuts.  It relates values of two heaps, so
that it also says when two heaps hold the same contents, however these share their
lists.  A list that does not lie inside itself reaches more lists than any of its
elements; this number carries the induction, and it bounds the depth.

Main result: `equality_elementwise`.
-/
import Mathlib.Data.Fintype.Card
import Mathlib.Logic.Relation
import SealedScript.Proofs.Number.Comparison
import SealedScript.Value.Operators

namespace SealedScript

open Relation

namespace Heap

/-! ### Comparison element by element -/

/-- A value of the first heap and one of the second are equal: of one type, with the same
content, and lists have the same length and equal elements in the same places.  The
numbers of the lists do not matter. -/
inductive Alike (h h' : Heap) : Value → Value → Prop
  | nil : Alike h h' .nil .nil
  | bool (b : Bool) : Alike h h' (.bool b) (.bool b)
  | int (n : Int64) : Alike h h' (.int n) (.int n)
  | float {x y : Float} (same : (x == y) = true) : Alike h h' (.float x) (.float y)
  | text (s : String) : Alike h h' (.text s) (.text s)
  | object (id : ObjectId) : Alike h h' (.object id) (.object id)
  | list {a b : ListId} (length : h.length a = h'.length b)
      (elements : ∀ {i : Nat} {v w : Value}, (h.elements a)[i]? = some v → (h'.elements b)[i]? = some w →
        Alike h h' v w) : Alike h h' (.list a) (.list b)

variable {h h₁ h₂ h₃ : Heap}

theorem Alike.symm {v w : Value} (hvw : Alike h₁ h₂ v w) : Alike h₂ h₁ w v := by
  induction hvw with
  | nil => exact .nil
  | bool b => exact .bool b
  | int n => exact .int n
  | float same => exact .float (float_beq_symm same)
  | text s => exact .text s
  | object id => exact .object id
  | list length _ ih => exact .list length.symm fun hw hv => ih hv hw

theorem Alike.trans {u v w : Value} (huv : Alike h₁ h₂ u v) (hvw : Alike h₂ h₃ v w) : Alike h₁ h₃ u w := by
  induction huv generalizing w with
  | nil | bool _ | int _ | text _ | object _ =>
    cases hvw
    constructor
  | float same =>
    cases hvw with
    | float same' => exact .float (float_beq_trans same same')
  | @list a b length _ ih =>
    cases hvw with
    | @list _ c length' elements' =>
      refine .list (length.trans length') ?_
      intro i u w hu hw
      -- the list in the middle has an element in this place too
      have hi : i < (h₂.elements b).size := by
        rw [← Heap.length, ← length]
        exact (Array.getElem?_eq_some_iff.mp hu).1
      have hv : (h₂.elements b)[i]? = some (h₂.elements b)[i] := Array.getElem?_eq_getElem hi
      exact ih hu hv (elements' hv hw)

/-! ### Values without cycles -/

/-- The second value is an element of the first. -/
def Encloses (h : Heap) (v w : Value) : Prop := ∃ id, v = .list id ∧ w ∈ h.elements id

/-- Nothing inside the value lies inside itself, and everything that counts as floating
point number is a number. -/
structure Comparable (h : Heap) (v : Value) : Prop where
  acyclic : ∀ {w : Value}, ReflTransGen h.Encloses v w → ¬ TransGen h.Encloses w w
  isNumber : ∀ {x : Float}, ReflTransGen h.Encloses v (.float x) → x.isNaN = false

theorem Comparable.of_encloses {v w : Value} (hv : h.Comparable v) (hvw : h.Encloses v w) : h.Comparable w where
  acyclic hw := hv.acyclic (.head hvw hw)
  isNumber hx := hv.isNumber (.head hvw hx)

open Classical in
/-- The lists of the heap that can be reached from a value. -/
noncomputable def reached (h : Heap) (v : Value) : Finset (Fin h.lists.size) :=
  {i | ReflTransGen h.Encloses v (.list i)}

theorem mem_reached {v : Value} {i : Fin h.lists.size} : i ∈ h.reached v ↔ ReflTransGen h.Encloses v (.list i) := by
  simp [reached]

/-- A list with an element is in the heap. -/
theorem lt_size_of_mem {id : ListId} {v : Value} (hv : v ∈ h.elements id) : id < h.lists.size := by
  by_contra hid
  have hempty : h.elements id = #[] := by simp [elements, Nat.le_of_not_lt hid]
  rw [hempty] at hv
  exact Array.not_mem_empty v hv

/-- **A list reaches more lists than its elements do**: it reaches itself. -/
theorem Comparable.card_reached_lt {id : ListId} {v : Value} (hid : h.Comparable (.list id))
    (hv : v ∈ h.elements id) : (h.reached v).card < (h.reached (.list id)).card := by
  have hencloses : h.Encloses (.list id) v := ⟨id, rfl, hv⟩
  apply Finset.card_lt_card
  rw [Finset.ssubset_iff_of_subset]
  · refine ⟨⟨id, lt_size_of_mem hv⟩, mem_reached.mpr .refl, ?_⟩
    intro hback
    exact hid.acyclic .refl (.head' hencloses (mem_reached.mp hback))
  · intro i hi
    exact mem_reached.mpr (.head hencloses (mem_reached.mp hi))

theorem card_reached_le (h : Heap) (v : Value) : (h.reached v).card ≤ h.lists.size := by
  simpa using Finset.card_le_univ (h.reached v)

theorem Comparable.alike_self {v : Value} (hv : h.Comparable v) : Alike h h v v := by
  induction hcard : (h.reached v).card using Nat.strong_induction_on generalizing v with
  | _ n ih =>
    subst hcard
    cases v with
    | nil => exact .nil
    | bool b => exact .bool b
    | int n => exact .int n
    | float x => exact .float (float_beq_self (hv.isNumber .refl))
    | text s => exact .text s
    | object id => exact .object id
    | list id =>
      refine .list rfl ?_
      intro i v w hget hget'
      rw [hget, Option.some.injEq] at hget'
      subst hget'
      have hmem := Array.mem_of_getElem? hget
      exact ih _ (hv.card_reached_lt hmem) (hv.of_encloses ⟨id, rfl, hmem⟩) rfl

/-! ### Both comparisons agree -/

/-- Lists are compared as to length and in every place. -/
theorem all_zip_iff {a b : ListId} {p : Value → Value → Bool} :
    (h.length a == h.length b && ((h.elements a).toList.zip (h.elements b).toList).all fun (v, w) => p v w) = true ↔
      h.length a = h.length b ∧
        ∀ {i : Nat} {v w : Value}, (h.elements a)[i]? = some v → (h.elements b)[i]? = some w → p v w = true := by
  rw [Bool.and_eq_true, beq_iff_eq, List.all_eq_true]
  refine and_congr_right fun _ => ⟨?_, ?_⟩
  · intro hall i v w hv hw
    refine hall (v, w) (List.mem_iff_getElem?.mpr ⟨i, ?_⟩)
    rw [List.getElem?_zip_eq_some, Array.getElem?_toList, Array.getElem?_toList]
    exact ⟨hv, hw⟩
  · rintro hall ⟨v, w⟩ hmem
    obtain ⟨i, hi⟩ := List.mem_iff_getElem?.mp hmem
    rw [List.getElem?_zip_eq_some, Array.getElem?_toList, Array.getElem?_toList] at hi
    exact hall hi.1 hi.2

/-- Values that are no lists are compared by type and content alone. -/
theorem equalWithin_iff_of_not_list {k : Nat} {v w : Value} (hv : ∀ id, v ≠ .list id) :
    h.equalWithin k v w = true ↔ Alike h h v w := by
  constructor
  · intro heq
    cases v
    case list id => exact absurd rfl (hv id)
    -- two values of different types are not equal
    all_goals cases w <;> simp only [equalWithin, beq_iff_eq, Bool.false_eq_true] at heq
    · exact .nil
    · exact heq ▸ .bool _
    · exact heq ▸ .int _
    · exact .float heq
    · exact heq ▸ .text _
    · exact heq ▸ .object _
  · intro halike
    cases halike with
    | list _ _ => exact absurd rfl (hv _)
    | float same => rwa [equalWithin]
    | nil | bool _ | int _ | text _ | object _ => simp only [equalWithin, beq_self_eq_true]

/-- With depth enough for the lists that are reached, comparing values is comparing them
element by element. -/
theorem Comparable.equalWithin_iff {k : Nat} {v w : Value} (hv : h.Comparable v) (hk : (h.reached v).card < k) :
    h.equalWithin k v w = true ↔ Alike h h v w := by
  induction k generalizing v w with
  | zero => exact absurd hk (Nat.not_lt_zero _)
  | succ k ih =>
    cases v with
    | nil | bool _ | int _ | float _ | text _ | object _ =>
      exact equalWithin_iff_of_not_list fun _ heq => by cases heq
    | list a =>
      cases w with
      | nil | bool _ | int _ | float _ | text _ | object _ =>
        simp only [equalWithin, Bool.false_eq_true, false_iff]
        intro halike
        cases halike
      | list b =>
        have hitem {i : Nat} {v w : Value} (hi : (h.elements a)[i]? = some v) :
            h.equalWithin k v w = true ↔ Alike h h v w := by
          have hmem := Array.mem_of_getElem? hi
          exact ih (hv.of_encloses ⟨a, rfl, hmem⟩) (Nat.lt_of_lt_of_le (hv.card_reached_lt hmem) (Nat.le_of_lt_succ hk))
        rw [equalWithin, Bool.or_eq_true, beq_iff_eq, all_zip_iff]
        constructor
        · rintro (rfl | ⟨hlength, hitems⟩)
          · exact hv.alike_self
          · exact .list hlength fun hi hi' => (hitem hi).mp (hitems hi hi')
        · rintro (_ | _ | _ | _ | _ | _ | ⟨hlength, hitems⟩)
          exact .inr ⟨hlength, fun hi hi' => (hitem hi).mpr (hitems hi hi')⟩

/-- **The short cuts do not show.** -/
theorem Comparable.equal_iff {v w : Value} (hv : h.Comparable v) : h.equal v w = true ↔ Alike h h v w :=
  hv.equalWithin_iff (Nat.lt_succ_of_le (h.card_reached_le v))

/-- The operators `==` and `!=` tell whether values are equal as soon as one of them is a list or an
object. -/
theorem apply_eq_of_isShared {v w : Value} (hshared : v.isShared = true ∨ w.isShared = true) :
    h.apply .eq v w = .ok (.bool (h.equal v w), h) ∧ h.apply .ne v w = .ok (.bool (!h.equal v w), h) := by
  have hor : (v.isShared || w.isShared) = true := by rwa [Bool.or_eq_true]
  constructor
  · simp [apply, applyStructured, hor]
  · simp [apply, applyStructured, hor]

/-! ### Lists made one after another -/

/-- Whether every list holds only numbers and lists that were made before it. -/
def isLayered (h : Heap) : Bool :=
  (List.range h.lists.size).all fun id => (h.elements id).toList.all fun
    | .list inner => decide (inner < id)
    | .float x => !x.isNaN
    | _ => true

theorem comparable_of_isLayered (hh : h.isLayered = true) (id : ListId) : h.Comparable (.list id) := by
  have hitems {id : ListId} {v : Value} (hv : v ∈ h.elements id) :
      (∀ inner, v = .list inner → inner < id) ∧ ∀ x, v = .float x → x.isNaN = false := by
    rw [isLayered, List.all_eq_true] at hh
    have hitem := hh id (List.mem_range.mpr (lt_size_of_mem hv))
    have hitem := List.all_eq_true.mp hitem v (Array.mem_toList_iff.mpr hv)
    refine ⟨?_, ?_⟩
    · rintro inner rfl
      exact of_decide_eq_true hitem
    · rintro x rfl
      exact Bool.not_eq_true' _ ▸ hitem
  -- numbers of lists fall along every way into a list
  have hfalls {id : ListId} {v : Value} (hv : TransGen h.Encloses (.list id) v) {inner : ListId}
      (hinner : v = .list inner) : inner < id := by
    induction hv generalizing inner with
    | single hv =>
      obtain ⟨_, hid, hmem⟩ := hv
      cases hid
      exact (hitems hmem).1 inner hinner
    | tail _ hv ih =>
      obtain ⟨between, hbetween, hmem⟩ := hv
      exact ((hitems hmem).1 inner hinner).trans (ih hbetween)
  constructor
  · rintro w - hcycle
    obtain ⟨_, ⟨id, rfl, _⟩, _⟩ := TransGen.head'_iff.mp hcycle
    exact absurd (hfalls hcycle rfl) (Nat.lt_irrefl id)
  · intro x hx
    rcases ReflTransGen.cases_tail hx with hself | ⟨_, _, _, _, hmem⟩
    · cases hself
    · exact (hitems hmem).2 x rfl

end Heap

/-- **Lists are equal element by element, however they are shared.**  Let no list inside `a` or `b` lie
inside itself, and let nothing in them be no number.  That they are equal means that they are alike
element by element.  Equality of such values is reflexive, symmetric and transitive, and it is the same
for values of another heap with the same contents.  The operators `==` and `!=` tell it as soon as one
operand is a list or an object. -/
theorem equality_elementwise (h : Heap) {a b : Value} (ha : h.Comparable a) (hb : h.Comparable b) :
    (h.equal a b = true ↔ Heap.Alike h h a b) ∧
    h.equal a a = true ∧
    h.equal a b = h.equal b a ∧
    (∀ c, h.Comparable c → h.equal a b = true → h.equal b c = true → h.equal a c = true) ∧
    (∀ (h' : Heap) (a' b' : Value), h'.Comparable a' → h'.Comparable b' → Heap.Alike h h' a a' →
      Heap.Alike h h' b b' → h'.equal a' b' = h.equal a b) ∧
    (a.isShared = true ∨ b.isShared = true →
      h.apply .eq a b = .ok (.bool (h.equal a b), h) ∧ h.apply .ne a b = .ok (.bool (!h.equal a b), h)) := by
  refine ⟨ha.equal_iff, ha.equal_iff.mpr ha.alike_self, ?_, ?_, ?_, Heap.apply_eq_of_isShared⟩
  · rw [Bool.eq_iff_iff, ha.equal_iff, hb.equal_iff]
    exact ⟨Heap.Alike.symm, Heap.Alike.symm⟩
  · intro c _ hab hbc
    exact ha.equal_iff.mpr ((ha.equal_iff.mp hab).trans (hb.equal_iff.mp hbc))
  · intro h' a' b' ha' _ haa hbb
    rw [Bool.eq_iff_iff, ha'.equal_iff, ha.equal_iff]
    constructor
    · intro halike
      exact (haa.trans halike).trans hbb.symm
    · intro halike
      exact (haa.symm.trans halike).trans hbb

/-- Two lists `[2.5]`, one list that holds the first of them twice, and one that holds both. -/
def twoPairs : Heap := { lists := #[#[.float 2.5], #[.float 2.5], #[.list 0, .list 0], #[.list 0, .list 1]] }

theorem twoPairs_equal :
    twoPairs.Comparable (.list 2) ∧ twoPairs.Comparable (.list 3) ∧
    Heap.Alike twoPairs twoPairs (.list 2) (.list 3) ∧
    twoPairs.apply .eq (.list 2) (.list 3) = .ok (.bool true, twoPairs) := by
  have hcomparable := Heap.comparable_of_isLayered (h := twoPairs) (by decide)
  have hequal : twoPairs.equal (.list 2) (.list 3) = true := by decide
  obtain ⟨halike, -, -, -, -, hoperators⟩ := equality_elementwise twoPairs (hcomparable 2) (hcomparable 3)
  refine ⟨hcomparable 2, hcomparable 3, halike.mp hequal, ?_⟩
  rw [(hoperators (.inl rfl)).1, hequal]

end SealedScript
