/-
SealedScript/Proofs/Machine/Opening.lean

A machine next to the same machine with its encrypted variables opened.  Two runs
from them go alike: they find and write the same names in the same scopes, and
where the one decrypts a variable the other finds the value in it.

This holds as long as what is encrypted is a whole number or a truth value, since
other values are not always read back from their texts.  The two runs may part
after the first store for which it does not hold, so a simulation says that they
go alike or that there is such a store.

Main results: `Sim.bind`, by which simulations are put together, and one
simulation for each step that looks at names (`Sim.readOpened`, `Sim.store` and
others).
-/
import SealedScript.Proofs.Cipher.RoundTrip
import SealedScript.Proofs.Machine.Correspondence
import SealedScript.Proofs.Value.ReadBack

namespace SealedScript

/-! ### Opened variables -/

/-- The second variable is the first one without encryption: the same if that is
plain, and else the whole number or truth value to which it is decrypted. -/
inductive Variable.Unsealed (m : Machine) : Variable → Variable → Prop
  | plain (value : Value) : Unsealed m ⟨value, false⟩ ⟨value, false⟩
  | opened {stored value : Value} : value.isIntOrBool = true →
      Action.decrypt stored m = (.done value, m) → Unsealed m ⟨stored, true⟩ ⟨value, false⟩

/-- The second machine is the first one without encryption: it has the same scopes
with the variables opened, the same functions up to marks, and everything else
alike. -/
def Machine.Unsealed (m m' : Machine) : Prop := m.Related (Variable.Unsealed m) m'

/-- The same for one variable and the standard cipher, whatever the heap. -/
inductive Variable.Opens (key iv : Block) : Variable → Variable → Prop
  | plain (value : Value) : Opens key iv ⟨value, false⟩ ⟨value, false⟩
  | opened {stored value : Value} {text : String} : value.isIntOrBool = true →
      (∀ heap : Heap, Cipher.openText key iv (heap.text stored) = .ok text) →
      (∀ heap : Heap, heap.place (Datum.ofText text) = (value, heap)) →
      Opens key iv ⟨stored, true⟩ ⟨value, false⟩

/-- A whole number or truth value that data denotes, it denotes in every heap. -/
theorem Heap.place_isIntOrBool {h h' : Heap} {d : Datum} {value : Value} (hplace : h.place d = (value, h'))
    (hvalue : value.isIntOrBool = true) (heap : Heap) : heap.place d = (value, heap) := by
  cases d with
  | bool b | int n =>
    rw [Heap.place] at hplace ⊢
    cases hplace
    rfl
  | nil | float _ | text _ | list _ =>
    rw [Heap.place] at hplace
    cases hplace
    cases hvalue

/-- What the cipher opens is the text of no list and of no object, so it does not
depend on the heap. -/
theorem Heap.text_of_openText {key iv : Block} {h : Heap} {v : Value} {text : String}
    (hopen : Cipher.openText key iv (h.text v) = .ok text) (heap : Heap) : heap.text v = h.text v := by
  -- these texts begin with a bracket, which is no symbol
  have hbracket (b : UInt8) (rest : List Char) (hascii : b.toNat < 128)
      (hblank : isBlank (Char.ofNat b.toNat) = false) (hvalue : Base64.value? b = none) :
      h.text v ≠ String.ofList (Char.ofNat b.toNat :: rest) := by
    intro htext
    obtain ⟨e, he⟩ := Cipher.openText_stranger key iv hascii hblank hvalue rest
    rw [htext, he] at hopen
    cases hopen
  cases v with
  | list id => exact absurd rfl (hbracket 0x5B _ (by decide) (by decide) (by decide))
  | object id => exact absurd rfl (hbracket 0x3C _ (by decide) (by decide) (by decide))
  | nil | bool _ | int _ | float _ | text _ => rfl

theorem Action.decrypt_of_opens {m : Machine} {stored value : Value} {text : String}
    (hopen : m.cipher.decrypt (m.heap.text stored) = .ok text)
    (hplace : m.heap.place (Datum.ofText text) = (value, m.heap)) :
    Action.decrypt stored m = (.done value, m) := by
  unfold Action.decrypt
  rw [hopen]
  simp only [Action.withHeap, hplace]

theorem Variable.unsealed_iff {key iv : Block} {m : Machine} (hcipher : m.cipher = .standard key iv)
    (v v' : Variable) : Variable.Unsealed m v v' ↔ Variable.Opens key iv v v' := by
  constructor
  · rintro (value | ⟨hvalue, hdecrypt⟩)
    · exact .plain value
    · rename_i stored value
      unfold Action.decrypt at hdecrypt
      rw [hcipher] at hdecrypt
      rcases hopen : Cipher.openText key iv (m.heap.text stored) with e | text
      · -- then decryption would fail
        simp only [Cipher.standard, hopen] at hdecrypt
        cases hdecrypt
      · simp only [Cipher.standard, hopen, Action.withHeap] at hdecrypt
        have hplace : (m.heap.place (Datum.ofText text)).1 = value := by
          injection hdecrypt with hdone _
          injection hdone
        have hopens (heap : Heap) : Cipher.openText key iv (heap.text stored) = .ok text := by
          rw [Heap.text_of_openText hopen heap, hopen]
        exact .opened hvalue hopens (Heap.place_isIntOrBool (Prod.ext hplace rfl) hvalue)
  · rintro (value | ⟨hvalue, hopen, hplace⟩)
    · exact .plain value
    · refine .opened hvalue (Action.decrypt_of_opens ?_ (hplace m.heap))
      rw [hcipher]
      exact hopen m.heap

theorem Heap.text_of_isIntOrBool (h h' : Heap) {v : Value} (hv : v.isIntOrBool = true) :
    h.text v = h'.text v := by
  cases v with
  | int _ | bool _ => rfl
  | nil | float _ | text _ | list _ | object _ => cases hv

/-! ### Reading -/

namespace Action

variable {m : Machine} {name : String} {v : Variable} {value : Value}

theorem lookup_none (h : m.find? name = none) : lookup name m = (.failed (.undefinedVariable name), m) := by
  simp only [lookup, h]

theorem lookup_some (h : m.find? name = some v) : lookup name m = (.done v, m) := by
  simp only [lookup, h]

theorem read_none (h : m.find? name = none) : read name .opened m = (.failed (.undefinedVariable name), m) :=
  bind_failed (lookup_none h)

theorem read_found (h : m.find? name = some v) : read name .opened m = openVariable v m :=
  bind_done (lookup_some h)

theorem read_some (h : m.find? name = some v) (hopen : openVariable v m = (.done value, m)) :
    read name .opened m = (.done value, m) := (read_found h).trans hopen

theorem readOpened_none (h : m.find? name = none) :
    readOpened name m = (.failed (.undefinedVariable name), m) := bind_failed (lookup_none h)

theorem readOpened_some (h : m.find? name = some v) (hopen : openVariable v m = (.done value, m)) :
    readOpened name m = (.done (value, v.encrypted), m) :=
  (bind_done (lookup_some h)).trans (bind_done hopen)

end Action

/-! ### Stores -/

/-- What a step stored. -/
structure Store where
  name : String
  value : Value
  encrypted : Bool

/-- What was stored at a moment, if something was. -/
def Event.stored? : Event → Option Store
  | .stored name value encrypted => some ⟨name, value, encrypted⟩
  | _ => none

/-- Everything that was stored, in order.  The values are those that were to be
stored, before encryption. -/
def stores (moments : List Moment) : List Store := moments.filterMap (·.event.stored?)

theorem stores_append (t t' : List Moment) : stores (t ++ t') = stores t ++ stores t' :=
  List.filterMap_append

/-- Nothing is stored when a call begins or ends. -/
theorem stores_call (f : FunctionDef) (m m' : Machine) (t : List Moment) :
    stores (⟨.entered f, m⟩ :: t ++ [⟨.left, m'⟩]) = stores t := by
  rw [stores_append]
  exact List.append_nil (stores t)

/-- The second store is the first one without encryption. -/
def Store.Unsealed (a b : Store) : Prop :=
  b.name = a.name ∧ b.value = a.value ∧ b.encrypted = false ∧
    (a.encrypted = true → a.value.isIntOrBool = true)

/-- The same is stored in the same variables. -/
def StoresAgree (t t' : List Moment) : Prop := List.Forall₂ Store.Unsealed (stores t) (stores t')

/-- A value is stored that the other run encrypts, in the same variable, and that is
neither a whole number nor a truth value. -/
def StoresStray (t t' : List Moment) : Prop :=
  ∃ (i : Nat) (a b : Store), (stores t)[i]? = some a ∧ (stores t')[i]? = some b ∧
    b.name = a.name ∧ a.encrypted = true ∧ b.value.isIntOrBool = false

theorem StoresStray.append {t t' : List Moment} (h : StoresStray t t') (u u' : List Moment) :
    StoresStray (t ++ u) (t' ++ u') := by
  obtain ⟨i, a, b, ha, hb, hstray⟩ := h
  refine ⟨i, a, b, ?_, ?_, hstray⟩
  · rw [stores_append, List.getElem?_append_left (List.getElem?_eq_some_iff.mp ha).1, ha]
  · rw [stores_append, List.getElem?_append_left (List.getElem?_eq_some_iff.mp hb).1, hb]

theorem StoresStray.prepend {t t' u u' : List Moment} (hagree : StoresAgree t t') (h : StoresStray u u') :
    StoresStray (t ++ u) (t' ++ u') := by
  obtain ⟨i, a, b, ha, hb, hstray⟩ := h
  have hlength : (stores t').length = (stores t).length := (List.Forall₂.length_eq hagree).symm
  refine ⟨(stores t).length + i, a, b, ?_, ?_, hstray⟩
  · rw [stores_append, List.getElem?_append_right (Nat.le_add_right _ _), Nat.add_sub_cancel_left, ha]
  · rw [stores_append, ← hlength, List.getElem?_append_right (Nat.le_add_right _ _),
      Nat.add_sub_cancel_left, hb]

theorem StoresAgree.append {t t' u u' : List Moment} (h : StoresAgree t t') (h' : StoresAgree u u') :
    StoresAgree (t ++ u) (t' ++ u') := by
  unfold StoresAgree
  rw [stores_append, stores_append]
  exact List.rel_append h h'

/-! ### Runs that go alike -/

/-- Outcomes that are the same up to their values. -/
inductive Outcome.Rel {α β : Type} (R : α → β → Prop) : Outcome α → Outcome β → Prop
  | done {a : α} {b : β} : R a b → Rel R (.done a) (.done b)
  | failed (e : RuntimeError) : Rel R (.failed e) (.failed e)
  | clockOverflow : Rel R .clockOverflow .clockOverflow
  | unfinished : Rel R .unfinished .unfinished

theorem Outcome.Rel.of_eq {α : Type} {o o' : Outcome α} (h : o' = o) : Outcome.Rel Eq o o' := by
  subst h
  cases o' with
  | done a => exact .done rfl
  | failed e => exact .failed e
  | clockOverflow => exact .clockOverflow
  | unfinished => exact .unfinished

theorem Outcome.Rel.mono {α β : Type} {R S : α → β → Prop} {o : Outcome α} {o' : Outcome β}
    (hRS : ∀ a b, R a b → S a b) (h : Outcome.Rel R o o') : Outcome.Rel S o o' := by
  cases h with
  | done hab => exact .done (hRS _ _ hab)
  | failed e => exact .failed e
  | clockOverflow => exact .clockOverflow
  | unfinished => exact .unfinished

theorem Outcome.Rel.eq {α : Type} {o o' : Outcome α} (h : Outcome.Rel Eq o o') : o' = o := by
  cases h with
  | done hab => rw [hab]
  | failed _ | clockOverflow | unfinished => rfl

/-- Two machines between which a simulation runs: the second one is the first one
without encryption, nothing is armed, and all functions only compute. -/
structure Linked (key iv : Block) (m m' : Machine) : Prop where
  related : m.Related (Variable.Opens key iv) m'
  cipher : m.cipher = .standard key iv
  idle : m.scheduler.tasks = []
  computing : ∀ entry ∈ m.functions, Stmt.compute entry.2.body = true

/-- Two runs that have gone alike, unless a store has strayed. -/
def Coupled {α β : Type} (key iv : Block) (R : α → β → Prop) (v : Visit α) (v' : Visit β) : Prop :=
  StoresStray v.moments v'.moments ∨
    Outcome.Rel R v.outcome v'.outcome ∧ Linked key iv v.machine v'.machine ∧
      StoresAgree v.moments v'.moments

/-- Watched runs that go alike from linked machines. -/
def Sim {α β : Type} (key iv : Block) (R : α → β → Prop) (x : Watched α) (x' : Watched β) : Prop :=
  ∀ m m', Linked key iv m m' → Coupled key iv R (x m) (x' m')

namespace Linked

variable {key iv : Block} {m m' n n' : Machine}

theorem alike (h : Linked key iv m m') (hn : m.Alike n) (hn' : m'.Alike n') (hrest : n'.rest = n.rest) :
    Linked key iv n n' := by
  have hnames : n.locals = m.locals ∧ n.globals = m.globals ∧ n.functions = m.functions ∧
      n.cipher = m.cipher ∧ n.scheduler = m.scheduler := by
    rw [hn]
    exact ⟨rfl, rfl, rfl, rfl, rfl⟩
  have hnames' : n'.locals = m'.locals ∧ n'.globals = m'.globals ∧ n'.functions = m'.functions := by
    rw [hn']
    exact ⟨rfl, rfl, rfl⟩
  obtain ⟨hlocals, hglobals, hfunctions, hcipher, hscheduler⟩ := hnames
  obtain ⟨hlocals', hglobals', hfunctions'⟩ := hnames'
  refine ⟨⟨?_, ?_, ?_, hrest⟩, hcipher.trans h.cipher, ?_, ?_⟩
  · rw [hlocals, hlocals']
    exact h.related.locals
  · rw [hglobals, hglobals']
    exact h.related.globals
  · rw [hfunctions, hfunctions']
    exact h.related.functions
  · rw [hscheduler]
    exact h.idle
  · rw [hfunctions]
    exact h.computing

theorem write (h : Linked key iv m m') (name : String) {v v' : Variable} (hv : v.Opens key iv v') :
    Linked key iv (m.write name v) (m'.write name v') := by
  refine ⟨h.related.write name hv, ?_, ?_, ?_⟩
  · rw [m.write_eq]
    exact h.cipher
  · rw [m.write_eq]
    exact h.idle
  · rw [m.write_eq]
    exact h.computing

/-- A variable is opened to the value that the other machine has in its place. -/
theorem openVariable (h : Linked key iv m m') {v v' : Variable} (hv : v.Opens key iv v') :
    v'.encrypted = false ∧ Action.openVariable v m = (.done v'.value, m) ∧
      Action.openVariable v' m' = (.done v'.value, m') := by
  cases hv with
  | plain value => exact ⟨rfl, rfl, rfl⟩
  | opened hvalue hopen hplace =>
    refine ⟨rfl, Action.decrypt_of_opens ?_ (hplace m.heap), rfl⟩
    rw [h.cipher]
    exact hopen m.heap

/-- A name is found in both machines or in neither. -/
theorem lookup (h : Linked key iv m m') (name : String) :
    (m.find? name = none ∧ m'.find? name = none) ∨
    ∃ v v', m.find? name = some v ∧ m'.find? name = some v' ∧ v'.encrypted = false ∧
      Action.openVariable v m = (.done v'.value, m) ∧ Action.openVariable v' m' = (.done v'.value, m') := by
  have hfind := h.related.find? name
  generalize m.find? name = found at hfind ⊢
  generalize m'.find? name = found' at hfind ⊢
  cases hfind with
  | none => exact .inl ⟨rfl, rfl⟩
  | some hv => exact .inr ⟨_, _, rfl, rfl, h.openVariable hv⟩

end Linked

/-! ### Building runs that go alike -/

namespace Sim

open Watched

variable {α β γ δ : Type} {key iv : Block} {R : α → β → Prop} {S : γ → δ → Prop}

theorem mono {R' : α → β → Prop} {x : Watched α} {x' : Watched β} (hR : ∀ a b, R a b → R' a b)
    (h : Sim key iv R x x') : Sim key iv R' x x' := by
  intro m m' hlinked
  rcases h m m' hlinked with hstray | ⟨houtcome, hafter, hagree⟩
  · exact .inl hstray
  · exact .inr ⟨houtcome.mono hR, hafter, hagree⟩

theorem pure {a : α} {b : β} (h : R a b) : Sim key iv R (Watched.pure a) (Watched.pure b) :=
  fun _ _ hlinked => .inr ⟨.done h, hlinked, .nil⟩

theorem stop {o : Outcome α} {o' : Outcome β} (h : Outcome.Rel R o o') :
    Sim key iv R (Watched.stop o) (Watched.stop o') :=
  fun _ _ hlinked => .inr ⟨h, hlinked, .nil⟩

theorem bind {x : Watched α} {x' : Watched β} {f : α → Watched γ} {f' : β → Watched δ}
    (hx : Sim key iv R x x') (hf : ∀ a b, R a b → Sim key iv S (f a) (f' b)) :
    Sim key iv S (x >>= f) (x' >>= f') := by
  intro m m' hlinked
  rcases hx m m' hlinked with hstray | ⟨houtcome, hafter, hagree⟩
  · -- a store that has strayed stays in the record, whatever follows
    obtain ⟨t, ht⟩ := moments_bind x f m
    obtain ⟨t', ht'⟩ := moments_bind x' f' m'
    refine .inl ?_
    rw [ht, ht']
    exact hstray.append t t'
  have hbind : (x >>= f) m = attempt x (fun e => Watched.stop (.failed e)) f m := rfl
  have hbind' : (x' >>= f') m' = attempt x' (fun e => Watched.stop (.failed e)) f' m' := rfl
  generalize hout : (x m).outcome = outcome at houtcome
  generalize hout' : (x' m').outcome = outcome' at houtcome
  cases houtcome with
  | done hab =>
    rw [hbind, hbind', attempt_done hout, attempt_done hout']
    -- the stores so far agree in number, so a later one strays at the same place in both
    rcases hf _ _ hab _ _ hafter with hstray | ⟨houtcome, hlast, hagree'⟩
    · exact .inl (StoresStray.prepend hagree hstray)
    · exact .inr ⟨houtcome, hlast, hagree.append hagree'⟩
  | failed e =>
    rw [hbind, hbind', attempt_failed hout, attempt_failed hout']
    exact .inr ⟨.failed e, hafter, hagree.append .nil⟩
  | clockOverflow =>
    rw [hbind, hbind', attempt_clockOverflow hout, attempt_clockOverflow hout']
    exact .inr ⟨.clockOverflow, hafter, hagree⟩
  | unfinished =>
    rw [hbind, hbind', attempt_unfinished hout, attempt_unfinished hout']
    exact .inr ⟨.unfinished, hafter, hagree⟩

/-- A step that does not look at names. -/
theorem act {x : Action α} (hquiet : Action.Quiet x) (huniform : Action.Uniform x) :
    Sim key iv Eq (Watched.act .step x) (Watched.act .step x) := by
  intro m m' hlinked
  obtain ⟨houtcome, hrest⟩ := huniform.blind m m' hlinked.related.rest
  exact .inr ⟨.of_eq houtcome, hlinked.alike (hquiet m).1 (hquiet m').1 hrest, .nil⟩

/-- The scope of a call is the same in both runs. -/
theorem inCall (f : FunctionDef) (args : List Value) {x : Watched α} {x' : Watched β}
    (hx : Sim key iv R x x') : Sim key iv R (Watched.inCall f args x) (Watched.inCall f.unmarked args x') := by
  intro m m' hlinked
  unfold Watched.inCall
  rw [hlinked.related.depth_eq, hlinked.related.maxDepth_eq]
  split
  · exact .inr ⟨.failed _, hlinked, .nil⟩
  · have hscope : Scope.Rel (Variable.Opens key iv) (Action.callScope f args) (Action.callScope f args) :=
      Scope.Rel.refl_of_all (Scope.All.callScope Variable.Opens.plain f args)
    have hinner : Linked key iv (m.enter (Action.callScope f args)) (m'.enter (Action.callScope f args)) :=
      ⟨hlinked.related.enter hscope, hlinked.cipher, hlinked.idle, hlinked.computing⟩
    rcases hx _ _ hinner with hstray | ⟨houtcome, hafter, hagree⟩
    · refine .inl ?_
      unfold StoresStray
      simp only [stores_call]
      exact hstray
    · refine .inr ⟨houtcome, ⟨hafter.related.leave, hafter.cipher, hafter.idle, hafter.computing⟩, ?_⟩
      unfold StoresAgree
      simp only [stores_call]
      exact hagree

/-! ### Steps that look at names -/

theorem readOpened (name : String) :
    Sim key iv (fun a b => b.1 = a.1 ∧ b.2 = false) (Watched.act .step (.readOpened name))
      (Watched.act .step (.readOpened name)) := by
  intro m m' hlinked
  rcases hlinked.lookup name with ⟨hnone, hnone'⟩ | ⟨v, v', hsome, hsome', hplain, hopen, hopen'⟩
  · simp only [Watched.act, Action.readOpened_none hnone, Action.readOpened_none hnone']
    exact .inr ⟨.failed _, hlinked, .nil⟩
  · simp only [Watched.act, Action.readOpened_some hsome hopen, Action.readOpened_some hsome' hopen']
    exact .inr ⟨.done ⟨rfl, hplain⟩, hlinked, .nil⟩

theorem read (name : String) :
    Sim key iv Eq (Watched.act .step (.read name .opened)) (Watched.act .step (.read name .opened)) := by
  intro m m' hlinked
  rcases hlinked.lookup name with ⟨hnone, hnone'⟩ | ⟨v, v', hsome, hsome', _, hopen, hopen'⟩
  · simp only [Watched.act, Action.read_none hnone, Action.read_none hnone']
    exact .inr ⟨.failed _, hlinked, .nil⟩
  · simp only [Watched.act, Action.read_some hsome hopen, Action.read_some hsome' hopen']
    exact .inr ⟨.done rfl, hlinked, .nil⟩

/-- What is stored by both runs, encrypted at most by the first.  The values they
yield differ: the first yields the ciphertext. -/
theorem store (name : String) (value : Value) (encrypt : Bool) :
    Sim key iv (fun _ _ => True) (Watched.store name value encrypt) (Watched.store name value false) := by
  intro m m' hlinked
  cases encrypt with
  | false =>
    refine .inr ⟨.done trivial, hlinked.write name (.plain value), ?_⟩
    exact .cons ⟨rfl, rfl, rfl, fun h => nomatch h⟩ .nil
  | true =>
    by_cases hvalue : value.isIntOrBool = true
    · -- the text that is encrypted is read back as the value
      have hencrypt : m.cipher.encrypt (m.heap.text value)
          = .ok (Cipher.sealText key iv (m.heap.text value)) := by
        rw [hlinked.cipher]
        rfl
      have hopens : Variable.Opens key iv ⟨.text (Cipher.sealText key iv (m.heap.text value)), true⟩
          ⟨value, false⟩ := by
        refine .opened hvalue (fun heap => Cipher.openText_sealText key iv _) fun heap => ?_
        rw [Heap.text_of_isIntOrBool m.heap heap hvalue]
        exact heap.place_ofText_text hvalue
      simp only [Watched.store, Watched.act, Action.store, hencrypt, if_true]
      refine .inr ⟨.done trivial, hlinked.write name hopens, ?_⟩
      exact .cons ⟨rfl, rfl, rfl, fun _ => hvalue⟩ .nil
    · -- here the runs may part
      exact .inl ⟨0, _, _, rfl, rfl, rfl, rfl, Bool.not_eq_true _ ▸ hvalue⟩

theorem functionFor (name : String) (count : Nat) :
    Sim key iv (fun f f' => f' = f.unmarked ∧ Stmt.compute f.body = true)
      (Watched.act .step (.functionFor name count)) (Watched.act .step (.functionFor name count)) := by
  intro m m' hlinked
  have hfind := hlinked.related.findFunction name
  rcases hfound : Table.find? m.functions name with - | f
  · rw [hfound] at hfind
    simp only [Watched.act, Action.functionFor, hfound, hfind, Option.map_none]
    exact .inr ⟨.failed _, hlinked, .nil⟩
  · rw [hfound] at hfind
    have hbody := hlinked.computing _ (Table.mem_of_find? hfound)
    by_cases hcount : f.params.length = count
    · simp only [Watched.act, Action.functionFor, hfound, hfind, Option.map_some, FunctionDef.unmarked,
        hcount, if_true]
      exact .inr ⟨.done ⟨rfl, hbody⟩, hlinked, .nil⟩
    · simp only [Watched.act, Action.functionFor, hfound, hfind, Option.map_some, FunctionDef.unmarked,
        hcount, if_false]
      exact .inr ⟨.failed _, hlinked, .nil⟩

theorem define (name : String) (params : List String) (body : List Stmt) (hbody : Stmt.compute body = true) :
    Sim key iv Eq
      (Watched.act .step
        (.changes fun m => { m with functions := Table.insert m.functions name ⟨name, params, body⟩ }))
      (Watched.act .step (.changes fun m =>
        { m with functions := Table.insert m.functions name ⟨name, params, Stmt.unmarkedAll body⟩ })) := by
  intro m m' hlinked
  refine .inr ⟨.done rfl, ⟨⟨hlinked.related.locals, hlinked.related.globals, ?_, hlinked.related.rest⟩,
    hlinked.cipher, hlinked.idle, ?_⟩, .nil⟩
  · show Table.insert m'.functions _ _ = Machine.unmarkedFunctions (Table.insert m.functions _ _)
    rw [Machine.unmarkedFunctions_insert, hlinked.related.functions]
    rfl
  · intro entry hentry
    rcases Table.mem_insert hentry with hold | rfl
    · exact hlinked.computing entry hold
    · exact hbody

/-- Nothing is armed, so nothing is due. -/
theorem dueMoment :
    Sim key iv (fun due due' => due = none ∧ due' = none) (Watched.act .step Action.dueMoment)
      (Watched.act .step Action.dueMoment) := by
  intro m m' hlinked
  have hidle' : m'.scheduler.tasks = [] := by
    rw [hlinked.related.scheduler_eq]
    exact hlinked.idle
  rw [Watched.act, Watched.act, Action.dueMoment_idle hlinked.idle, Action.dueMoment_idle hidle']
  exact .inr ⟨.done ⟨rfl, rfl⟩, hlinked, .nil⟩

end Sim

end SealedScript
