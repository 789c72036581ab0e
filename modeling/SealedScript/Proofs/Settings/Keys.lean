/-
SealedScript/Proofs/Settings/Keys.lean

The keys of settings and the values they take.  A text is a value of a key or it is
not, whatever the settings are.  So an attempt to set a key from a text has an outcome
of its own, an entry for the key, a fault, or nothing for a key that settings do not
have, and the settings only take the outcome in.

Main results: `read_eq_ok_iff`, `read_eq_error_iff`, `set_eq_take`.
-/
import SealedScript.Settings
import SealedScript.Proofs.Value.WholeArithmetic

namespace SealedScript

theorem Block.ofList?_eq_some_iff {bytes : List UInt8} {b : Block} :
    Block.ofList? bytes = some b ↔ b.toList = bytes := by
  constructor
  · intro h
    unfold Block.ofList? at h
    split at h
    · cases h
      rfl
    · cases h
  · rintro rfl
    rfl

namespace Settings

/-! ### Keys and entries -/

/-- What can be set. -/
inductive Key where
  | maxCallDepth
  | cipherKey
  | cipherIV
  | log
  | echoPrompt
  deriving DecidableEq

/-- A key with what it holds. -/
inductive Entry where
  | maxCallDepth (n : Nat)
  | cipherKey (b : Block)
  | cipherIV (b : Block)
  | log (filter : Option String)
  | echoPrompt (on : Bool)

def Key.name : Key → String
  | maxCallDepth => "max_call_depth"
  | cipherKey => "cipher_key"
  | cipherIV => "cipher_iv"
  | log => "log"
  | echoPrompt => "echo_prompt"

/-- The key of a name. -/
def Key.ofName? (name : String) : Option Key :=
  [maxCallDepth, cipherKey, cipherIV, log, echoPrompt].find? fun k => k.name = name

def Entry.key : Entry → Key
  | maxCallDepth _ => .maxCallDepth
  | cipherKey _ => .cipherKey
  | cipherIV _ => .cipherIV
  | log _ => .log
  | echoPrompt _ => .echoPrompt

/-- The entry of a key. -/
def entry (s : Settings) : Key → Entry
  | .maxCallDepth => .maxCallDepth s.maxCallDepth
  | .cipherKey => .cipherKey s.cipherKey
  | .cipherIV => .cipherIV s.cipherIV
  | .log => .log s.log
  | .echoPrompt => .echoPrompt s.echoPrompt

/-- The settings with another entry. -/
def put (s : Settings) : Entry → Settings
  | .maxCallDepth n => { s with maxCallDepth := n }
  | .cipherKey b => { s with cipherKey := b }
  | .cipherIV b => { s with cipherIV := b }
  | .log filter => { s with log := filter }
  | .echoPrompt on => { s with echoPrompt := on }

theorem Key.ofName?_eq_some_iff {name : String} {k : Key} : ofName? name = some k ↔ k.name = name := by
  constructor
  · intro h
    simpa using List.find?_some h
  · rintro rfl
    cases k <;> rfl

theorem Key.ofName?_eq_none_iff {name : String} : ofName? name = none ↔ ∀ k : Key, k.name ≠ name := by
  rw [Option.eq_none_iff_forall_ne_some]
  exact forall_congr' fun k => not_congr ofName?_eq_some_iff

theorem Key.name_injective {k k' : Key} (h : k.name = k'.name) : k = k' :=
  Option.some.inj ((ofName?_eq_some_iff.mpr rfl).symm.trans (ofName?_eq_some_iff.mpr h.symm))

@[simp] theorem key_entry (s : Settings) (k : Key) : (s.entry k).key = k := by
  cases k <;> rfl

theorem entry_put_self (s : Settings) (e : Entry) : (s.put e).entry e.key = e := by
  cases e <;> rfl

theorem entry_put_of_ne (s : Settings) {e : Entry} {k : Key} (h : e.key ≠ k) : (s.put e).entry k = s.entry k := by
  cases e <;> cases k <;> first | rfl | exact absurd rfl h

/-! ### Values -/

/-- The text is a value, and what the entry holds: a depth is a whole number of 64 bits and at least one, a key of
the cipher is sixteen bytes, a switch is a word for on or off in any case, and every text tells what is logged. -/
inductive Reads (text : String) : Entry → Prop
  | maxCallDepth {n : Nat} (numeral : WholeNumeral text.toList n) (one_le : 1 ≤ n) (lt : n < UInt64.size) :
      Reads text (.maxCallDepth n)
  | cipherKey {b : Block} (bytes : b.toList = bytesOfText text) : Reads text (.cipherKey b)
  | cipherIV {b : Block} (bytes : b.toList = bytesOfText text) : Reads text (.cipherIV b)
  | log : Reads text (.log (if text = "" then none else some text))
  | on (word : String.ofList (text.toList.map Char.toLower) ∈ ["true", "on", "yes", "1"]) :
      Reads text (.echoPrompt true)
  | off (word : String.ofList (text.toList.map Char.toLower) ∈ ["false", "off", "no", "0"]) :
      Reads text (.echoPrompt false)

/-- How it is put that a text is no value of the key. -/
def Key.fault? (text : String) : Key → Option SettingFault
  | maxCallDepth => some (.badDepth text)
  | cipherKey => some (.badLength "cipher_key" (bytesOfText text).length)
  | cipherIV => some (.badLength "cipher_iv" (bytesOfText text).length)
  | log => none
  | echoPrompt => some (.badSwitch text)

/-- The text is no value of the key, and the fault says so. -/
def Refuses (k : Key) (text : String) (fault : SettingFault) : Prop :=
  (∀ e : Entry, e.key = k → ¬ Reads text e) ∧ k.fault? text = some fault

/-- The entry that a text gives for a key. -/
def Key.value? (text : String) : Key → Option Entry
  | maxCallDepth => ((readSize? text.toList).filter (1 ≤ ·)).map .maxCallDepth
  | cipherKey => (Block.ofList? (bytesOfText text)).map .cipherKey
  | cipherIV => (Block.ofList? (bytesOfText text)).map .cipherIV
  | log => some (.log (if text = "" then none else some text))
  | echoPrompt => (switch? text).map .echoPrompt

theorem switch?_eq_some_iff {text : String} {on : Bool} : switch? text = some on ↔ Reads text (.echoPrompt on) := by
  unfold switch?
  dsimp only
  generalize hword : String.ofList (text.toList.map Char.toLower) = word
  constructor
  · intro h
    split at h
    · next hon =>
      cases h
      exact .on (hword ▸ hon)
    · split at h
      · next hoff =>
        cases h
        exact .off (hword ▸ hoff)
      · cases h
  · intro h
    cases h with
    | on hon => exact if_pos (hword ▸ hon)
    | off hoff =>
      rw [hword] at hoff
      have hnot : ¬ word ∈ ["true", "on", "yes", "1"] := by
        simp only [List.mem_cons, List.not_mem_nil, or_false] at hoff
        rcases hoff with rfl | rfl | rfl | rfl <;> decide
      rw [if_neg hnot, if_pos hoff]

/-- **A text gives the entry that it is a value of.** -/
theorem Key.value?_eq_some_iff {k : Key} {text : String} {e : Entry} :
    k.value? text = some e ↔ e.key = k ∧ Reads text e := by
  constructor
  · intro h
    cases k with
    | maxCallDepth =>
      obtain ⟨n, hn, rfl⟩ := Option.map_eq_some_iff.mp h
      obtain ⟨hread, hone⟩ := Option.filter_eq_some_iff.mp hn
      have hone : 1 ≤ n := of_decide_eq_true hone
      obtain ⟨hnumeral, hlt⟩ := (readSize?_eq_some_iff hone).mp hread
      exact ⟨rfl, .maxCallDepth hnumeral hone hlt⟩
    | cipherKey =>
      obtain ⟨b, hb, rfl⟩ := Option.map_eq_some_iff.mp h
      exact ⟨rfl, .cipherKey (Block.ofList?_eq_some_iff.mp hb)⟩
    | cipherIV =>
      obtain ⟨b, hb, rfl⟩ := Option.map_eq_some_iff.mp h
      exact ⟨rfl, .cipherIV (Block.ofList?_eq_some_iff.mp hb)⟩
    | log =>
      cases h
      exact ⟨rfl, .log⟩
    | echoPrompt =>
      obtain ⟨on, hon, rfl⟩ := Option.map_eq_some_iff.mp h
      exact ⟨rfl, switch?_eq_some_iff.mp hon⟩
  · rintro ⟨rfl, h⟩
    cases h with
    | maxCallDepth hnumeral hone hlt =>
      have hread := (readSize?_eq_some_iff hone).mpr ⟨hnumeral, hlt⟩
      exact Option.map_eq_some_iff.mpr ⟨_, Option.filter_eq_some_iff.mpr ⟨hread, decide_eq_true hone⟩, rfl⟩
    | cipherKey hbytes => exact Option.map_eq_some_iff.mpr ⟨_, Block.ofList?_eq_some_iff.mpr hbytes, rfl⟩
    | cipherIV hbytes => exact Option.map_eq_some_iff.mpr ⟨_, Block.ofList?_eq_some_iff.mpr hbytes, rfl⟩
    | log => rfl
    | on hon => exact Option.map_eq_some_iff.mpr ⟨_, switch?_eq_some_iff.mpr (.on hon), rfl⟩
    | off hoff => exact Option.map_eq_some_iff.mpr ⟨_, switch?_eq_some_iff.mpr (.off hoff), rfl⟩

theorem Key.value?_eq_none_iff {k : Key} {text : String} :
    k.value? text = none ↔ ∀ e : Entry, e.key = k → ¬ Reads text e := by
  rw [Option.eq_none_iff_forall_ne_some]
  exact forall_congr' fun e => (not_congr value?_eq_some_iff).trans not_and

/-! ### Outcomes -/

/-- What comes of an attempt to set something. -/
inductive Outcome where
  | idle
  | taken (e : Entry)
  | refused (fault : SettingFault)

/-- Takes an outcome in. -/
def Outcome.take (s : Settings) : Outcome → Except SettingFault Settings
  | idle => .ok s
  | taken e => .ok (s.put e)
  | refused fault => .error fault

/-- What comes of a key and a text. -/
def outcome (name text : String) : Outcome :=
  match Key.ofName? name with
  | none => .idle
  | some k =>
    match k.value? text, k.fault? text with
    | some e, _ => .taken e
    | none, some fault => .refused fault
    | none, none => .idle

theorem outcome_eq_taken_iff {name text : String} {e : Entry} :
    outcome name text = .taken e ↔ e.key.name = name ∧ Reads text e := by
  rw [outcome, ← Key.ofName?_eq_some_iff]
  constructor
  · intro h
    split at h
    · cases h
    · next k hk =>
      split at h
      · next hvalue =>
        cases h
        obtain ⟨rfl, hreads⟩ := Key.value?_eq_some_iff.mp hvalue
        exact ⟨hk, hreads⟩
      · cases h
      · cases h
  · rintro ⟨hk, hreads⟩
    simp only [hk, Key.value?_eq_some_iff.mpr ⟨rfl, hreads⟩]

theorem outcome_eq_refused_iff {name text : String} {fault : SettingFault} :
    outcome name text = .refused fault ↔ ∃ k : Key, k.name = name ∧ Refuses k text fault := by
  rw [outcome]
  constructor
  · intro h
    split at h
    · cases h
    · next k hk =>
      split at h
      · cases h
      · next hvalue hfault =>
        cases h
        exact ⟨k, Key.ofName?_eq_some_iff.mp hk, Key.value?_eq_none_iff.mp hvalue, hfault⟩
      · cases h
  · rintro ⟨k, hk, hnone, hfault⟩
    simp only [Key.ofName?_eq_some_iff.mpr hk, Key.value?_eq_none_iff.mpr hnone, hfault]

/-- Whatever is no value of a key is refused. -/
theorem exists_refuses_iff {k : Key} {text : String} :
    (∃ fault, Refuses k text fault) ↔ ∀ e : Entry, e.key = k → ¬ Reads text e := by
  refine ⟨fun ⟨_, h⟩ => h.1, fun h => ?_⟩
  cases k with
  | maxCallDepth | cipherKey | cipherIV | echoPrompt => exact ⟨_, h, rfl⟩
  | log => exact absurd .log (h _ rfl)

/-- **Setting a key takes the outcome in.** -/
theorem set_eq_take (s : Settings) (name text : String) : s.set name text = (outcome name text).take s := by
  rw [outcome]
  cases hk : Key.ofName? name with
  | none =>
    have hname (k : Key) : name ≠ k.name := fun h => Key.ofName?_eq_none_iff.mp hk k h.symm
    exact (if_neg (hname .maxCallDepth)).trans <| (if_neg (hname .cipherKey)).trans <|
      (if_neg (hname .cipherIV)).trans <| (if_neg (hname .log)).trans (if_neg (hname .echoPrompt))
  | some k =>
    obtain rfl := Key.ofName?_eq_some_iff.mp hk
    cases k with
    | maxCallDepth =>
      simp only [set, Key.name, if_pos, Key.value?, Key.fault?]
      cases readSize? text.toList with
      | none => rfl
      | some n =>
        by_cases hone : 1 ≤ n
        · simp only [if_pos hone, Option.filter, decide_eq_true hone, if_true]
          rfl
        · simp only [if_neg hone, Option.filter, decide_eq_false hone, Bool.false_eq_true, if_false]
          rfl
    | cipherKey =>
      simp only [set, Key.name, Key.value?, Key.fault?, block]
      cases Block.ofList? (bytesOfText text) <;> rfl
    | cipherIV =>
      simp only [set, Key.name, Key.value?, Key.fault?, block]
      cases Block.ofList? (bytesOfText text) <;> rfl
    | log =>
      simp only [set, Key.name, Key.value?, String.isEmpty_iff]
      rfl
    | echoPrompt =>
      simp only [set, Key.name, Key.value?, Key.fault?]
      cases switch? text <;> rfl

end Settings

end SealedScript
