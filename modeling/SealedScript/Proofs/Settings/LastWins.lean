/-
SealedScript/Proofs/Settings/LastWins.lean

Settings from a row of outcomes.  The lines of a text are taken in one after another,
and so are the overrides of an environment.  In either case a key holds the last
entry that was taken for it, or what it held before if there was none; and the
faults are told in order, one for each line or variable that is at fault, with its
number or its name.

Main result: `settings_last_valid_wins`.
-/
import Mathlib.Data.List.Induction
import SealedScript.Proofs.Settings.Lines

namespace SealedScript

namespace Settings

/-! ### Rows of outcomes -/

/-- The settings after an outcome. -/
def Outcome.after (s : Settings) : Outcome → Settings
  | taken e => s.put e
  | idle | refused _ => s

/-- The fault that an outcome tells. -/
def Outcome.fault? : Outcome → Option SettingFault
  | refused fault => some fault
  | idle | taken _ => none

/-- The settings after a row of outcomes. -/
def settle (s : Settings) (outcomes : List Outcome) : Settings := outcomes.foldl Outcome.after s

theorem settle_concat (s : Settings) (outcomes : List Outcome) (o : Outcome) :
    s.settle (outcomes ++ [o]) = o.after (s.settle outcomes) := List.foldl_append

/-- **The last entry for a key counts.** -/
theorem entry_settle (s : Settings) (outcomes : List Outcome) (k : Key) :
    (∃ front back, outcomes = front ++ .taken ((s.settle outcomes).entry k) :: back ∧
      ∀ e : Entry, .taken e ∈ back → e.key ≠ k) ∨
    (∀ e : Entry, .taken e ∈ outcomes → e.key ≠ k) ∧ (s.settle outcomes).entry k = s.entry k := by
  induction outcomes using List.reverseRecOn with
  | nil => exact .inr ⟨nofun, rfl⟩
  | append_singleton outcomes o ih =>
    rw [settle_concat]
    by_cases ho : ∃ e : Entry, o = .taken e ∧ e.key = k
    · obtain ⟨e, rfl, rfl⟩ := ho
      refine .inl ⟨outcomes, [], ?_, nofun⟩
      rw [Outcome.after, entry_put_self]
    · -- the last outcome leaves the key alone
      have hne (e : Entry) (he : .taken e ∈ [o]) : e.key ≠ k :=
        fun hkey => ho ⟨e, (List.mem_singleton.mp he).symm, hkey⟩
      have hsame : (o.after (s.settle outcomes)).entry k = (s.settle outcomes).entry k := by
        cases o with
        | idle | refused _ => rfl
        | taken e => exact entry_put_of_ne _ (hne e (List.mem_singleton_self _))
      rw [hsame]
      rcases ih with ⟨front, back, hsplit, hback⟩ | ⟨hnone, hold⟩
      · refine .inl ⟨front, back ++ [o], ?_, fun e he => ?_⟩
        · rw [← List.cons_append, ← List.append_assoc, ← hsplit]
        · exact (List.mem_append.mp he).elim (hback e) (hne e)
      · exact .inr ⟨fun e he => (List.mem_append.mp he).elim (hnone e) (hne e), hold⟩

/-! ### Faults -/

section

variable {α β : Type} (f : α → Outcome) (label : α → β)

/-- The faults among the outcomes of a list, with labels. -/
def faultsOf (l : List α) : List (β × SettingFault) := l.filterMap fun x => (f x).fault?.map (label x, ·)

theorem faultsOf_cons (x : α) (rest : List α) :
    faultsOf f label (x :: rest) = match f x with
      | .refused fault => (label x, fault) :: faultsOf f label rest
      | .idle | .taken _ => faultsOf f label rest := by
  rw [faultsOf, List.filterMap_cons]
  cases f x <;> rfl

/-- Each is told once and in order. -/
theorem sublist_faultsOf (l : List α) : ((faultsOf f label l).map Prod.fst).Sublist (l.map label) := by
  induction l with
  | nil => exact .slnil
  | cons x rest ih =>
    rw [faultsOf_cons]
    cases f x with
    | idle | taken _ => exact ih.cons _
    | refused _ => exact ih.cons_cons _

theorem mem_faultsOf {l : List α} {b : β} {fault : SettingFault} :
    (b, fault) ∈ faultsOf f label l ↔ ∃ x ∈ l, b = label x ∧ f x = .refused fault := by
  rw [faultsOf, List.mem_filterMap]
  refine exists_congr fun x => and_congr_right fun _ => ?_
  cases f x <;> simp [Outcome.fault?, eq_comm]

end

/-! ### Texts and environments -/

theorem setLines_eq (s : Settings) (number : Nat) (lines : List (List Char)) :
    setLines s number lines = (s.settle (lines.map lineOutcome),
      (faultsOf (fun p => lineOutcome p.1) Prod.snd (lines.zipIdx number)).map fun p => .line p.1 p.2) := by
  induction lines generalizing s number with
  | nil => rfl
  | cons line rest ih =>
    rw [setLines, setLine_eq_take, List.zipIdx_cons, faultsOf_cons, List.map_cons, settle, List.foldl_cons]
    dsimp only
    cases lineOutcome line with
    | idle | taken _ => exact ih _ _
    | refused fault =>
      simp only [Outcome.take, ih]
      rfl

/-- What comes of an override. -/
def overrideOutcome (lookup : String → Option String) (p : String × String) : Outcome :=
  match lookup p.1 with
  | none => .idle
  | some value => outcome p.2 value

theorem overrideBy_eq (lookup : String → Option String) (s : Settings) (table : List (String × String)) :
    overrideBy lookup s table = (s.settle (table.map (overrideOutcome lookup)),
      (faultsOf (overrideOutcome lookup) Prod.fst table).map fun p => .variable p.1 p.2) := by
  induction table generalizing s with
  | nil => rfl
  | cons p rest ih =>
    obtain ⟨name, key⟩ := p
    rw [overrideBy, faultsOf_cons, List.map_cons, settle, List.foldl_cons, overrideOutcome]
    dsimp only
    cases lookup name with
    | none => exact ih _
    | some value =>
      dsimp only
      rw [set_eq_take]
      cases outcome key value with
      | idle | taken _ => exact ih _
      | refused fault =>
        simp only [Outcome.take, ih]
        rfl

/-! ### Texts -/

/-- A key holds what the last valid assignment to it gives. -/
theorem entry_ofText (text : String) (k : Key) :
    let lines := text.toList.splitOnP (· == '\n')
    let e := (ofText text).1.entry k
    (∃ front line back, lines = front ++ line :: back ∧ Gives line e ∧
      ∀ later ∈ back, ∀ e' : Entry, Gives later e' → e'.key ≠ k) ∨
    (∀ line ∈ lines, ∀ e' : Entry, Gives line e' → e'.key ≠ k) ∧ e = entry {} k := by
  intro lines e
  have he : e = (settle {} (lines.map lineOutcome)).entry k :=
    congrArg (fun loaded => loaded.1.entry k) (setLines_eq {} 1 lines)
  have hgives {l : List (List Char)} (h : ∀ e' : Entry, .taken e' ∈ l.map lineOutcome → e'.key ≠ k) :
      ∀ line ∈ l, ∀ e' : Entry, Gives line e' → e'.key ≠ k := fun line hline e' hgives =>
    h e' (List.mem_map.mpr ⟨line, hline, lineOutcome_eq_taken_iff.mpr hgives⟩)
  rcases entry_settle {} (lines.map lineOutcome) k with ⟨_, _, hsplit, hback⟩ | ⟨hnone, hold⟩
  · obtain ⟨front, rest, hlines, rfl, hrest⟩ := List.map_eq_append_iff.mp hsplit
    obtain ⟨line, back, rfl, hline, rfl⟩ := List.map_eq_cons_iff.mp hrest
    refine .inl ⟨front, line, back, hlines, ?_, hgives hback⟩
    rw [he]
    exact lineOutcome_eq_taken_iff.mp hline
  · exact .inr ⟨hgives hnone, he.trans hold⟩

/-- Each line that cannot be used is told, with its number. -/
theorem errors_ofText (text : String) :
    let lines := text.toList.splitOnP (· == '\n')
    ∃ faults : List (Nat × SettingFault), (ofText text).2 = faults.map (fun p => .line p.1 p.2) ∧
      (faults.map Prod.fst).Pairwise (· < ·) ∧
      (∀ i line, lines[i]? = some line → (i + 1 ∈ faults.map Prod.fst ↔ Unusable line)) ∧
      ∀ n fault, (n, fault) ∈ faults → ∃ i line, n = i + 1 ∧ lines[i]? = some line ∧ Faulty line fault := by
  intro lines
  have hmem {n : Nat} {fault : SettingFault} :
      (n, fault) ∈ faultsOf (fun p => lineOutcome p.1) Prod.snd (lines.zipIdx 1) ↔
        ∃ i line, n = i + 1 ∧ lines[i]? = some line ∧ Faulty line fault := by
    rw [mem_faultsOf]
    constructor
    · rintro ⟨⟨line, n⟩, hline, rfl, hrefused⟩
      obtain ⟨hn, hget⟩ := List.mk_mem_zipIdx_iff_le_and_getElem?_sub.mp hline
      exact ⟨n - 1, line, (Nat.sub_add_cancel hn).symm, hget, lineOutcome_eq_refused_iff.mp hrefused⟩
    · rintro ⟨i, line, rfl, hget, hfaulty⟩
      exact ⟨(line, i + 1), List.mk_mem_zipIdx_iff_le_and_getElem?_sub.mpr ⟨Nat.le_add_left 1 i, hget⟩, rfl,
        lineOutcome_eq_refused_iff.mpr hfaulty⟩
  refine ⟨_, congrArg Prod.snd (setLines_eq {} 1 lines), ?_, fun i line hline => ?_, fun n fault => hmem.mp⟩
  · have hnumbers := sublist_faultsOf (fun p : List Char × Nat => lineOutcome p.1) Prod.snd (lines.zipIdx 1)
    rw [List.zipIdx_map_snd] at hnumbers
    exact (List.pairwise_lt_range' 1).sublist hnumbers
  · rw [← exists_faulty_iff, List.mem_map]
    constructor
    · rintro ⟨⟨n, fault⟩, hfault, rfl⟩
      obtain ⟨j, line', hj, hline', hfaulty⟩ := hmem.mp hfault
      obtain rfl : i = j := Nat.succ.inj hj
      cases hline.symm.trans hline'
      exact ⟨fault, hfaulty⟩
    · rintro ⟨fault, hfaulty⟩
      exact ⟨_, hmem.mpr ⟨i, line, rfl, hline, hfaulty⟩, rfl⟩

/-! ### Environments -/

/-- The variable that overrides a key. -/
def Key.variable? : Key → Option String
  | maxCallDepth => some "CIPHERSCRIPT_MAX_DEPTH"
  | cipherKey => some "CIPHERSCRIPT_KEY"
  | cipherIV => some "CIPHERSCRIPT_IV"
  | log | echoPrompt => none

theorem mem_overrides_iff {name key : String} :
    (name, key) ∈ overrides ↔ ∃ k : Key, key = k.name ∧ k.variable? = some name := by
  constructor
  · intro h
    simp only [overrides, List.mem_cons, Prod.mk.injEq, List.not_mem_nil, or_false] at h
    obtain ⟨rfl, rfl⟩ | ⟨rfl, rfl⟩ | ⟨rfl, rfl⟩ := h
    · exact ⟨.maxCallDepth, rfl, rfl⟩
    · exact ⟨.cipherKey, rfl, rfl⟩
    · exact ⟨.cipherIV, rfl, rfl⟩
  · rintro ⟨k, rfl, hk⟩
    cases k <;> cases hk <;> simp [overrides, Key.name]

theorem Key.variable?_injective {k k' : Key} {name : String} (h : k.variable? = some name)
    (h' : k'.variable? = some name) : k = k' := by
  cases k <;> cases h <;> cases k' <;> first | rfl | exact absurd h' (by decide)

section

variable (s : Settings) (lookup : String → Option String)

theorem overrideOutcome_eq_taken_iff {p : String × String} {e : Entry} :
    overrideOutcome lookup p = .taken e ↔ ∃ value, lookup p.1 = some value ∧ e.key.name = p.2 ∧ Reads value e := by
  rw [overrideOutcome]
  cases lookup p.1 <;> simp [outcome_eq_taken_iff]

theorem overrideOutcome_eq_refused_iff {p : String × String} {fault : SettingFault} :
    overrideOutcome lookup p = .refused fault ↔
      ∃ value, lookup p.1 = some value ∧ ∃ k : Key, k.name = p.2 ∧ Refuses k value fault := by
  rw [overrideOutcome]
  cases lookup p.1 <;> simp [outcome_eq_refused_iff]

/-- A key holds what its variable gives, or what it held if that is absent or no value. -/
theorem entry_applyEnvironment (k : Key) :
    let e := (s.applyEnvironment lookup).1.entry k
    (∃ name value, k.variable? = some name ∧ lookup name = some value ∧ Reads value e) ∨
    (∀ (name value : String) (e' : Entry), k.variable? = some name → lookup name = some value → e'.key = k →
      ¬ Reads value e') ∧ e = s.entry k := by
  intro e
  have he : e = (s.settle (overrides.map (overrideOutcome lookup))).entry k :=
    congrArg (fun overridden => overridden.1.entry k) (overrideBy_eq lookup s overrides)
  rcases entry_settle s (overrides.map (overrideOutcome lookup)) k with ⟨front, back, hsplit, -⟩ | ⟨hnone, hold⟩
  · -- the only override of a key is by its variable
    have hmem : Outcome.taken e ∈ overrides.map (overrideOutcome lookup) := by
      rw [hsplit, he]
      exact List.mem_append_right _ List.mem_cons_self
    obtain ⟨⟨name, key⟩, hp, htaken⟩ := List.mem_map.mp hmem
    obtain ⟨k', rfl, hname⟩ := mem_overrides_iff.mp hp
    obtain ⟨value, hvalue, hkey, hreads⟩ := (overrideOutcome_eq_taken_iff lookup).mp htaken
    rw [he, key_entry] at hkey
    rw [Key.name_injective hkey]
    exact .inl ⟨name, value, hname, hvalue, hreads⟩
  · refine .inr ⟨fun name value e' hname hvalue hkey hreads => hnone e' ?_ hkey, he.trans hold⟩
    refine List.mem_map.mpr ⟨(name, k.name), mem_overrides_iff.mpr ⟨k, rfl, hname⟩, ?_⟩
    exact (overrideOutcome_eq_taken_iff lookup).mpr ⟨value, hvalue, by rw [hkey], hreads⟩

/-- Each variable whose value cannot be used is told. -/
theorem errors_applyEnvironment :
    ∃ faults : List (String × SettingFault),
      (s.applyEnvironment lookup).2 = faults.map (fun p => .variable p.1 p.2) ∧
      (faults.map Prod.fst).Sublist ["CIPHERSCRIPT_MAX_DEPTH", "CIPHERSCRIPT_KEY", "CIPHERSCRIPT_IV"] ∧
      (∀ (k : Key) (name value : String), k.variable? = some name → lookup name = some value →
        (name ∈ faults.map Prod.fst ↔ ∀ e : Entry, e.key = k → ¬ Reads value e)) ∧
      ∀ name fault, (name, fault) ∈ faults →
        ∃ (k : Key) (value : String), k.variable? = some name ∧ lookup name = some value ∧ Refuses k value fault := by
  have hmem {name : String} {fault : SettingFault} :
      (name, fault) ∈ faultsOf (overrideOutcome lookup) Prod.fst overrides ↔
        ∃ (k : Key) (value : String), k.variable? = some name ∧ lookup name = some value ∧ Refuses k value fault := by
    rw [mem_faultsOf]
    constructor
    · rintro ⟨⟨name, key⟩, hp, rfl, hrefused⟩
      obtain ⟨k, rfl, hname⟩ := mem_overrides_iff.mp hp
      obtain ⟨value, hvalue, k', hkey, hrefuses⟩ := (overrideOutcome_eq_refused_iff lookup).mp hrefused
      exact ⟨k, value, hname, hvalue, Key.name_injective hkey ▸ hrefuses⟩
    · rintro ⟨k, value, hname, hvalue, hrefuses⟩
      exact ⟨(name, k.name), mem_overrides_iff.mpr ⟨k, rfl, hname⟩, rfl,
        (overrideOutcome_eq_refused_iff lookup).mpr ⟨value, hvalue, k, rfl, hrefuses⟩⟩
  refine ⟨_, congrArg Prod.snd (overrideBy_eq lookup s overrides), sublist_faultsOf _ _ _,
    fun k name value hname hvalue => ?_, fun name fault => hmem.mp⟩
  rw [← exists_refuses_iff, List.mem_map]
  constructor
  · rintro ⟨⟨_, fault⟩, hfault, rfl⟩
    obtain ⟨k', value', hname', hvalue', hrefuses⟩ := hmem.mp hfault
    obtain rfl := Key.variable?_injective hname hname'
    cases hvalue.symm.trans hvalue'
    exact ⟨fault, hrefuses⟩
  · rintro ⟨fault, hrefuses⟩
    exact ⟨_, hmem.mpr ⟨k, value, hname, hvalue, hrefuses⟩, rfl⟩

end

/-! ### The depth -/

theorem one_le_of_reads {value : String} {s : Settings} (h : Reads value (s.entry .maxCallDepth)) :
    1 ≤ s.maxCallDepth := by
  cases h with
  | maxCallDepth _ hone _ => exact hone

theorem maxCallDepth_eq_of_entry_eq {s s' : Settings} (h : s.entry .maxCallDepth = s'.entry .maxCallDepth) :
    s.maxCallDepth = s'.maxCallDepth := Entry.maxCallDepth.inj h

theorem one_le_maxCallDepth_ofText (text : String) : 1 ≤ (ofText text).1.maxCallDepth := by
  rcases entry_ofText text .maxCallDepth with ⟨_, _, _, -, ⟨_, -, hreads⟩, -⟩ | ⟨-, hold⟩
  · exact one_le_of_reads hreads
  · rw [maxCallDepth_eq_of_entry_eq hold]
    decide

theorem one_le_maxCallDepth_applyEnvironment {s : Settings} (h : 1 ≤ s.maxCallDepth) (lookup : String → Option String) :
    1 ≤ (s.applyEnvironment lookup).1.maxCallDepth := by
  rcases entry_applyEnvironment s lookup .maxCallDepth with ⟨_, _, -, -, hreads⟩ | ⟨-, hold⟩
  · exact one_le_of_reads hreads
  · rw [maxCallDepth_eq_of_entry_eq hold]
    exact h

end Settings

/-- **The last valid setting wins.**  Take the settings of a text, and then the overrides of an environment.

After the text, a key holds what the last line gives that is a valid assignment to it, or its default if
there is none.  One error is told for each line that is neither blank nor a remark and has no `=` or assigns
to a key what is no value of it, with its number, counted from one, in increasing order.

After the environment, a key holds what its variable gives, if it has one that is present and valid, and what
it held before if not.  One error is told for each variable that is present and not valid.

The depth is at least one in either case. -/
theorem settings_last_valid_wins (text : String) (lookup : String → Option String) :
    let lines := text.toList.splitOnP (· == '\n')
    let (loaded, errors) := Settings.ofText text
    let (overridden, variableErrors) := loaded.applyEnvironment lookup
    (∀ k : Settings.Key,
      (∃ front line back, lines = front ++ line :: back ∧ Settings.Gives line (loaded.entry k) ∧
        ∀ later ∈ back, ∀ e : Settings.Entry, Settings.Gives later e → e.key ≠ k) ∨
      (∀ line ∈ lines, ∀ e : Settings.Entry, Settings.Gives line e → e.key ≠ k) ∧
        loaded.entry k = Settings.entry {} k) ∧
    (∃ faults : List (Nat × SettingFault),
      errors = faults.map (fun p => .line p.1 p.2) ∧
      (faults.map Prod.fst).Pairwise (· < ·) ∧
      (∀ i line, lines[i]? = some line → (i + 1 ∈ faults.map Prod.fst ↔ Settings.Unusable line)) ∧
      ∀ n fault, (n, fault) ∈ faults →
        ∃ i line, n = i + 1 ∧ lines[i]? = some line ∧ Settings.Faulty line fault) ∧
    (∀ k : Settings.Key,
      (∃ name value, k.variable? = some name ∧ lookup name = some value ∧
        Settings.Reads value (overridden.entry k)) ∨
      (∀ (name value : String) (e : Settings.Entry), k.variable? = some name → lookup name = some value →
        e.key = k → ¬ Settings.Reads value e) ∧ overridden.entry k = loaded.entry k) ∧
    (∃ faults : List (String × SettingFault),
      variableErrors = faults.map (fun p => .variable p.1 p.2) ∧
      (faults.map Prod.fst).Sublist ["CIPHERSCRIPT_MAX_DEPTH", "CIPHERSCRIPT_KEY", "CIPHERSCRIPT_IV"] ∧
      (∀ (k : Settings.Key) (name value : String), k.variable? = some name → lookup name = some value →
        (name ∈ faults.map Prod.fst ↔ ∀ e : Settings.Entry, e.key = k → ¬ Settings.Reads value e)) ∧
      ∀ name fault, (name, fault) ∈ faults → ∃ (k : Settings.Key) (value : String),
        k.variable? = some name ∧ lookup name = some value ∧ Settings.Refuses k value fault) ∧
    1 ≤ loaded.maxCallDepth ∧ 1 ≤ overridden.maxCallDepth := by
  have hdepth := Settings.one_le_maxCallDepth_ofText text
  exact ⟨Settings.entry_ofText text, Settings.errors_ofText text, Settings.entry_applyEnvironment _ lookup,
    Settings.errors_applyEnvironment _ lookup, hdepth, Settings.one_le_maxCallDepth_applyEnvironment hdepth lookup⟩

/-- The depth that is too small does not count, and neither does the line after it. -/
example : Settings.ofText "max_call_depth = 10\n# none\nmax_call_depth = 0\nnonsense" =
    ({ maxCallDepth := 10 }, [.line 3 (.badDepth "0"), .line 4 (.notAssignment "nonsense")]) := by
  decide +kernel

end SealedScript
