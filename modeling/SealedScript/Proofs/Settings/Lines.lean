/-
SealedScript/Proofs/Settings/Lines.lean

What a line of a text says.  Blank lines and remarks say nothing.  Any other line
has to be an assignment: its first `=` stands between a key and a value, blanks
around both do not count, and neither do quotes around the value.  A line gives the
entry that its value is a text of, or it is faulty, or its key is one that settings
do not have; which of these does not depend on the settings.

Main results: `lineOutcome_eq_taken_iff`, `lineOutcome_eq_refused_iff`, `setLine_eq_take`.
-/
import Mathlib.Data.List.TakeWhile
import SealedScript.Proofs.Settings.Keys
import SealedScript.Proofs.Text.Trimming

namespace SealedScript

namespace Settings

/-! ### Lines -/

/-- The line is blank, or its first sign marks it as a remark. -/
def Remark (line : List Char) : Prop := trim line = [] ∨ ∃ rest, trim line = '#' :: rest ∨ trim line = ';' :: rest

/-- Quotes around a value do not belong to it. -/
inductive Unquotes : List Char → List Char → Prop
  | quoted (value : List Char) : Unquotes ('"' :: value ++ ['"']) value
  | plain {value : List Char} (h : ∀ inner, value ≠ '"' :: inner ++ ['"']) : Unquotes value value

/-- The line assigns the value to the key. -/
structure Assigns (line : List Char) (key value : String) : Prop where
  noRemark : ¬ Remark line
  parts : ∃ before after, trim line = before ++ '=' :: after ∧ '=' ∉ before ∧
    key.toList = trim before ∧ Unquotes (trim after) value.toList

/-- The line is a valid assignment of the entry. -/
def Gives (line : List Char) (e : Entry) : Prop := ∃ value, Assigns line e.key.name value ∧ Reads value e

/-- The line is no assignment, or what it assigns to a key is no value of it. -/
inductive Faulty (line : List Char) : SettingFault → Prop
  | noAssignment (noRemark : ¬ Remark line) (noSign : '=' ∉ line) :
      Faulty line (.notAssignment (String.ofList (trim line)))
  | noValue {k : Key} {value : String} {fault : SettingFault} (assigns : Assigns line k.name value)
      (refuses : Refuses k value fault) : Faulty line fault

/-- The line is neither blank nor a remark, and it has no `=` or assigns to a key what is no value of it. -/
def Unusable (line : List Char) : Prop :=
  ¬ Remark line ∧ ('=' ∉ line ∨ ∃ (k : Key) (value : String), Assigns line k.name value ∧
    ∀ e : Entry, e.key = k → ¬ Reads value e)

theorem exists_faulty_iff {line : List Char} : (∃ fault, Faulty line fault) ↔ Unusable line := by
  constructor
  · rintro ⟨_, ⟨hremark, hsign⟩ | ⟨hassigns, hrefuses⟩⟩
    · exact ⟨hremark, .inl hsign⟩
    · exact ⟨hassigns.noRemark, .inr ⟨_, _, hassigns, hrefuses.1⟩⟩
  · rintro ⟨hremark, hsign | ⟨k, value, hassigns, hnone⟩⟩
    · exact ⟨_, .noAssignment hremark hsign⟩
    · obtain ⟨fault, hrefuses⟩ := exists_refuses_iff.mpr hnone
      exact ⟨fault, .noValue hassigns hrefuses⟩

/-! ### Assignments -/

theorem unquotes_iff {value inner : List Char} : Unquotes value inner ↔ unquote value = inner := by
  constructor
  · intro h
    cases h with
    | quoted => simp [unquote]
    | plain hplain =>
      unfold unquote
      split
      · next rest =>
        refine if_neg fun hlast => ?_
        obtain ⟨front, rfl⟩ := List.getLast?_eq_some_iff.mp hlast
        exact hplain front rfl
      · rfl
  · rintro rfl
    unfold unquote
    split
    · next rest =>
      split
      · next hlast =>
        obtain ⟨front, rfl⟩ := List.getLast?_eq_some_iff.mp hlast
        rw [List.dropLast_concat]
        exact .quoted front
      · next hlast =>
        refine .plain fun front heq => hlast ?_
        rw [List.cons_append, List.cons.injEq] at heq
        rw [heq.2, List.getLast?_concat]
    · next hplain => exact .plain fun front heq => hplain _ heq

theorem assignment?_eq_none_iff {line : List Char} : assignment? line = none ↔ '=' ∉ line := by
  have hnil : line.dropWhile (· ≠ '=') = [] ↔ '=' ∉ line := by
    simp [List.dropWhile_eq_nil_iff, List.forall_mem_ne']
  rw [← hnil]
  unfold assignment?
  cases line.dropWhile (· ≠ '=') <;> simp

theorem assignment?_eq_some_iff {line : List Char} {key value : String} :
    assignment? line = some (key, value) ↔
      ∃ before after, line = before ++ '=' :: after ∧ '=' ∉ before ∧ key.toList = trim before ∧
        Unquotes (trim after) value.toList := by
  simp only [unquotes_iff]
  constructor
  · intro h
    have hsplit : line.takeWhile (· ≠ '=') ++ line.dropWhile (· ≠ '=') = line := List.takeWhile_append_dropWhile
    have hbefore : '=' ∉ line.takeWhile (· ≠ '=') := fun hmem => by simpa using List.mem_takeWhile_imp hmem
    unfold assignment? at h
    split at h
    · cases h
    · next sign after hdrop =>
      cases h
      have hsign : sign = '=' := by
        have hstop := List.head?_dropWhile_not (· ≠ '=') line
        rw [hdrop] at hstop
        simpa using hstop
      rw [hdrop, hsign] at hsplit
      exact ⟨_, after, hsplit.symm, hbefore, String.toList_ofList, String.toList_ofList.symm⟩
  · rintro ⟨before, after, rfl, hbefore, hkey, hvalue⟩
    have hne : ∀ c ∈ before, decide (c ≠ '=') = true := fun c hc => decide_eq_true (ne_of_mem_of_not_mem hc hbefore)
    have hdrop : (before ++ '=' :: after).dropWhile (· ≠ '=') = '=' :: after := by
      rw [List.dropWhile_append_of_pos hne]
      rfl
    have htake : (before ++ '=' :: after).takeWhile (· ≠ '=') = before := by
      rw [List.takeWhile_append_of_pos hne]
      exact List.append_nil before
    unfold assignment?
    simp only [hdrop, htake, ← hkey, hvalue, String.ofList_toList]

/-! ### Outcomes -/

/-- What comes of a line. -/
def lineOutcome (line : List Char) : Outcome :=
  let line := trim line
  if line.isEmpty || line.head? = some '#' || line.head? = some ';' then .idle
  else match assignment? line with
    | none => .refused (.notAssignment (String.ofList line))
    | some (key, value) => outcome key value

theorem remark_iff {line : List Char} :
    ((trim line).isEmpty || (trim line).head? = some '#' || (trim line).head? = some ';') = true ↔ Remark line := by
  rw [Remark]
  cases trim line <;> simp [exists_or]

/-- **Taking a line takes its outcome in.** -/
theorem setLine_eq_take (s : Settings) (line : List Char) : s.setLine line = (lineOutcome line).take s := by
  rw [setLine, lineOutcome]
  split
  · rfl
  · cases assignment? (trim line) with
    | none => rfl
    | some assignment => exact s.set_eq_take assignment.1 assignment.2

theorem lineOutcome_of_remark {line : List Char} (h : Remark line) : lineOutcome line = .idle :=
  if_pos (remark_iff.mpr h)

theorem lineOutcome_of_not_remark {line : List Char} (h : ¬ Remark line) :
    lineOutcome line = match assignment? (trim line) with
      | none => .refused (.notAssignment (String.ofList (trim line)))
      | some (key, value) => outcome key value :=
  if_neg (mt remark_iff.mp h)

theorem assigns_iff {line : List Char} {key value : String} :
    Assigns line key value ↔ ¬ Remark line ∧ assignment? (trim line) = some (key, value) := by
  rw [assignment?_eq_some_iff]
  exact ⟨fun h => ⟨h.noRemark, h.parts⟩, fun h => ⟨h.1, h.2⟩⟩

/-- **A line gives the entry that comes of it.** -/
theorem lineOutcome_eq_taken_iff {line : List Char} {e : Entry} : lineOutcome line = .taken e ↔ Gives line e := by
  by_cases hremark : Remark line
  · rw [lineOutcome_of_remark hremark]
    exact iff_of_false nofun fun ⟨_, hassigns, _⟩ => hassigns.noRemark hremark
  · simp only [lineOutcome_of_not_remark hremark, Gives, assigns_iff, hremark, not_false_eq_true, true_and]
    cases assignment? (trim line) with
    | none => simp
    | some assignment =>
      obtain ⟨key, value⟩ := assignment
      simp only [outcome_eq_taken_iff, Option.some_inj, Prod.mk.injEq]
      constructor
      · rintro ⟨rfl, hreads⟩
        exact ⟨value, ⟨rfl, rfl⟩, hreads⟩
      · rintro ⟨_, ⟨rfl, rfl⟩, hreads⟩
        exact ⟨rfl, hreads⟩

/-- **A line is faulty as it is refused.** -/
theorem lineOutcome_eq_refused_iff {line : List Char} {fault : SettingFault} :
    lineOutcome line = .refused fault ↔ Faulty line fault := by
  constructor
  · intro h
    by_cases hremark : Remark line
    · rw [lineOutcome_of_remark hremark] at h
      cases h
    rw [lineOutcome_of_not_remark hremark] at h
    split at h
    · next hnone =>
      cases h
      rw [assignment?_eq_none_iff, mem_trim_iff (by decide)] at hnone
      exact .noAssignment hremark hnone
    · next key value hsome =>
      obtain ⟨k, rfl, hrefuses⟩ := outcome_eq_refused_iff.mp h
      exact .noValue (assigns_iff.mpr ⟨hremark, hsome⟩) hrefuses
  · intro h
    cases h with
    | noAssignment hremark hsign =>
      rw [← mem_trim_iff (by decide), ← assignment?_eq_none_iff] at hsign
      rw [lineOutcome_of_not_remark hremark, hsign]
    | noValue hassigns hrefuses =>
      obtain ⟨hremark, hsome⟩ := assigns_iff.mp hassigns
      rw [lineOutcome_of_not_remark hremark, hsome]
      exact outcome_eq_refused_iff.mpr ⟨_, rfl, hrefuses⟩

end Settings

end SealedScript
