/-
SealedScript/Proofs/Machine/Prompting.lean

Calls for a line on a console that writes a prompt before it waits.  A prompt is written
unless one is showing already, and it shows until a line comes in, the input ends or the
read fails.  So a call that ran out of time leaves its prompt to the next one.

Calls take turns when a call that finds a prompt is either made by the one who left it, or
by a task; a task never runs out of time, and so leaves none.  Then one prompt is written
from one answer to the next, and it is that of the call that is answered, unless a
task came in between.

Main results: `Console.reads_read`, `Call.shown_eq`, `Turns.shown_unanswered`.
-/
import Mathlib.Data.List.DropRight
import SealedScript.Proofs.Machine.Steps

namespace SealedScript

/-! ### Reads -/

namespace Console

variable {c : Console}

/-- What a read does to a console that writes prompts before it waits. -/
structure Reads (before : Console) (prompt : String) (answer : Answer) (after : Console) : Prop where
  style : after.style = .beforeWait
  prompts : after.prompts = before.prompts ++ if before.waiting then [] else [prompt]
  waiting : after.waiting = decide (answer = .timedOut)

/-- While a prompt shows, no other one is written. -/
theorem Reads.of_waiting {prompt : String} {answer : Answer} {after : Console} (hwaiting : c.waiting = true)
    (hstyle : after.style = .beforeWait) (hprompts : after.prompts = c.prompts)
    (hafter : after.waiting = decide (answer = .timedOut)) : c.Reads prompt answer after := by
  refine ⟨hstyle, ?_, hafter⟩
  rw [hprompts, hwaiting, if_pos rfl, List.append_nil]

theorem answered_beforeWait (hstyle : c.style = .beforeWait) (prompt : String) :
    c.answered prompt = { c with waiting := false } := by
  rw [answered, hstyle]

theorem reads_receive (hstyle : c.style = .beforeWait) (hwaiting : c.waiting = true) (prompt : String)
    (limit : Option Nat) : c.Reads prompt (c.receive prompt limit).1 (c.receive prompt limit).2.2 := by
  unfold receive
  split
  · rw [answered_beforeWait (c := c.ranDry) hstyle]
    exact .of_waiting hwaiting hstyle rfl rfl
  · exact .of_waiting hwaiting hstyle rfl rfl
  · next text delay rest _ =>
    have hanswered := answered_beforeWait (c := { c with arrivals := rest }) hstyle prompt
    split
    · rw [hanswered]
      exact .of_waiting hwaiting hstyle rfl rfl
    · split
      · exact .of_waiting hwaiting hstyle rfl hwaiting
      · rw [hanswered]
        exact .of_waiting hwaiting hstyle rfl rfl

theorem ask_beforeWait (hstyle : c.style = .beforeWait) (prompt : String) :
    (c.ask prompt).style = .beforeWait ∧ (c.ask prompt).waiting = true ∧
      (c.ask prompt).prompts = c.prompts ++ if c.waiting then [] else [prompt] := by
  rw [ask, hstyle]
  cases hwaiting : c.waiting with
  | true => exact ⟨hstyle, hwaiting, (List.append_nil _).symm⟩
  | false => exact ⟨rfl, rfl, by simp [prompts]⟩

/-- **A prompt is written unless one is showing**, and one is showing afterwards iff the
read ran out of time. -/
theorem reads_read (hstyle : c.style = .beforeWait) (prompt : String) (limit : Option Nat) :
    c.Reads prompt (c.read prompt limit).1 (c.read prompt limit).2.2 := by
  obtain ⟨hstyle, hwaiting, hprompts⟩ := ask_beforeWait hstyle prompt
  unfold read
  dsimp only
  split
  · exact ⟨hstyle, hprompts, hwaiting⟩
  · have hreceive := reads_receive (c := { c.ask prompt with startup := 0 }) hstyle hwaiting prompt
      (limit.map (· - (c.ask prompt).startup))
    refine ⟨hreceive.style, hreceive.prompts.trans ?_, hreceive.waiting⟩
    simp only [hwaiting, if_true, List.append_nil]
    exact hprompts

theorem receive_ne_timedOut (c : Console) (prompt : String) : (c.receive prompt none).1 ≠ .timedOut := by
  unfold receive
  split <;> simp

/-- A read without a limit does not run out of time. -/
theorem read_ne_timedOut (c : Console) (prompt : String) : (c.read prompt none).1 ≠ .timedOut :=
  receive_ne_timedOut { c.ask prompt with startup := 0 } prompt

/-- Lines are no prompts, and leave one that shows as it is. -/
theorem printLines_keeps (c : Console) (lines : List String) :
    (c.printLines lines).style = c.style ∧ (c.printLines lines).waiting = c.waiting ∧
      (c.printLines lines).prompts = c.prompts := by
  induction lines generalizing c with
  | nil => exact ⟨rfl, rfl, rfl⟩
  | cons text rest ih =>
    obtain ⟨hstyle, hwaiting, hprompts⟩ := ih (c.printLine text)
    exact ⟨hstyle, hwaiting, hprompts.trans (by simp [printLine, prompts])⟩

end Console

/-! ### Calls for a line -/

namespace Call

variable (call : Call)

/-- Whether a task makes the call. -/
def byTask : Bool := call.before.inTask

/-- How long the call waits: until the next task is due, which is nothing to a task. -/
def limit : Option Nat :=
  if call.before.inTask then none else call.before.scheduler.nextWakeup.map (· - call.before.clock)

/-- How the call ends. -/
def answer : Answer := (call.before.console.read call.prompt call.limit).1

/-- The console after the call. -/
def after : Console := (call.before.console.read call.prompt call.limit).2.2

/-- The prompts that the call writes. -/
def shown : List String := call.after.prompts.drop call.before.console.prompts.length

/-- So ends the step that the call is, and this console it leaves. -/
theorem readLine_spec :
    (Action.readLine call.prompt call.before).1 = .done call.answer ∧
      (Action.readLine call.prompt call.before).2.console = call.after := ⟨rfl, rfl⟩

variable {call}

theorem reads (hstyle : call.before.console.style = .beforeWait) :
    call.before.console.Reads call.prompt call.answer call.after :=
  Console.reads_read hstyle call.prompt call.limit

/-- A call writes its own prompt, unless one is showing. -/
theorem shown_eq (hstyle : call.before.console.style = .beforeWait) :
    call.shown = if call.before.console.waiting then [] else [call.prompt] := by
  rw [shown, (reads hstyle).prompts, List.drop_left]

theorem answer_ne_timedOut (htask : call.byTask = true) : call.answer ≠ .timedOut := by
  have hlimit : call.limit = none := if_pos htask
  rw [answer, hlimit]
  exact Console.read_ne_timedOut _ _

end Call

/-- The calls for a line among the moments of a run. -/
def callsOf (t : List Moment) : List Call := t.filterMap fun k => k.event.call?

/-- The calls for a line that a run makes, in order. -/
def Visit.calls {α : Type} (v : Visit α) : List Call := callsOf v.moments

theorem callsOf_append (t t' : List Moment) : callsOf (t ++ t') = callsOf t ++ callsOf t' := List.filterMap_append

theorem callsOf_silent {k : Moment} (h : k.event.call? = none) : callsOf [k] = [] := by
  simp [callsOf, h]

theorem callsOf_asked {k : Moment} {call : Call} (h : k.event.call? = some call) : callsOf [k] = [call] := by
  simp [callsOf, h]

/-- The calls of a run between two moments that ask for nothing. -/
theorem callsOf_between {k k' : Moment} (h : k.event.call? = none) (h' : k'.event.call? = none) (t : List Moment) :
    callsOf (k :: t ++ [k']) = callsOf t := by
  rw [callsOf_append, callsOf_silent h', List.append_nil, ← List.singleton_append, callsOf_append, callsOf_silent h,
    List.nil_append]

/-! ### Taking turns -/

namespace Call

variable (call : Call)

/-- The prompt that shows after the call, if `s` has been the one before it. -/
def leaves (s : Option String) : Option String :=
  if call.answer = .timedOut then some (s.getD call.prompt) else none

/-- The call takes its turn while the prompt `s` shows, or none. -/
structure TakesTurn (s : Option String) : Prop where
  shown : call.shown = if s.isSome then [] else [call.prompt]
  patient : call.byTask = true → call.answer ≠ .timedOut
  resumes : call.byTask = false → ∀ p ∈ s, call.prompt = p

end Call

/-- Calls take turns, from where the prompt `s` shows to where `s'` does. -/
def Turns : Option String → List Call → Option String → Prop
  | s, [], s' => s' = s
  | s, call :: calls, s' => call.TakesTurn s ∧ Turns (call.leaves s) calls s'

namespace Turns

theorem append {s s' s'' : Option String} {calls calls' : List Call} (h : Turns s calls s') (h' : Turns s' calls' s'') :
    Turns s (calls ++ calls') s'' := by
  induction calls generalizing s with
  | nil =>
    cases h
    exact h'
  | cons call calls ih => exact ⟨h.1, ih h.2⟩

theorem of_append {s s'' : Option String} {calls calls' : List Call} (h : Turns s (calls ++ calls') s'') :
    ∃ s', Turns s calls s' ∧ Turns s' calls' s'' := by
  induction calls generalizing s with
  | nil => exact ⟨s, rfl, h⟩
  | cons call calls ih =>
    obtain ⟨s', hfront, hback⟩ := ih h.2
    exact ⟨s', ⟨h.1, hfront⟩, hback⟩

end Turns

/-! ### From one answer to the next -/

/-- The calls since the last one that was answered: they have all run out of time. -/
def unanswered (calls : List Call) : List Call := calls.rtakeWhile fun call => decide (call.answer = .timedOut)

/-- The prompts that were written since the last answer. -/
def shownSince (calls : List Call) : List String := (unanswered calls).flatMap Call.shown

/-- What is known of the calls since the last answer: where a prompt shows, it alone has been
written, and the calls were all made with this prompt, none of them by a task. -/
structure Suspended (calls : List Call) (s : Option String) : Prop where
  none_iff : s = none ↔ unanswered calls = []
  shown : shownSince calls = s.toList
  same : ∀ p ∈ s, ∀ call ∈ unanswered calls, call.byTask = false ∧ call.prompt = p

theorem unanswered_concat_of_timedOut {call : Call} (h : call.answer = .timedOut) (calls : List Call) :
    unanswered (calls ++ [call]) = unanswered calls ++ [call] :=
  List.rtakeWhile_concat_pos _ _ _ (by simp [h])

theorem unanswered_concat_of_answered {call : Call} (h : call.answer ≠ .timedOut) (calls : List Call) :
    unanswered (calls ++ [call]) = [] :=
  List.rtakeWhile_concat_neg _ _ _ (by simp [h])

/-- One call more, on its turn. -/
theorem Suspended.concat {calls : List Call} {s : Option String} {call : Call} (h : Suspended calls s)
    (hturn : call.TakesTurn s) : Suspended (calls ++ [call]) (call.leaves s) := by
  by_cases htimedOut : call.answer = .timedOut
  · have hmain : call.byTask = false := by
      rw [← Bool.not_eq_true]
      exact fun htask => hturn.patient htask htimedOut
    rw [Call.leaves, if_pos htimedOut]
    refine ⟨?_, ?_, ?_⟩
    · simp [unanswered_concat_of_timedOut htimedOut]
    · rw [shownSince, unanswered_concat_of_timedOut htimedOut, List.flatMap_append, List.flatMap_singleton,
        ← shownSince, h.shown, hturn.shown]
      cases s <;> rfl
    · intro p hp
      rw [unanswered_concat_of_timedOut htimedOut, List.forall_mem_append, List.forall_mem_singleton]
      cases s with
      | none =>
        rw [h.none_iff.mp rfl]
        cases hp
        exact ⟨fun _ hcall => absurd hcall List.not_mem_nil, hmain, rfl⟩
      | some q =>
        cases hp
        exact ⟨h.same q rfl, hmain, hturn.resumes hmain q rfl⟩
  · rw [Call.leaves, if_neg htimedOut]
    have hnone := unanswered_concat_of_answered htimedOut calls
    exact ⟨by simp [hnone], by simp [shownSince, hnone], fun _ hp => by cases hp⟩

theorem Turns.suspended {calls : List Call} {s : Option String} (h : Turns none calls s) : Suspended calls s := by
  induction calls using List.reverseRecOn generalizing s with
  | nil =>
    cases h
    exact ⟨by simp [unanswered], rfl, fun _ hp => by cases hp⟩
  | append_singleton calls call ih =>
    obtain ⟨s', hfront, hturn, rfl⟩ := h.of_append
    exact (ih hfront).concat hturn

/-- What the call writes and what has been written since the last answer before it. -/
def promptsFor (front : List Call) (call : Call) : List String := (unanswered front ++ [call]).flatMap Call.shown

/-- **One prompt for each answer.**  Where calls take turns, exactly one prompt is written
from the last answer up to a call and with it.  It is the call's own, unless the
call is made by a task while another one is suspended; then the prompt is the one of the
suspended calls, and the task's is not written. -/
theorem Turns.shown_unanswered {front back : List Call} {call : Call} {s : Option String}
    (h : Turns none (front ++ call :: back) s) :
    (call.byTask = false ∨ unanswered front = [] → promptsFor front call = [call.prompt]) ∧
    (call.byTask = true → unanswered front ≠ [] →
      call.answer ≠ .timedOut ∧ ∃ p, promptsFor front call = [p] ∧
        ∀ other ∈ unanswered front, other.byTask = false ∧ other.prompt = p) := by
  obtain ⟨s', hfront, hturn, -⟩ := h.of_append
  have hsuspended := hfront.suspended
  have hshown : promptsFor front call = s'.toList ++ if s'.isSome then [] else [call.prompt] := by
    rw [promptsFor, List.flatMap_append, List.flatMap_singleton, ← shownSince, hsuspended.shown, hturn.shown]
  cases s' with
  | none =>
    have hnone := hsuspended.none_iff.mp rfl
    exact ⟨fun _ => hshown, fun _ hsome => absurd hnone hsome⟩
  | some p =>
    have hsome : unanswered front ≠ [] := fun hnone => by cases hsuspended.none_iff.mpr hnone
    refine ⟨fun hcase => ?_, fun htask _ => ⟨hturn.patient htask, p, hshown, hsuspended.same p rfl⟩⟩
    rw [hshown, hturn.resumes (hcase.resolve_right hsome) p rfl]
    rfl

end SealedScript
