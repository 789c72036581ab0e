/-
SealedScript/Proofs/Machine/Dialogue.lean

Who is answered under which prompt.  The program waits for a line in slices: when a task is
due the read is given up, the task is fired, and the read is resumed.  A task that asks for
a line itself does so in between, and waits as long as it takes.

So a run of a task leaves the prompt that shows as it is, or ends with none: the main
read goes on with the prompt that it has left, or begins anew.  Everything else
that is run comes back with no prompt showing, and all calls take turns.

Main results: `Watched.turns_runProgram`, `one_prompt_for_each_answer`.
-/
import SealedScript.Proofs.Machine.Prompting
import SealedScript.Proofs.Machine.ServiceLoop

namespace SealedScript

/-! ### The prompt that shows -/

/-- A machine on whose console prompts are written before the wait, and the prompt that
shows. -/
structure Machine.Prompts (m : Machine) (s : Option String) : Prop where
  style : m.console.style = .beforeWait
  waiting : m.console.waiting = s.isSome

theorem Machine.Prompts.of_prints {m m' : Machine} {s : Option String} (h : m.Prompts s) (hprints : m.Prints m') :
    m'.Prompts s := by
  obtain ⟨lines, hconsole⟩ := hprints
  obtain ⟨hstyle, hwaiting, -⟩ := m.console.printLines_keeps lines
  rw [← hconsole] at hstyle hwaiting
  exact ⟨hstyle.trans h.style, hwaiting.trans h.waiting⟩

namespace Call

variable {call : Call} {s : Option String}

theorem prompts_after (h : call.before.Prompts s) :
    (Action.readLine call.prompt call.before).2.Prompts (call.leaves s) := by
  have hreads := call.reads h.style
  rw [← call.readLine_spec.2] at hreads
  refine ⟨hreads.style, hreads.waiting.trans ?_⟩
  rw [leaves]
  split
  · next htimedOut => simp [htimedOut]
  · next hanswered => simp [hanswered]

/-- A call is on its turn if it resumes the read that shows its prompt, or a task makes it. -/
theorem takesTurn (h : call.before.Prompts s) (hresumes : call.byTask = false → ∀ p ∈ s, call.prompt = p) :
    call.TakesTurn s where
  shown := by rw [shown_eq h.style, h.waiting]
  patient := answer_ne_timedOut
  resumes := hresumes

end Call

/-! ### Prompts written -/

/-- The prompts of the console are those that the calls have written. -/
def Accounts (m : Machine) (_ending : Ending) (t : List Moment) (m' : Machine) : Prop :=
  m.console.style = .beforeWait →
    m'.console.style = .beforeWait ∧ m'.console.prompts = m.console.prompts ++ (callsOf t).flatMap Call.shown

theorem accounts_of_prints {m m' : Machine} {ending : Ending} {t : List Moment} (hnone : callsOf t = [])
    (h : m.Prints m') : Accounts m ending t m' := by
  intro hstyle
  obtain ⟨lines, hconsole⟩ := h
  obtain ⟨hkept, -, hprompts⟩ := m.console.printLines_keeps lines
  rw [hnone, hconsole]
  exact ⟨hkept.trans hstyle, hprompts.trans (List.append_nil _).symm⟩

theorem accounts_step {event : Event} {m m' : Machine} {ending : Ending} (h : event.Tells m m') :
    Accounts m ending [⟨event, m'⟩] m' := by
  rw [Event.Tells] at h
  split at h
  · next call hcall =>
    obtain ⟨rfl, rfl⟩ := h
    intro hstyle
    have hreads := call.reads hstyle
    rw [← call.readLine_spec.2] at hreads
    refine ⟨hreads.style, hreads.prompts.trans ?_⟩
    rw [callsOf_asked hcall, List.flatMap_singleton, Call.shown_eq hstyle]
  · next hnone => exact accounts_of_prints (callsOf_silent hnone) h

theorem law_accounts : Law Accounts where
  still _ := accounts_of_prints rfl (.refl _)
  step _ := accounts_step
  follow h h' hstyle := by
    obtain ⟨hmiddle, hprompts⟩ := h hstyle
    obtain ⟨hafter, hprompts'⟩ := h' hmiddle
    refine ⟨hafter, ?_⟩
    rw [hprompts', hprompts, callsOf_append, List.flatMap_append, List.append_assoc]
  call _ h := by
    unfold Accounts at h ⊢
    rw [callsOf_between rfl rfl]
    exact h
  apart h := by
    unfold Accounts at h ⊢
    rw [callsOf_between rfl rfl]
    exact h
  caught h := by
    unfold Accounts at h ⊢
    rw [callsOf_append, callsOf_silent rfl, List.append_nil]
    exact h

/-! ### Runs of tasks -/

/-- A run that leaves the prompt that shows as it is, or ends with none. -/
def Yields (m : Machine) (_ending : Ending) (t : List Moment) (m' : Machine) : Prop :=
  ∀ s, m.Prompts s → ∃ s', (s' = s ∨ s' = none) ∧ m'.Prompts s' ∧ m'.inTask = m.inTask ∧ Turns s (callsOf t) s'

theorem yields_of_prints {m m' : Machine} {ending : Ending} {t : List Moment} (hnone : callsOf t = [])
    (hprints : m.Prints m') (htask : m'.inTask = m.inTask) : Yields m ending t m' := by
  intro s hs
  refine ⟨s, .inl rfl, hs.of_prints hprints, htask, ?_⟩
  rw [hnone]
  rfl

theorem Yields.follow {m m' m'' : Machine} {ending ending' : Ending} {t t' : List Moment} (h : Yields m ending t m')
    (h' : Yields m' ending' t' m'') : Yields m ending' (t ++ t') m'' := by
  intro s hs
  obtain ⟨s', hs', hmiddle, htask, hturns⟩ := h s hs
  obtain ⟨s'', hs'', hafter, htask', hturns'⟩ := h' s' hmiddle
  refine ⟨s'', ?_, hafter, htask'.trans htask, ?_⟩
  · rcases hs'' with rfl | rfl
    · exact hs'
    · exact .inr rfl
  · rw [callsOf_append]
    exact hturns.append hturns'

theorem Yields.call {m m' : Machine} {f : FunctionDef} {args : List Value} {ending : Ending} {t : List Moment}
    (h : Yields (m.enter (Action.callScope f args)) ending t m') :
    Yields m ending (⟨.entered f, m.enter (Action.callScope f args)⟩ :: t ++ [⟨.left, m'.leave⟩]) m'.leave := by
  unfold Yields at h ⊢
  rw [callsOf_between rfl rfl]
  intro s hs
  obtain ⟨s', hs', hafter, htask, hturns⟩ := h s ⟨hs.style, hs.waiting⟩
  exact ⟨s', hs', ⟨hafter.style, hafter.waiting⟩, htask, hturns⟩

/-- Whether a task interrupts a task or not, it is a task then. -/
theorem Yields.apart {m m' : Machine} {scheduler : Scheduler} {ending : Ending} {t : List Moment}
    (h : Yields (m.park scheduler) ending t m') :
    Yields m ending (⟨.parked, m.park scheduler⟩ :: t ++ [⟨.resumed, m'.resume m⟩]) (m'.resume m) := by
  unfold Yields at h ⊢
  rw [callsOf_between rfl rfl]
  intro s hs
  obtain ⟨s', hs', hafter, -, hturns⟩ := h s ⟨hs.style, hs.waiting⟩
  exact ⟨s', hs', ⟨hafter.style, hafter.waiting⟩, rfl, hturns⟩

/-- Outside tasks it is so as long as no line is asked for. -/
theorem law_yields : BodyLaw Yields where
  still _ := yields_of_prints rfl (.refl _) rfl
  step h := yields_of_prints (callsOf_silent h.asksNone) h.prints h.single.sameCalls.2.2
  follow := Yields.follow
  call _ := Yields.call

/-- What a task asks for is answered. -/
theorem yields_of_asked {call : Call} {ending : Ending} {t : List Moment} (hcalls : callsOf t = [call])
    (htask : call.byTask = true) : Yields call.before ending t (Action.readLine call.prompt call.before).2 := by
  intro s hs
  have hturn := call.takesTurn hs fun hmain => by rw [htask] at hmain; cases hmain
  have hafter := call.prompts_after hs
  have hnone : call.leaves s = none := if_neg (hturn.patient htask)
  rw [hnone] at hafter
  refine ⟨none, .inr rfl, hafter, rfl, ?_⟩
  rw [hcalls]
  exact ⟨hturn, hnone.symm⟩

theorem law_taskYields : Law fun m ending t m' => m.inTask = true → Yields m ending t m' where
  still _ _ := yields_of_prints rfl (.refl _) rfl
  step hsingle htells htask := by
    rw [Event.Tells] at htells
    split at htells
    · next call hcall =>
      obtain ⟨rfl, rfl⟩ := htells
      exact yields_of_asked (callsOf_asked hcall) htask
    · next hnone => exact yields_of_prints (callsOf_silent hnone) htells hsingle.sameCalls.2.2
  follow h h' htask s hs := by
    obtain ⟨-, -, -, hmiddle, -⟩ := h htask s hs
    exact (h htask).follow (h' (hmiddle.trans htask)) s hs
  call _ h htask := (h htask).call
  apart h _ := (h rfl).apart
  caught h htask := by
    have hreport {m : Machine} {n : Notice} : Yields m .done [⟨.step, m.notice n⟩] (m.notice n) :=
      yields_of_prints (callsOf_silent rfl) (.of_eq rfl) rfl
    exact (h htask).follow hreport

/-- Whoever is interrupted, tasks that are due leave the prompt that shows or end with none. -/
theorem runDue_yields (steps moment : Nat) : Obeys Yields (Watched.runDue steps moment) := by
  intro m
  cases steps with
  | zero => exact law_yields.still rfl
  | succ steps => exact ((law_taskYields.obeyed steps).fire (m.scheduler.takeReady moment).1 _ rfl).apart

theorem serveTasks_yields (steps : Nat) : Obeys Yields (Watched.serveTasks steps) :=
  law_yields.serveTasks runDue_yields steps

/-! ### Runs outside tasks -/

/-- A visit whose calls take turns from where the prompt `s` shows; if it comes to its end,
no prompt shows any more. -/
def Visit.Turned {α : Type} (v : Visit α) (s : Option String) : Prop :=
  ∃ s', Turns s v.calls s' ∧ v.machine.Prompts s' ∧ v.machine.inTask = false ∧ (v.outcome.ending = .done → s' = none)

theorem Visit.calls_behind {α : Type} (v : Visit α) (t : List Moment) : (v.behind t).calls = callsOf t ++ v.calls :=
  callsOf_append t v.moments

theorem Visit.Turned.behind {α : Type} {v : Visit α} {t : List Moment} {s s' : Option String} (h : v.Turned s')
    (hturns : Turns s (callsOf t) s') : (v.behind t).Turned s := by
  obtain ⟨s'', hrest, hafter, htask, hdone⟩ := h
  refine ⟨s'', ?_, hafter, htask, hdone⟩
  rw [v.calls_behind]
  exact hturns.append hrest

/-- A run from outside of tasks, and from where no prompt shows. -/
def TakesTurns (m : Machine) (ending : Ending) (t : List Moment) (m' : Machine) : Prop :=
  m.inTask = false → m.Prompts none →
    ∃ s, Turns none (callsOf t) s ∧ m'.Prompts s ∧ m'.inTask = false ∧ (ending = .done → s = none)

/-- Where no prompt shows, none is left. -/
theorem Yields.takesTurns {m m' : Machine} {ending : Ending} {t : List Moment} (h : Yields m ending t m') :
    TakesTurns m ending t m' := by
  intro hmain hnone
  obtain ⟨s, hs, hafter, htask, hturns⟩ := h none hnone
  exact ⟨s, hturns, hafter, htask.trans hmain, fun _ => hs.elim id id⟩

theorem law_takesTurns : BodyLaw TakesTurns where
  still h := (law_yields.still h).takesTurns
  step h := (law_yields.step h).takesTurns
  follow h h' hmain hnone := by
    obtain ⟨s, hturns, hmiddle, htask, hdone⟩ := h hmain hnone
    cases hdone rfl
    obtain ⟨s', hturns', hafter, htask', hdone'⟩ := h' htask hmiddle
    refine ⟨s', ?_, hafter, htask', hdone'⟩
    rw [callsOf_append]
    exact hturns.append hturns'
  call _ h := by
    unfold TakesTurns at h ⊢
    rw [callsOf_between rfl rfl]
    intro hmain hnone
    obtain ⟨s, hturns, hafter, htask, hdone⟩ := h hmain ⟨hnone.style, hnone.waiting⟩
    exact ⟨s, hturns, ⟨hafter.style, hafter.waiting⟩, htask, hdone⟩

namespace Watched

theorem bind_done {α β : Type} {x : Watched α} {f : α → Watched β} {m : Machine} {a : α}
    (h : (x m).outcome = .done a) : (x >>= f) m = (f a (x m).machine).behind (x m).moments :=
  attempt_done h

/-- **The wait for a line.**  The induction is on the slices: each call is on its turn, and
between two of them the tasks leave the prompt or end with none. -/
theorem turned_awaitLine (steps : Nat) (prompt : String) {m : Machine} {s : Option String} (hmain : m.inTask = false)
    (hs : m.Prompts s) (hsame : ∀ p ∈ s, prompt = p) : (awaitLine steps prompt m).Turned s := by
  induction steps generalizing m s with
  | zero => exact ⟨s, rfl, hs, hmain, nofun⟩
  | succ steps ih =>
    let call : Call := ⟨prompt, m⟩
    let next := (Action.readLine prompt m).2
    have hturn : call.TakesTurn s := call.takesTurn hs fun _ => hsame
    have hnext : next.Prompts (call.leaves s) := call.prompts_after hs
    have hrun : awaitLine (steps + 1) prompt m = _ := bind_done (x := readLine prompt) call.readLine_spec.1
    rw [hrun]
    refine Visit.Turned.behind ?_ (show Turns s [call] (call.leaves s) from ⟨hturn, rfl⟩)
    have hanswered (h : call.answer ≠ .timedOut) {outcome : Outcome String} :
        Visit.Turned ⟨outcome, next, []⟩ (call.leaves s) :=
      ⟨_, rfl, hnext, hmain, fun _ => if_neg h⟩
    cases hanswer : call.answer with
    -- an answer ends the wait, and with it the prompt
    | line text => exact hanswered (by simp [hanswer])
    | ended => exact hanswered (by simp [hanswer])
    | failed what => exact hanswered (by simp [hanswer])
    | timedOut =>
      show Visit.Turned ((serveTasks steps >>= fun _ => awaitLine steps prompt) next) _
      obtain ⟨s', hs', hserved, htask, hturns⟩ := serveTasks_yields steps next _ hnext
      obtain ⟨u, hdone⟩ | hended := (serveTasks steps next).outcome.done_or_ended
      · -- what the tasks have left, if anything, is the prompt of this very wait
        have hleft : ∀ p ∈ s', prompt = p := by
          rintro p hp
          rcases hs' with rfl | rfl
          · rw [Call.leaves, if_pos hanswer] at hp
            cases s with
            | none => exact Option.some.inj hp
            | some q => exact (hsame q rfl).trans (Option.some.inj hp)
          · cases hp
        rw [bind_done hdone]
        exact (ih (htask.trans hmain) hserved hleft).behind hturns
      · obtain ⟨outcome, hbind, hending⟩ := bind_ended (f := fun _ => awaitLine steps prompt) hended
        rw [hbind]
        exact ⟨s', hturns, hserved, htask.trans hmain, fun h => absurd (hending.symm.trans h) hended⟩

theorem takesTurns_awaitLine (steps : Nat) (prompt : String) : Obeys TakesTurns (awaitLine steps prompt) :=
  fun _ hmain hnone => turned_awaitLine steps prompt hmain hnone nofun

theorem takesTurns_obeyed (steps : Nat) : BodyLaw.Obeyed TakesTurns steps :=
  law_takesTurns.obeyed (fun steps m => (serveTasks_yields steps m).takesTurns) takesTurns_awaitLine steps

end Watched

/-! ### Whole runs -/

namespace BodyLaw

open Watched

variable {Q : Machine → Ending → List Moment → Machine → Prop}

theorem timerTurn (law : BodyLaw Q) (due : ∀ steps moment, Obeys Q (runDue steps moment)) (steps : Nat) :
    Obeys Q (timerTurn steps) := by
  refine law.bind (law.quiet (Action.quiet_reads _)) fun wakeup => ?_
  cases wakeup with
  | none => exact law.pure _
  | some moment =>
    refine law.bind (law.quiet (Action.quiet_sleepUntil moment)) fun _ => ?_
    refine law.bind (law.quiet (Action.quiet_reads _)) fun now => ?_
    refine law.bind (due steps now) fun ended => ?_
    cases ended with
    | some id => exact law.pure _
    | none => exact law.pure _

/-- A law of bodies that holds wherever tasks are fired holds of serving the timers. -/
theorem runTimers (law : BodyLaw Q) (due : ∀ steps moment, Obeys Q (runDue steps moment)) (steps : Nat) :
    Obeys Q (runTimers steps) := by
  induction steps with
  | zero => exact law.stop rfl
  | succ steps ih =>
    refine law.bind (law.timerTurn due steps) fun ended => ?_
    cases ended with
    | some ended => exact law.pure _
    | none => exact ih

end BodyLaw

namespace Watched

/-- A statement as a turn, watched.  After a failure the tasks are disarmed. -/
def statementTurn (steps : Nat) (stmt : Stmt) : Watched (Option RunEnd) := fun m =>
  let v := runTopLevel steps stmt m
  match v.outcome with
  | .done () => ⟨.done none, v.machine, v.moments⟩
  | .failed (.halted _) => ⟨.done (some .halted), v.machine, v.moments⟩
  | .failed e => ⟨.failed e, v.machine.cancelTasks, v.moments ++ [⟨.step, v.machine.cancelTasks⟩]⟩
  | .clockOverflow => ⟨.clockOverflow, v.machine, v.moments⟩
  | .unfinished => ⟨.unfinished, v.machine, v.moments⟩

/-- The run of a program, watched. -/
def runProgram (steps : Nat) : List Stmt → Watched RunEnd
  | [] => runTimers steps
  | stmt :: rest => do
    match ← statementTurn steps stmt with
    | some ended => pure ended
    | none => runProgram steps rest

theorem plain_statementTurn (steps : Nat) (stmt : Stmt) :
    plain (statementTurn steps stmt) = Action.statementTurn steps stmt := by
  funext m
  unfold Action.statementTurn
  rw [← (agreement steps).runTopLevel]
  simp only [plain, statementTurn]
  rcases runTopLevel steps stmt m with ⟨u | e | - | -, m', t⟩
  · rfl
  · cases e <;> rfl
  · rfl
  · rfl

theorem plain_runProgram (steps : Nat) (program : List Stmt) :
    plain (runProgram steps program) = Action.runProgram steps program := by
  induction program with
  | nil => exact plain_runTimers steps
  | cons stmt rest ih =>
    simp only [runProgram, Action.runProgram, plain_bind, plain_statementTurn]
    congr 1
    funext ended
    cases ended with
    | none => exact ih
    | some ended => rfl

/-- What the turn adds to the run of its statement are no calls. -/
theorem calls_statementTurn (steps : Nat) (stmt : Stmt) (m : Machine) :
    (statementTurn steps stmt m).calls = (runTopLevel steps stmt m).calls := by
  unfold statementTurn
  rcases runTopLevel steps stmt m with ⟨u | e | - | -, m', t⟩
  · rfl
  · have hcancelled : callsOf (t ++ [⟨.step, m'.cancelTasks⟩]) = callsOf t := by
      rw [callsOf_append, callsOf_silent rfl, List.append_nil]
    cases e <;> first | rfl | exact hcancelled
  · rfl
  · rfl

/-- The run goes on only if the statement has come to its end. -/
theorem statementTurn_goesOn {steps : Nat} {stmt : Stmt} {m : Machine}
    (h : (statementTurn steps stmt m).outcome = .done none) :
    (runTopLevel steps stmt m).outcome.ending = .done ∧
      (statementTurn steps stmt m).machine = (runTopLevel steps stmt m).machine := by
  unfold statementTurn at h ⊢
  generalize runTopLevel steps stmt m = v at h ⊢
  rcases v with ⟨u | e | - | -, m', t⟩
  · exact ⟨rfl, rfl⟩
  · cases e <;> cases h
  · cases h
  · cases h

/-- **In a whole run the calls take turns.**  The induction is on the statements that are
left: each but the last that is run has come to its end, and left no prompt. -/
theorem turns_runProgram (steps : Nat) (program : List Stmt) {m : Machine} (hmain : m.inTask = false)
    (hnone : m.Prompts none) : ∃ s, Turns none (runProgram steps program m).calls s := by
  induction program generalizing m with
  | nil =>
    have htimers := law_takesTurns.runTimers (fun steps now m => (runDue_yields steps now m).takesTurns) steps
    obtain ⟨s, hturns, -⟩ := htimers m hmain hnone
    exact ⟨s, hturns⟩
  | cons stmt rest ih =>
    obtain ⟨s, hturns, hafter, htask, hdone⟩ := (takesTurns_obeyed steps).runTopLevel stmt m hmain hnone
    change Turns none (runTopLevel steps stmt m).calls s at hturns
    rw [← calls_statementTurn] at hturns
    show ∃ s, Turns none ((statementTurn steps stmt >>= fun ended => match ended with
      | some ended => pure ended
      | none => runProgram steps rest) m).calls s
    obtain ⟨turn, hturn⟩ | hended := (statementTurn steps stmt m).outcome.done_or_ended
    · rw [bind_done hturn, Visit.calls_behind]
      cases turn with
      | some ended => exact ⟨s, hturns.append rfl⟩
      | none =>
        obtain ⟨hending, hmachine⟩ := statementTurn_goesOn hturn
        cases hdone hending
        rw [hmachine]
        obtain ⟨s', hturns'⟩ := ih htask hafter
        exact ⟨s', hturns.append hturns'⟩
    · obtain ⟨outcome, hbind, -⟩ := bind_ended hended
      rw [hbind]
      exact ⟨s, hturns⟩

theorem accounts_statementTurn (steps : Nat) (stmt : Stmt) : Obeys Accounts (statementTurn steps stmt) := by
  intro m
  have h := (law_accounts.obeyed steps).runTopLevel stmt m
  unfold statementTurn
  generalize runTopLevel steps stmt m = v at h ⊢
  rcases v with ⟨u | e | - | -, m', t⟩
  · exact h
  · have hcancelled : Accounts m (.failed e) (t ++ [⟨.step, m'.cancelTasks⟩]) m'.cancelTasks :=
      law_accounts.follow h (accounts_of_prints (callsOf_silent rfl) (.of_eq rfl))
    cases e <;> first | exact h | exact hcancelled
  · exact h
  · exact h

theorem accounts_runProgram (steps : Nat) (program : List Stmt) : Obeys Accounts (runProgram steps program) := by
  induction program with
  | nil => exact law_accounts.body.runTimers (fun steps => (law_accounts.obeyed steps).runDue) steps
  | cons stmt rest ih =>
    refine law_accounts.body.bind (accounts_statementTurn steps stmt) fun turn => ?_
    cases turn with
    | some ended => exact law_accounts.body.pure _
    | none => exact ih

end Watched

/-- **Each answer has one prompt.**  Run a program on a console that writes prompts before
it waits.  The record is that of the run, and the prompts on the console are those that
the calls for a line have written.  From the last answer up to any call, and with it,
exactly one prompt is written, however often the wait has run out of time:
* it is the call's own, if the program makes the call or no other one is suspended;
* if a task makes the call while the program waits, it is the program's prompt.  The
  task's own is not written, and the task is answered all the same. -/
theorem one_prompt_for_each_answer (steps : Nat) (program : List Stmt) {m : Machine}
    (hstyle : m.console.style = .beforeWait) (hwaiting : m.console.waiting = false) (hmain : m.inTask = false) :
    let v := Watched.runProgram steps program m
    (Watched.runProgram steps program).plain = Action.runProgram steps program ∧
    v.machine.console.prompts = m.console.prompts ++ v.calls.flatMap Call.shown ∧
    ∀ front call back, v.calls = front ++ call :: back →
      (call.byTask = false ∨ unanswered front = [] → promptsFor front call = [call.prompt]) ∧
      (call.byTask = true → unanswered front ≠ [] →
        call.answer ≠ .timedOut ∧ ∃ p, promptsFor front call = [p] ∧
          ∀ other ∈ unanswered front, other.byTask = false ∧ other.prompt = p) := by
  refine ⟨Watched.plain_runProgram steps program, (Watched.accounts_runProgram steps program m hstyle).2, ?_⟩
  obtain ⟨s, hturns⟩ := Watched.turns_runProgram steps program hmain ⟨hstyle, hwaiting⟩
  intro front call back hcalls
  rw [hcalls] at hturns
  exact hturns.shown_unanswered

/-! ### A task that asks while the program waits -/

/-- Asks for a line and keeps it. -/
def asking (prompt name : String) : Stmt := .input (.literal (.text prompt)) ⟨name, false⟩

/-- A machine with two lines to come, and a task that is due before the first one. -/
def hurried (action : Stmt) : Machine where
  console := { style := .beforeWait, arrivals := [.line "one" 5, .line "two" 9] }
  scheduler := { tasks := [⟨1, action, .once 3, 3, some 1⟩], nextId := 2 }

/-- The program waits, the task asks in between, and the program asks again. -/
def interrupted : Visit RunEnd := Watched.runProgram 20 [asking "main?" "x"] (hurried (asking "task?" "y"))

theorem interrupted_calls : ∃ first second third, interrupted.calls = [first, second, third] ∧
    (first.prompt, first.byTask, first.answer) = ("main?", false, .timedOut) ∧
    (second.prompt, second.byTask, second.answer) = ("task?", true, .line "one") ∧
    (third.prompt, third.byTask, third.answer) = ("main?", false, .line "two") := by
  have hcalls : interrupted.calls.map (fun call => (call.prompt, call.byTask, call.answer))
      = [("main?", false, .timedOut), ("task?", true, .line "one"), ("main?", false, .line "two")] := by
    decide +kernel
  obtain ⟨first, rest, hfirst, h₁, hcalls⟩ := List.map_eq_cons_iff.mp hcalls
  obtain ⟨second, rest, rfl, h₂, hcalls⟩ := List.map_eq_cons_iff.mp hcalls
  obtain ⟨third, rest, rfl, h₃, hcalls⟩ := List.map_eq_cons_iff.mp hcalls
  rw [List.map_eq_nil_iff.mp hcalls] at hfirst
  exact ⟨first, second, third, hfirst, h₁, h₂, h₃⟩

/-- What the program asks anew is answered under its own prompt. -/
theorem interrupted_asks_again :
    ∃ front call, interrupted.calls = front ++ [call] ∧ call.answer = .line "two" ∧
      promptsFor front call = ["main?"] := by
  obtain ⟨first, second, third, hcalls, -, -, h₃⟩ := interrupted_calls
  obtain ⟨hprompt, hmain, hanswer⟩ : third.prompt = "main?" ∧ third.byTask = false ∧ third.answer = .line "two" := by
    simpa using h₃
  have hrecord := one_prompt_for_each_answer 20 [asking "main?" "x"] (m := hurried (asking "task?" "y")) rfl rfl rfl
  have hone := (hrecord.2.2 [first, second] third [] hcalls).1 (.inl hmain)
  exact ⟨[first, second], third, hcalls, hanswer, hprompt ▸ hone⟩

/-- The line that the task gets answers a prompt that is never written: it comes in under
that of the program. -/
theorem interrupted_task_unprompted :
    ∃ front call back, interrupted.calls = front ++ call :: back ∧ call.byTask = true ∧ call.prompt = "task?" ∧
      call.answer = .line "one" ∧ interrupted.machine.console.prompts = ["main?", "main?"] := by
  obtain ⟨first, second, third, hcalls, -, h₂, -⟩ := interrupted_calls
  obtain ⟨hprompt, htask, hanswer⟩ : second.prompt = "task?" ∧ second.byTask = true ∧ second.answer = .line "one" := by
    simpa using h₂
  exact ⟨[first], second, [third], hcalls, htask, hprompt, hanswer, by decide +kernel⟩

end SealedScript
