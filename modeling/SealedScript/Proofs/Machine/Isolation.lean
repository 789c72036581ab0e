/-
SealedScript/Proofs/Machine/Isolation.lean

Tasks know nothing of the calls they interrupt.  The scopes of the active calls
are set aside before the first body begins, every body begins and ends with the
global scope alone, and what was set aside is put back afterwards.  So nothing
that a body does depends on those scopes, and nothing that it does changes them.

Main result: `tasks_isolated_from_calls`, on two runs that differ in the
interrupted calls only.
-/
import SealedScript.Proofs.Machine.Firing

namespace SealedScript

namespace Machine

/-- The machine without its active calls. -/
def withoutCalls (m : Machine) : Machine := { m with locals := .empty }

theorem frames_of_depth_eq_zero {m : Machine} (h : m.depth = 0) : m.frames = [m.globals] := by
  have hscopes : m.locals.scopes = [] := List.length_eq_zero_iff.mp (m.locals.depth_eq.symm.trans h)
  rw [frames, hscopes, List.nil_append]

end Machine

/-! ### Bodies begin and end in the global scope -/

theorem depth_runTopLevel (steps : Nat) (stmt : Stmt) {m : Machine} (h : m.depth = 0) :
    (Action.runTopLevel steps stmt m).2.depth = 0 := by
  have hbalanced := law_balanced.operation steps (.topLevel stmt) m (by rw [h]; exact Nat.zero_le _)
  rw [Operation.watch_machine] at hbalanced
  exact hbalanced.1.1.trans h

/-- No call is active when a task of a batch is fired, or when the batch is over. -/
theorem Batch.depth_eq_zero {tasks : List Task} {m m' : Machine} {firings : List Firing}
    {outcome : Outcome (Option Nat)} (h : Batch tasks m firings outcome m') (hm : m.depth = 0) :
    (∀ f ∈ firings, f.machine.depth = 0) ∧ m'.depth = 0 := by
  have hbody {steps : Nat} {stmt : Stmt} {o : Outcome Unit} {m m₁ : Machine}
      (hrun : Action.runTopLevel steps stmt m = (o, m₁)) (hm : m.depth = 0) : m₁.depth = 0 := by
    have hdepth := depth_runTopLevel steps stmt hm
    rwa [hrun] at hdepth
  induction h with
  | finished | cutOff => exact ⟨fun _ hf => absurd hf List.not_mem_nil, hm⟩
  | brokenOff hrun | overflowed hrun | outOfReach hrun | halted hrun =>
    have hend := hbody hrun hm
    exact ⟨List.forall_mem_singleton.mpr hm, hend⟩
  | dropped hrun _ ih | armedAgain hrun _ _ _ ih | ended hrun _ _ _ ih =>
    have hnext := hbody hrun hm
    obtain ⟨hfirings, hend⟩ := ih hnext
    exact ⟨List.forall_mem_cons.mpr ⟨hm, hfirings⟩, hend⟩

/-- A record without gaps ends with the machine that is left behind. -/
theorem Path.getLast?_machine {t : List Moment} {m m' : Machine} {k : Moment} (h : Path m t m')
    (hk : t.getLast? = some k) : k.machine = m' := by
  induction t generalizing m with
  | nil => cases hk
  | cons first rest ih =>
    cases rest with
    | nil =>
      cases hk
      exact h.2.symm
    | cons second rest =>
      rw [List.getLast?_cons_cons] at hk
      exact ih h.2 hk

/-! ### Two runs -/

/-- The record of the due tasks up to the point where the calls are put back. -/
theorem Watched.dropLast_moments_runDue (steps moment : Nat) (m : Machine) :
    (runDue (steps + 1) moment m).moments.dropLast
      = ⟨.parked, m.park (m.scheduler.takeReady moment).2⟩ ::
          (fire steps (m.scheduler.takeReady moment).1 (m.park (m.scheduler.takeReady moment).2)).moments := by
  simp only [runDue, apart]
  exact List.dropLast_concat

/-- **Tasks are isolated from the calls they interrupt.**  Whatever calls are
active, whatever is armed and whenever the due tasks are served: that ends as it
does without any of the calls, with the same console, global scope, lists,
functions, clock and timers, and the calls are there afterwards as they were, each
with its variables.  In between the two runs pass through the same moments; the
global scope stands alone whenever a task is fired, and also when the calls are
about to be put back. -/
theorem tasks_isolated_from_calls (steps moment : Nat) (m : Machine) :
    let run := Action.runDue steps moment m
    let alone := Action.runDue steps moment m.withoutCalls
    let record := (Watched.runDue steps moment m).moments
    run.1 = alone.1 ∧ run.2.withoutCalls = alone.2 ∧ run.2.locals = m.locals ∧
    record.dropLast = (Watched.runDue steps moment m.withoutCalls).moments.dropLast ∧
    (∀ k ∈ record, k.event.task?.isSome = true → k.machine.frames = [k.machine.globals]) ∧
    ∀ k, record.dropLast.getLast? = some k → k.machine.frames = [k.machine.globals] := by
  intro run alone record
  have hrun : run = Watched.plain (Watched.runDue steps moment) m := by
    rw [(Watched.agreement steps).runDue]
  have halone : alone = Watched.plain (Watched.runDue steps moment) m.withoutCalls := by
    rw [(Watched.agreement steps).runDue]
  rw [hrun, halone]
  cases steps with
  | zero => exact ⟨rfl, rfl, rfl, rfl, fun k hk => absurd hk List.not_mem_nil, fun k hk => nomatch hk⟩
  | succ steps =>
    -- both runs park the same machine, and a run knows nothing but the machine it begins with
    refine ⟨rfl, rfl, rfl, ?_, fun k hk hfires => ?_, fun k hk => ?_⟩
    · rw [Watched.dropLast_moments_runDue, Watched.dropLast_moments_runDue]
      rfl
    · obtain ⟨m', hbatch, -⟩ := batch_runDue steps moment m
      obtain ⟨task, htask⟩ := Option.isSome_iff_exists.mp hfires
      have hfiring : (⟨task, k.machine⟩ : Firing) ∈ (Watched.runDue (steps + 1) moment m).firings := by
        refine List.mem_filterMap.mpr ⟨k, hk, ?_⟩
        rw [Moment.firing?, htask, Option.map_some]
      exact Machine.frames_of_depth_eq_zero ((hbatch.depth_eq_zero rfl).1 _ hfiring)
    · have hbatch := batch_fire steps (m.scheduler.takeReady moment).1
        (m := m.park (m.scheduler.takeReady moment).2) rfl
      have hpath : Path m (_ :: _) _ :=
        ⟨.parked (m.scheduler.takeReady moment).2,
          (law_path.obeyed steps).fire (m.scheduler.takeReady moment).1 _⟩
      rw [Watched.dropLast_moments_runDue] at hk
      rw [hpath.getLast?_machine hk]
      exact Machine.frames_of_depth_eq_zero (hbatch.depth_eq_zero rfl).2

end SealedScript
