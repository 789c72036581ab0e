/-
SealedScript/Proofs/Machine/Balance.lean

Calls come to an end in the reverse order of their beginning, and never more of
them are active at once than the machine allows.  Single steps leave the active
calls alone; a call adds one if there is room, and takes it away however its
body ends; tasks begin with none and give back the calls they interrupted.

Main result: `frames_balanced_and_bounded`, for everything that a host can have
the machine do.
-/
import SealedScript.Proofs.Machine.Operations
import SealedScript.Proofs.Machine.Scopes

namespace SealedScript

namespace Machine

/-- The machine has the same number of calls, the same limit for them, and is in a
task iff the other one is. -/
def SameCalls (m m' : Machine) : Prop :=
  m'.depth = m.depth ∧ m'.maxDepth = m.maxDepth ∧ m'.inTask = m.inTask

theorem SameCalls.refl (m : Machine) : m.SameCalls m := ⟨rfl, rfl, rfl⟩

theorem SameCalls.trans {m m' m'' : Machine} (h : m.SameCalls m') (h' : m'.SameCalls m'') :
    m.SameCalls m'' :=
  ⟨h'.1.trans h.1, h'.2.1.trans h.2.1, h'.2.2.trans h.2.2⟩

theorem Alike.sameCalls {m m' : Machine} (h : m.Alike m') : m.SameCalls m' := by
  rw [h]
  exact ⟨rfl, rfl, rfl⟩

/-- What has the calls of a machine within a call has its calls after the call. -/
theorem SameCalls.leave {m m' : Machine} {scope : Scope} (h : (m.enter scope).SameCalls m') : m.SameCalls m'.leave := by
  obtain ⟨hdepth, hmax, htask⟩ := h
  refine ⟨?_, hmax, htask⟩
  show m'.depth - 1 = m.depth
  rw [hdepth]
  exact Nat.add_sub_cancel m.depth 1

theorem sameCalls_write (m : Machine) (name : String) (v : Variable) : m.SameCalls (m.write name v) := by
  refine ⟨m.depth_write name v, ?_, ?_⟩
  · rw [m.write_eq]
  · rw [m.write_eq]

end Machine

theorem SingleStep.sameCalls {event : Event} {m m' : Machine} {ending : Ending}
    (h : SingleStep event m ending m') : m.SameCalls m' := by
  cases h with
  | quiet halike _ => exact halike.sameCalls
  | storedPlain name value => exact m.sameCalls_write name _
  | storedSealed name _ => exact m.sameCalls_write name _
  | _ => exact ⟨rfl, rfl, rfl⟩

/-- A run from a machine with no more calls than allowed ends with the same calls,
and there are never more than allowed in between. -/
def Balanced (m : Machine) (_ending : Ending) (t : List Moment) (m' : Machine) : Prop :=
  m.depth ≤ m.maxDepth → m.SameCalls m' ∧ ∀ k ∈ t, k.machine.depth ≤ m.maxDepth

theorem balanced_step {event : Event} {m m' : Machine} {ending : Ending}
    (h : SingleStep event m ending m') : Balanced m ending [⟨event, m'⟩] m' := by
  intro hroom
  refine ⟨h.sameCalls, fun k hk => ?_⟩
  rw [List.mem_singleton.mp hk]
  exact h.sameCalls.1 ▸ hroom

theorem balanced_follow {m m' m'' : Machine} {ending ending' : Ending} {t t' : List Moment}
    (h : Balanced m ending t m') (h' : Balanced m' ending' t' m'') :
    Balanced m ending' (t ++ t') m'' := by
  intro hroom
  obtain ⟨hsame, hbound⟩ := h hroom
  have hroom' : m'.depth ≤ m'.maxDepth := by rw [hsame.1, hsame.2.1]; exact hroom
  obtain ⟨hsame', hbound'⟩ := h' hroom'
  refine ⟨hsame.trans hsame', fun k hk => ?_⟩
  rcases List.mem_append.mp hk with hk | hk
  · exact hbound k hk
  · exact hsame.2.1 ▸ hbound' k hk

/-- The body of a call has one call more, and the call takes it away again. -/
theorem balanced_call {m m' : Machine} {scope : Scope} {ending : Ending} {t : List Moment} {f : FunctionDef}
    (hlimit : m.depth < m.maxDepth) (h : Balanced (m.enter scope) ending t m') :
    Balanced m ending (⟨.entered f, m.enter scope⟩ :: t ++ [⟨.left, m'.leave⟩]) m'.leave := by
  intro hroom
  obtain ⟨hsame, hbound⟩ := h hlimit
  refine ⟨hsame.leave, fun k hk => ?_⟩
  simp only [List.cons_append, List.mem_cons, List.mem_append, List.not_mem_nil, or_false] at hk
  rcases hk with rfl | hk | rfl
  · exact hlimit
  · exact hbound k hk
  · exact hsame.leave.1 ▸ hroom

/-- Tasks begin without calls, and afterwards those are back that were there. -/
theorem balanced_apart {m m' : Machine} {scheduler : Scheduler} {ending : Ending} {t : List Moment}
    (h : Balanced (m.park scheduler) ending t m') :
    Balanced m ending (⟨.parked, m.park scheduler⟩ :: t ++ [⟨.resumed, m'.resume m⟩]) (m'.resume m) := by
  intro hroom
  obtain ⟨⟨_, hmax, _⟩, hbound⟩ := h (Nat.zero_le _)
  refine ⟨⟨rfl, hmax, rfl⟩, fun k hk => ?_⟩
  simp only [List.cons_append, List.mem_cons, List.mem_append, List.not_mem_nil, or_false] at hk
  rcases hk with rfl | hk | rfl
  · exact Nat.zero_le _
  · exact hbound k hk
  · exact hroom

theorem law_balanced : Law Balanced where
  still _ _ := ⟨.refl _, fun _ hk => absurd hk List.not_mem_nil⟩
  step h _ := balanced_step h
  follow := balanced_follow
  call := balanced_call
  apart := balanced_apart
  caught {m e t m' i} h := by
    -- the report of a failure is a step that leaves the calls alone
    have hreport : Balanced m' .done [⟨.step, m'.notice (.taskFailed i e)⟩] (m'.notice (.taskFailed i e)) :=
      fun hroom => ⟨⟨rfl, rfl, rfl⟩, fun k hk => by rw [List.mem_singleton.mp hk]; exact hroom⟩
    exact balanced_follow h hreport

/-- **Calls are balanced and bounded.**  Whatever a machine is made to do and
however that ends, it then has as many frames as before and is in a task iff it
was before; and at every moment of the record, which has no gaps, it has at least
one frame and not more than the limit for calls allows.  So a source text that is
executed outside all calls ends outside all calls. -/
theorem frames_balanced_and_bounded (steps : Nat) (m : Machine) (h : m.frames.length ≤ m.maxDepth + 1) :
    (∀ {α : Type} (op : Operation α),
      (op.watch steps).plain = op.run steps ∧
      Path m (op.watch steps m).moments (op.run steps m).2 ∧
      (op.run steps m).2.frames.length = m.frames.length ∧
      (op.run steps m).2.inTask = m.inTask ∧
      ∀ k ∈ (op.watch steps m).moments,
        1 ≤ k.machine.frames.length ∧ k.machine.frames.length ≤ m.maxDepth + 1) ∧
    ∀ source, m.depth = 0 → (Action.executeSource steps source m).2.depth = 0 := by
  have hroom : m.depth ≤ m.maxDepth := by
    rw [Machine.length_frames] at h
    omega
  have hbalanced {α : Type} (op : Operation α) := law_balanced.operation steps op m hroom
  constructor
  · intro α op
    obtain ⟨⟨hdepth, _, htask⟩, hbound⟩ := hbalanced op
    have hpath := law_path.operation steps op m
    rw [op.watch_machine] at hdepth htask hpath
    refine ⟨op.plain_watch steps, hpath, ?_, htask, fun k hk => ?_⟩
    · simp only [Machine.length_frames, hdepth]
    · have := hbound k hk
      simp only [Machine.length_frames]
      omega
  · intro source houtside
    unfold Action.executeSource
    split
    · exact houtside
    · rename_i program _
      obtain ⟨⟨hdepth, _, _⟩, _⟩ := hbalanced (.program program)
      rw [Operation.watch_machine, houtside] at hdepth
      exact hdepth

/-- A machine inside one call, which allows one more, and knows a function that
calls itself without end. -/
def Machine.recursing : Machine :=
  { functions := [("f", ⟨"f", [], [.expression (.call "f" [])]⟩)],
    locals := CallStack.empty.push [],
    maxDepth := 2 }

/-- A call that overflows the stack from within leaves the frames as they were. -/
theorem frames_after_overflow :
    Machine.recursing.frames.length ≤ Machine.recursing.maxDepth + 1 ∧
    ((Operation.call "f" []).run 12 Machine.recursing).1 = .failed (.stackOverflow 3 2) ∧
    ((Operation.call "f" []).run 12 Machine.recursing).2.frames.length = Machine.recursing.frames.length :=
  ⟨by decide, rfl,
    ((frames_balanced_and_bounded 12 Machine.recursing (by decide)).1 (.call "f" [])).2.2.1⟩

end SealedScript
