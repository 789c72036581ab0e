/-
SealedScript/Proofs/Machine/Delays.lean

Which delays a repeating timer can be armed with.  A delay is accepted when it is a
positive number of seconds, but what is counted is whole nanoseconds, and what the
clock holds ends 2^63 seconds after the start.  Both ends lie outside what is
checked: a delay of half a nanosecond or less is rounded to no nanosecond at all, so
that the task is due at once and forever, and a deadline behind the end of the clock
brings the run down.

Between these ends every accepted delay is usable: the interval is positive, the
first deadline lies in the future, and each firing moves the next one forward.  Every
other delay, an infinite one among them, is refused.

Main results: `accepted_delays_usable`, `accepted_delays_unusable`.
-/
import Mathlib.Logic.Function.Iterate
import SealedScript.Machine.Evaluate
import SealedScript.Proofs.Number.Quantity

namespace SealedScript

/-! ### Rounding to nanoseconds -/

theorem roundHalfEven_pos_iff {num den : Nat} (hden : 0 < den) : 0 < roundHalfEven num den ↔ den < 2 * num := by
  unfold roundHalfEven
  dsimp only
  by_cases hlt : num < den
  · rw [Nat.div_eq_of_lt hlt, Nat.mod_eq_of_lt hlt]
    split
    · omega
    · split <;> omega
  · -- a whole unit is never rounded away
    have hlow : 0 < num / den := Nat.div_pos (not_lt.1 hlt) hden
    generalize num / den = low at hlow ⊢
    split
    · omega
    · split <;> omega

namespace Delay

/-- The seconds that a value denotes in a unit. -/
def seconds? (time : Value) (unit : String) : Option Float :=
  (scale? unit).bind fun scale => time.float?.map (· * scale)

/-- A delay is rounded to no nanosecond at all iff it is half of one or less. -/
theorem nanoseconds?_pos_iff {seconds : Float} {n : Nat} (h : nanoseconds? seconds = some n) :
    0 < n ↔ 1 / 2 < quantity seconds * second := by
  unfold nanoseconds? at h
  split at h
  · next mantissa exponent hexact =>
    split at h
    · cases h
    rw [quantity, hexact]
    simp only [Binary64.quantity, Bool.false_eq_true, if_false, one_mul]
    cases exponent with
    | ofNat up =>
      -- the quantity is whole, so there is nothing to round
      obtain rfl := Option.some.inj h
      have hwhole : (mantissa : ℚ) * 2 ^ Int.ofNat up * second = (mantissa * Nat.pow 2 up * second : ℕ) := by
        push_cast [Int.ofNat_eq_natCast, zpow_natCast, Nat.pow_eq]
        rfl
      rw [hwhole]
      generalize mantissa * Nat.pow 2 up * second = n
      constructor
      · intro hpos
        have : (1 : ℚ) ≤ n := by exact_mod_cast hpos
        linarith
      · intro hhalf
        by_contra hzero
        obtain rfl : n = 0 := by omega
        norm_num at hhalf
    | negSucc down =>
      obtain rfl := Option.some.inj h
      have hden : 0 < Nat.pow 2 (down + 1) := Nat.pow_pos (by decide)
      have hpow : (0 : ℚ) < 2 ^ (down + 1) := by positivity
      have hquotient : (mantissa : ℚ) * 2 ^ Int.negSucc down * second = mantissa * second / 2 ^ (down + 1) := by
        rw [zpow_negSucc]
        ring
      rw [roundHalfEven_pos_iff hden, hquotient, div_lt_div_iff₀ two_pos hpow, ← Nat.cast_lt (α := ℚ)]
      push_cast [Nat.pow_eq]
      constructor <;> intro hlt <;> linarith
  · cases h

end Delay

/-- An accepted delay is a positive number of seconds, rounded to nanoseconds. -/
theorem Machine.interval_eq_ok_iff {m : Machine} {time : Value} {unit : String} {interval : Nat} :
    m.interval time unit = .ok interval ↔ ∃ seconds, Delay.seconds? time unit = some seconds ∧
      seconds.isFinite = true ∧ 0.0 < seconds ∧ Delay.nanoseconds? seconds = some interval := by
  unfold Machine.interval Delay.seconds?
  rcases hscale : Delay.scale? unit with - | scale
  · simp
  rcases hseconds : time.float?.map (· * scale) with - | seconds
  · simp [hseconds]
  rcases hn : Delay.nanoseconds? seconds with - | n
  · by_cases hpositive : seconds.isFinite = true ∧ 0.0 < seconds <;> simp [hseconds, hn, hpositive]
  · by_cases hpositive : seconds.isFinite = true ∧ 0.0 < seconds
    · simp [hseconds, hn, hpositive]
    · simp only [hseconds, Option.bind_some, Bool.and_eq_true, decide_eq_true_eq, if_neg hpositive]
      simp only [reduceCtorEq, Option.some.injEq, false_iff]
      rintro ⟨_, rfl, hfinite, hpos, -⟩
      exact hpositive ⟨hfinite, hpos⟩

/-! ### Firings -/

namespace Task

theorem trigger_tick (t : Task) : t.tick.2.trigger = t.trigger := by
  unfold tick
  split
  · rfl
  · split
    · rfl
    · split
      · rfl
      · rfl

theorem trigger_iterate_tick (t : Task) (k : Nat) : ((fun t => t.tick.2)^[k] t).trigger = t.trigger := by
  induction k with
  | zero => rfl
  | succ k ih => rw [Function.iterate_succ_apply', trigger_tick, ih]

/-- A firing after which a repeating task goes on moves it forward by its interval. -/
theorem nextRun_tick {t : Task} {interval : Nat} (htrigger : t.trigger = .every interval) (hgoes : t.tick.1 = true) :
    t.tick.2.nextRun = t.nextRun + interval := by
  unfold tick at hgoes ⊢
  rw [htrigger] at hgoes ⊢
  dsimp only at hgoes ⊢
  split
  · rfl
  · next n hn =>
    simp only [hn] at hgoes ⊢
    split
    · next hlast =>
      rw [if_pos hlast] at hgoes
      cases hgoes
    · rfl

end Task

/-! ### Arming -/

/-- Arming with a unit: refused, or carried out as far as the clock reaches. -/
theorem Action.schedule_unit (m : Machine) (time : Value) (unit : String) (times : Option Value) (action : Stmt) :
    (∃ fault, Action.schedule time (some unit) times action m = (.failed (.invalidSchedule fault), m)) ∨
    ∃ runs interval, m.interval time unit = .ok interval ∧
      Action.schedule time (some unit) times action m
        = Action.arm (m.clock + interval) (·.addEvery m.clock action interval runs) m := by
  rcases hruns : m.repeatCount? times with fault | runs
  · exact .inl ⟨fault, by simp only [Action.schedule, hruns]⟩
  · rcases hinterval : m.interval time unit with fault | interval
    · exact .inl ⟨fault, by simp only [Action.schedule, hruns, hinterval]⟩
    · exact .inr ⟨runs, interval, rfl, by simp only [Action.schedule, hruns, hinterval]⟩

/-- **Accepted delays are usable**, if a delay that is positive and finite is longer than half a
nanosecond and the clock can hold the deadline: arming with a unit is refused and changes nothing,
or it adds one task that repeats at a positive interval and is first due after the present moment,
and each firing after which it goes on makes it due later than before. -/
theorem accepted_delays_usable (m : Machine) (time : Value) (unit : String) (times : Option Value) (action : Stmt)
    (hcounted : ∀ seconds, Delay.seconds? time unit = some seconds → seconds.isFinite = true → 0.0 < seconds →
      1 / 2 < quantity seconds * Delay.second)
    (hheld : ∀ seconds n, Delay.seconds? time unit = some seconds → Delay.nanoseconds? seconds = some n →
      m.clock + n < clockHorizon) :
    (∃ fault, Action.schedule time (some unit) times action m = (.failed (.invalidSchedule fault), m)) ∨
    ∃ task interval, Action.schedule time (some unit) times action m = (.done task.id,
        { m with scheduler := { tasks := m.scheduler.tasks ++ [task], nextId := m.scheduler.nextId + 1 } }) ∧
      task.id = m.scheduler.nextId ∧ task.action = action ∧ task.trigger = .every interval ∧ 0 < interval ∧
      m.clock < task.nextRun ∧
      ∀ k, ((fun t : Task => t.tick.2)^[k] task).tick.1 = true →
        ((fun t : Task => t.tick.2)^[k] task).nextRun < ((fun t : Task => t.tick.2)^[k] task).tick.2.nextRun := by
  rcases Action.schedule_unit m time unit times action with hrefused | ⟨runs, interval, hinterval, harm⟩
  · exact .inl hrefused
  · obtain ⟨seconds, hseconds, hfinite, hpositive, hn⟩ := Machine.interval_eq_ok_iff.1 hinterval
    have hpos : 0 < interval := (Delay.nanoseconds?_pos_iff hn).2 (hcounted seconds hseconds hfinite hpositive)
    refine .inr ⟨⟨m.scheduler.nextId, action, .every interval, m.clock + interval, runs⟩, interval, ?_, rfl, rfl, rfl,
      hpos, Nat.lt_add_of_pos_right hpos, fun k hgoes => ?_⟩
    · rw [harm, Action.arm, if_pos (hheld seconds interval hseconds hn)]
      rfl
    · rw [Task.nextRun_tick (Task.trigger_iterate_tick _ k) hgoes]
      exact Nat.lt_add_of_pos_right hpos

/-- A statement that does nothing. -/
def idleAction : Stmt := .expression (.literal (.int 0))

/-- A delay of six tenths of a nanosecond, spelled as a text: it is rounded up to one. -/
theorem accepted_delay_below_nanosecond :
    (∀ seconds, Delay.seconds? (.text " 6e-10") "Seconds" = some seconds → seconds.isFinite = true →
      0.0 < seconds → 1 / 2 < quantity seconds * Delay.second) ∧
    (∀ seconds n, Delay.seconds? (.text " 6e-10") "Seconds" = some seconds → Delay.nanoseconds? seconds = some n →
      ({} : Machine).clock + n < clockHorizon) ∧
    ∃ task interval, Action.schedule (.text " 6e-10") (some "Seconds") (some (.int 3)) idleAction {} =
        (.done task.id, { scheduler := { tasks := [task], nextId := 2 } }) ∧
      task.trigger = .every interval ∧ 0 < interval ∧ 0 < task.nextRun := by
  have hseconds : Delay.seconds? (.text " 6e-10") "Seconds" = some 6e-10 := by decide +kernel
  have hexact : Binary64.ofFloat 6e-10 = .finite false 5802843934150220 (-83) := by decide +kernel
  have hrounded : Delay.nanoseconds? 6e-10 = some 1 := by decide +kernel
  have hcounted : ∀ seconds, Delay.seconds? (.text " 6e-10") "Seconds" = some seconds → seconds.isFinite = true →
      0.0 < seconds → 1 / 2 < quantity seconds * Delay.second := by
    intro seconds h _ _
    obtain rfl := Option.some.inj (hseconds.symm.trans h)
    rw [quantity, hexact]
    norm_num [Binary64.quantity, Delay.second]
  have hheld : ∀ seconds n, Delay.seconds? (.text " 6e-10") "Seconds" = some seconds →
      Delay.nanoseconds? seconds = some n → ({} : Machine).clock + n < clockHorizon := by
    intro seconds n h hn
    obtain rfl := Option.some.inj (hseconds.symm.trans h)
    obtain rfl := Option.some.inj (hrounded.symm.trans hn)
    decide
  have hruns : ({} : Machine).repeatCount? (some (.int 3)) = .ok (some 3) := rfl
  have haccepted : ({} : Machine).interval (.text " 6e-10") "Seconds" = .ok 1 :=
    Machine.interval_eq_ok_iff.2 ⟨6e-10, hseconds, by decide +kernel, by decide +kernel, hrounded⟩
  refine ⟨hcounted, hheld, ?_⟩
  rcases accepted_delays_usable {} (.text " 6e-10") "Seconds" (some (.int 3)) idleAction hcounted hheld with
    ⟨fault, hrefused⟩ | ⟨task, interval, harmed, -, -, htrigger, hpos, hlater, -⟩
  · simp only [Action.schedule, hruns, haccepted] at hrefused
    cases hrefused
  · exact ⟨task, interval, harmed, htrigger, hpos, hlater⟩

/-- Delays that are accepted and cannot be used: a tenth of a nanosecond leaves a task that is
due at once and stays so after every firing, and the deadline of 2^63 seconds is one that the
clock cannot hold. -/
theorem accepted_delays_unusable :
    (∃ task, Action.schedule (.float 1e-10) (some "seconds") none idleAction {} =
        (.done 1, { scheduler := { tasks := [task], nextId := 2 } }) ∧
      task.trigger = .every 0 ∧ task.nextRun = ({} : Machine).clock ∧
      task.tick.1 = true ∧ task.tick.2.nextRun = task.nextRun) ∧
    Action.schedule (.int Int64.maxValue) (some "seconds") none idleAction {} = (.clockOverflow, {}) := by
  have hshort : ({} : Machine).interval (.float 1e-10) "seconds" = .ok 0 :=
    Machine.interval_eq_ok_iff.2 ⟨1e-10, by decide +kernel, by decide +kernel, by decide +kernel, by decide +kernel⟩
  have hlong : ({} : Machine).interval (.int Int64.maxValue) "seconds" = .ok (int64Bound * Delay.second) :=
    Machine.interval_eq_ok_iff.2 ⟨9223372036854775807, by decide +kernel, by decide +kernel, by decide +kernel,
      by decide +kernel⟩
  refine ⟨⟨⟨1, idleAction, .every 0, 0, none⟩, ?_, rfl, rfl, rfl, rfl⟩, ?_⟩
  · simp only [Action.schedule, Machine.repeatCount?, hshort]
    rfl
  · simp only [Action.schedule, Machine.repeatCount?, hlong]
    rfl

end SealedScript
