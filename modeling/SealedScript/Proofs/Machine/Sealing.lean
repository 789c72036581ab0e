/-
SealedScript/Proofs/Machine/Sealing.lean

The mark of an encrypted variable and its value go together.  Whatever is done
with a machine that has the standard cipher, and however it ends, each variable
that is marked as encrypted holds the ciphertext of some value; so whenever one
is read, the cipher opens it.

The invariant needs no care for the heap: a text is its own text, so what was
encrypted once is at every later time the text of a value.

Main result: `encrypted_variables_hold_ciphertexts`.
-/
import SealedScript.Proofs.Cipher.RoundTrip
import SealedScript.Proofs.Machine.Operations
import SealedScript.Proofs.Machine.Scopes

namespace SealedScript

/-! ### The invariant -/

/-- Every variable that is marked as encrypted holds the ciphertext of a value. -/
def Machine.Sealed (m : Machine) : Prop :=
  m.Everywhere fun v => v.encrypted = true →
    ∃ value ciphertext, m.cipher.encrypt (m.heap.text value) = .ok ciphertext ∧
      v.value = .text ciphertext

/-- The same for one variable and the standard cipher, without a heap. -/
def Variable.IsSealed (key iv : Block) (v : Variable) : Prop :=
  v.encrypted = true → ∃ plain, v.value = .text (Cipher.sealText key iv plain)

/-- A machine with the standard cipher whose encrypted variables hold ciphertexts. -/
structure Machine.Guarded (key iv : Block) (m : Machine) : Prop where
  cipher : m.cipher = .standard key iv
  holds : m.Everywhere (Variable.IsSealed key iv)

theorem Machine.sealed_iff {key iv : Block} {m : Machine} (h : m.cipher = .standard key iv) :
    m.Sealed ↔ m.Everywhere (Variable.IsSealed key iv) := by
  have hvariable (v : Variable) : (v.encrypted = true →
      ∃ value ciphertext, m.cipher.encrypt (m.heap.text value) = .ok ciphertext ∧
        v.value = .text ciphertext) ↔ v.IsSealed key iv := by
    rw [h]
    constructor
    · intro hsealed hmark
      obtain ⟨value, ciphertext, hencrypt, hvalue⟩ := hsealed hmark
      cases hencrypt
      exact ⟨m.heap.text value, hvalue⟩
    · intro hsealed hmark
      obtain ⟨plain, hvalue⟩ := hsealed hmark
      exact ⟨.text plain, _, rfl, hvalue⟩
  simp only [Sealed, hvariable]

theorem Machine.Guarded.sealed {key iv : Block} {m : Machine} (h : m.Guarded key iv) : m.Sealed :=
  (Machine.sealed_iff h.cipher).mpr h.holds

theorem Variable.isSealed_plain (key iv : Block) (value : Value) :
    Variable.IsSealed key iv ⟨value, false⟩ := by
  intro hmark
  cases hmark

theorem Variable.isSealed_ciphertext (key iv : Block) (plain : String) :
    Variable.IsSealed key iv ⟨.text (Cipher.sealText key iv plain), true⟩ :=
  fun _ => ⟨plain, rfl⟩

/-- Whether a notice tells that the cipher refused during a task. -/
def Notice.isCipher : Notice → Bool
  | .strayReturn => false
  | .taskFailed _ e => e.isCipher

/-- The second machine has reported no refusal of the cipher that the first one had
not. -/
def Machine.NoNewRefusal (m m' : Machine) : Prop :=
  ∀ n ∈ m'.notices, n ∈ m.notices ∨ n.isCipher = false

theorem Machine.NoNewRefusal.refl (m : Machine) : m.NoNewRefusal m := fun _ hn => .inl hn

theorem Machine.NoNewRefusal.trans {m m' m'' : Machine} (h : m.NoNewRefusal m') (h' : m'.NoNewRefusal m'') :
    m.NoNewRefusal m'' := by
  intro n hn
  rcases h' n hn with hn | hn
  · exact h n hn
  · exact .inr hn

theorem Machine.NoNewRefusal.notice (m : Machine) {n : Notice} (h : n.isCipher = false) :
    m.NoNewRefusal (m.notice n) := by
  intro n' hn'
  rcases Array.mem_push.mp hn' with hn' | rfl
  · exact .inl hn'
  · exact .inr h

/-! ### Steps and runs -/

/-- A run from a guarded machine leaves a guarded one, and the cipher does not
refuse: neither does the run end with that error, nor does a task in it. -/
def Guards (key iv : Block) (m : Machine) (ending : Ending) (_moments : List Moment) (m' : Machine) : Prop :=
  m.Guarded key iv → m'.Guarded key iv ∧ ending.isCipher = false ∧ m.NoNewRefusal m'

section

variable {key iv : Block} {m m' : Machine}

theorem Machine.Guarded.alike (h : m.Guarded key iv) (halike : m.Alike m') :
    m'.Guarded key iv ∧ m.NoNewRefusal m' := by
  rw [halike]
  exact ⟨⟨h.cipher, h.holds⟩, .refl m⟩

theorem Machine.Guarded.write (h : m.Guarded key iv) (name : String) {v : Variable}
    (hv : v.IsSealed key iv) : (m.write name v).Guarded key iv ∧ m.NoNewRefusal (m.write name v) := by
  have hholds := h.holds.write name hv
  have hcipher : (m.write name v).cipher = m.cipher := by rw [m.write_eq]
  have hnotices : (m.write name v).notices = m.notices := by rw [m.write_eq]
  refine ⟨⟨hcipher.trans h.cipher, hholds⟩, fun n hn => .inl ?_⟩
  rwa [hnotices] at hn

theorem guards_step {event : Event} {ending : Ending} (h : SingleStep event m ending m') :
    Guards key iv m ending [⟨event, m'⟩] m' := by
  intro hguarded
  cases h with
  | quiet halike hending =>
    obtain ⟨hafter, hnotices⟩ := hguarded.alike halike
    exact ⟨hafter, hending, hnotices⟩
  | undecryptable hfind hmark hdecrypt =>
    -- cannot happen: what is marked holds a ciphertext, and those are opened
    exfalso
    obtain ⟨plain, hvalue⟩ := hguarded.holds.find? hfind hmark
    rw [hguarded.cipher, hvalue] at hdecrypt
    have hopened : (Cipher.standard key iv).decrypt (m.heap.text (.text (Cipher.sealText key iv plain)))
        = .ok plain := Cipher.openText_sealText key iv plain
    rw [hopened] at hdecrypt
    cases hdecrypt
  | storedPlain name value =>
    obtain ⟨hafter, hnotices⟩ := hguarded.write name (Variable.isSealed_plain key iv value)
    exact ⟨hafter, rfl, hnotices⟩
  | storedSealed name hencrypt =>
    rw [hguarded.cipher] at hencrypt
    cases hencrypt
    obtain ⟨hafter, hnotices⟩ := hguarded.write name (Variable.isSealed_ciphertext key iv _)
    exact ⟨hafter, rfl, hnotices⟩
  | unencryptable hencrypt =>
    -- cannot happen either: the standard cipher encrypts every text
    rw [hguarded.cipher] at hencrypt
    cases hencrypt
  | bound heap name object =>
    have hholds := hguarded.holds.writeGlobal name (Variable.isSealed_plain key iv object)
    exact ⟨⟨hguarded.cipher, hholds⟩, rfl, .refl m⟩
  | strayReturn => exact ⟨⟨hguarded.cipher, hguarded.holds⟩, rfl, .notice m rfl⟩
  | _ => exact ⟨⟨hguarded.cipher, hguarded.holds⟩, rfl, .refl m⟩

/-- What guarded machines keep, run after run. -/
theorem law_guards (key iv : Block) : Law (Guards key iv) where
  still hending hguarded := ⟨hguarded, hending, .refl _⟩
  step h _ := guards_step h
  follow h h' hguarded := by
    obtain ⟨hmiddle, _, hnotices⟩ := h hguarded
    obtain ⟨hafter, hending, hnotices'⟩ := h' hmiddle
    exact ⟨hafter, hending, hnotices.trans hnotices'⟩
  call _ h hguarded := by
    have hscope := Scope.All.callScope (Variable.isSealed_plain key iv)
    obtain ⟨hafter, hending, hnotices⟩ := h ⟨hguarded.cipher, hguarded.holds.enter (hscope _ _)⟩
    exact ⟨⟨hafter.cipher, hafter.holds.leave⟩, hending, hnotices⟩
  apart h hguarded := by
    -- the global variables are those after the tasks, the others are put back
    obtain ⟨hafter, hending, hnotices⟩ := h ⟨hguarded.cipher, hguarded.holds.park _⟩
    exact ⟨⟨hafter.cipher, hguarded.holds.resume hafter.holds⟩, hending, hnotices⟩
  caught h hguarded := by
    -- what is reported is the error of the task, and that is none of the cipher
    obtain ⟨hafter, herror, hnotices⟩ := h hguarded
    exact ⟨⟨hafter.cipher, hafter.holds⟩, rfl, hnotices.trans (.notice _ herror)⟩

end

namespace Action

variable {α β : Type} {key iv : Block}

/-- An action that keeps guarded machines so, and in which the cipher does not
refuse. -/
def Safe (key iv : Block) (x : Action α) : Prop :=
  ∀ m, m.Guarded key iv →
    (x m).2.Guarded key iv ∧ (x m).1.ending.isCipher = false ∧ m.NoNewRefusal (x m).2

theorem safe_operation (op : Operation α) (steps : Nat) : Safe key iv (op.run steps) :=
  (law_guards key iv).run_operation steps op

theorem safe_bind {x : Action α} {f : α → Action β} (hx : Safe key iv x) (hf : ∀ a, Safe key iv (f a)) :
    Safe key iv (x >>= f) := by
  intro m hguarded
  obtain ⟨hmiddle, hending, hnotices⟩ := hx m hguarded
  show (Action.bind x f m).2.Guarded key iv ∧ (Action.bind x f m).1.ending.isCipher = false ∧
    m.NoNewRefusal (Action.bind x f m).2
  unfold Action.bind
  rcases hxm : x m with ⟨outcome, m'⟩
  rw [hxm] at hmiddle hending hnotices
  cases outcome with
  | done a =>
    obtain ⟨hafter, hending', hnotices'⟩ := hf a m' hmiddle
    exact ⟨hafter, hending', hnotices.trans hnotices'⟩
  | failed e => exact ⟨hmiddle, hending, hnotices⟩
  | clockOverflow => exact ⟨hmiddle, rfl, hnotices⟩
  | unfinished => exact ⟨hmiddle, rfl, hnotices⟩

theorem safe_quiet {x : Action α} (h : Quiet x) : Safe key iv x := by
  intro m hguarded
  obtain ⟨hafter, hnotices⟩ := hguarded.alike (h m).1
  exact ⟨hafter, Ending.isCipher_of_isOrdinary (h m).2.1, hnotices⟩

/-! ### Whole runs -/

theorem safe_statementTurn (steps : Nat) (stmt : Stmt) : Safe key iv (statementTurn steps stmt) := by
  intro m hguarded
  obtain ⟨hafter, hending, hnotices⟩ := safe_operation (.topLevel stmt) steps m hguarded
  simp only [Operation.run] at hafter hending hnotices
  unfold statementTurn
  split <;> rename_i hrun <;> rw [hrun] at hafter hending hnotices
  · exact ⟨hafter, rfl, hnotices⟩
  · exact ⟨hafter, rfl, hnotices⟩
  · exact ⟨⟨hafter.cipher, hafter.holds⟩, hending, hnotices⟩
  · exact ⟨hafter, rfl, hnotices⟩
  · exact ⟨hafter, rfl, hnotices⟩

theorem safe_timerTurn (steps : Nat) : Safe key iv (timerTurn steps) := by
  refine safe_bind (safe_quiet (quiet_reads _)) fun wakeup => ?_
  cases wakeup with
  | none => exact safe_quiet (quiet_pure _)
  | some moment =>
    refine safe_bind (safe_quiet (quiet_sleepUntil moment)) fun _ => ?_
    refine safe_bind (safe_quiet (quiet_reads _)) fun now => ?_
    refine safe_bind (safe_operation (.dueTasks now) steps) fun ended => ?_
    cases ended with
    | none => exact safe_quiet (quiet_pure _)
    | some _ => exact safe_quiet (quiet_pure _)

theorem safe_runTimers (steps : Nat) : Safe key iv (runTimers steps) := by
  induction steps with
  | zero => exact fun m hguarded => ⟨hguarded, rfl, .refl m⟩
  | succ steps ih =>
    refine safe_bind (safe_timerTurn steps) fun ended => ?_
    cases ended with
    | none => exact ih
    | some _ => exact safe_quiet (quiet_pure _)

theorem safe_runProgram (steps : Nat) (program : List Stmt) : Safe key iv (runProgram steps program) := by
  induction program with
  | nil => exact safe_runTimers steps
  | cons stmt rest ih =>
    refine safe_bind (safe_statementTurn steps stmt) fun ended => ?_
    cases ended with
    | none => exact ih
    | some _ => exact safe_quiet (quiet_pure _)

end Action

theorem Machine.Guarded.reaches {key iv : Block} {m m' : Machine} (h : m.Guarded key iv)
    (hreaches : m.Reaches m') : m'.Guarded key iv ∧ m.NoNewRefusal m' := by
  induction hreaches with
  | here => exact ⟨h, .refl m⟩
  | next op steps _ ih =>
    obtain ⟨hguarded, hnotices⟩ := ih
    obtain ⟨hafter, _, hnotices'⟩ := Action.safe_operation op steps _ hguarded
    exact ⟨hafter, hnotices.trans hnotices'⟩

/-! ### The invariant at work -/

/-- The cipher has not refused: neither is that how it ended, nor has a task been
dropped for it. -/
def NeverRefused {α : Type} (result : Outcome α × Machine) : Prop :=
  result.1.ending.isCipher = false ∧ ∀ n ∈ result.2.notices, n.isCipher = false

/-- A machine that has done nothing yet. -/
def Machine.fresh (s : Settings) (console : Console) (libraries : Registry) (wallOrigin : Int)
    (drift : Nat) : Machine :=
  { Machine.ofSettings s with
    console := console, libraries := libraries, wallOrigin := wallOrigin, drift := drift }

theorem Machine.fresh_guarded (s : Settings) (console : Console) (libraries : Registry) (wallOrigin : Int)
    (drift : Nat) : (Machine.fresh s console libraries wallOrigin drift).Guarded s.cipherKey s.cipherIV := by
  refine ⟨rfl, Machine.everywhere_iff.mpr ⟨?_, ?_⟩⟩
  · intro scope hscope
    exact absurd hscope List.not_mem_nil
  · intro entry hentry
    exact absurd hentry List.not_mem_nil

theorem Action.Safe.neverRefused {α : Type} {key iv : Block} {x : Action α} (h : Safe key iv x)
    {m m' : Machine} (hguarded : m.Guarded key iv) (hsilent : m.notices = #[]) (hreaches : m.Reaches m') :
    NeverRefused (x m') := by
  obtain ⟨hguarded', hnotices⟩ := hguarded.reaches hreaches
  obtain ⟨_, hending, hnotices'⟩ := h m' hguarded'
  refine ⟨hending, fun n hn => ?_⟩
  rcases hnotices.trans hnotices' n hn with hold | hn
  · rw [hsilent] at hold
    exact absurd hold (Array.not_mem_empty n)
  · exact hn

/-- **Encrypted variables hold ciphertexts, always.**  If in a machine with the
standard cipher all variables that are marked as encrypted do, then they do after
every sequence of operations, whatever these are and however they end.  So with a
machine that was fresh at first no operation and no run of a program ever meets a
cipher that refuses. -/
theorem encrypted_variables_hold_ciphertexts :
    (∀ (key iv : Block) (m m' : Machine), m.cipher = .standard key iv → m.Sealed → m.Reaches m' →
      m'.cipher = .standard key iv ∧ m'.Sealed) ∧
    ∀ (s : Settings) (console : Console) (libraries : Registry) (wallOrigin : Int) (drift : Nat)
      (m : Machine), (Machine.fresh s console libraries wallOrigin drift).Reaches m →
        (∀ {α : Type} (op : Operation α) (steps : Nat), NeverRefused (op.run steps m)) ∧
        ∀ (program : List Stmt) (steps : Nat), NeverRefused (Action.runProgram steps program m) := by
  constructor
  · intro key iv m m' hcipher hsealed hreaches
    have hguarded : m.Guarded key iv := ⟨hcipher, (Machine.sealed_iff hcipher).mp hsealed⟩
    obtain ⟨hafter, _⟩ := hguarded.reaches hreaches
    exact ⟨hafter.cipher, hafter.sealed⟩
  · intro s console libraries wallOrigin drift m hreaches
    have hfresh := Machine.fresh_guarded s console libraries wallOrigin drift
    constructor
    · intro α op steps
      exact (Action.safe_operation op steps).neverRefused hfresh rfl hreaches
    · intro program steps
      exact (Action.safe_runProgram steps program).neverRefused hfresh rfl hreaches

theorem Machine.withSecret_sealed : Machine.withSecret.Sealed := by
  refine Machine.everywhere_iff.mpr ⟨fun _ hscope => absurd hscope List.not_mem_nil, ?_⟩
  intro entry hentry _
  rw [List.mem_singleton.mp hentry]
  exact ⟨.text "5", _, rfl, rfl⟩

/-- The invariant after `x += 1`. -/
theorem ciphertext_after_addition :
    Machine.withSecret.cipher = .standard Cipher.defaultKey Cipher.defaultIV ∧ Machine.withSecret.Sealed ∧
    ((Operation.expression (.assign ⟨"x", false⟩ .add (.literal (.int 1))) .opened).run 3
      Machine.withSecret).2.Sealed :=
  ⟨rfl, Machine.withSecret_sealed,
    (encrypted_variables_hold_ciphertexts.1 _ _ _ _ rfl Machine.withSecret_sealed (.next _ 3 .here)).2⟩

end SealedScript
