/-
SealedScript/Proofs/Ledger/Accounts.lean

The accounts of a ledger.  Whatever methods are called with whatever arguments, the
log of the answers tells the balance and the history.  The balance is the amount of
the last `init` that succeeded, less the amounts of the transactions accepted since,
one after another.  The history holds the accepted transactions in order, and their
place in it is the number in their names, so that no two have the same name.  A call
that fails and a transaction that is refused change nothing.

Main result: `ledger_accounts`.
-/
import SealedScript.Proofs.Ledger.Calls
import SealedScript.Proofs.Number.RoundTrip

namespace SealedScript

namespace Ledger

/-! ### The log -/

/-- Whether a call opened the account. -/
def Served.opened (s : Served) : Bool :=
  s.call.method == "init" && match s.answer with
    | .ok _ => true
    | .error _ => false

/-- Whether a call moved an amount: a transaction that was answered with `true`. -/
def Served.accepted (s : Served) : Bool :=
  s.call.method == "transaction" && match s.answer with
    | .ok (.bool moved) => moved
    | _ => false

/-- The amount that a call moved. -/
def Served.spent? (s : Served) : Option Float := if s.accepted then s.call.amount? else none

/-- What a call does to the accounts: it opens the account, it moves an amount, or it does neither and the
ledger stays. -/
theorem accounts_of_call (ledger : Ledger) (c : Call) :
    let s : Served := ⟨c, ledger.answer c⟩
    (s.opened = true ∧ s.accepted = false ∧ (ledger.after c).history = ledger.history ∧
      ∃ a, c.amount? = some a ∧ (ledger.after c).balance = a) ∨
    (s.opened = false ∧ s.accepted = true ∧ ∃ recipient a stamp, c.amount? = some a ∧
      (ledger.after c).balance = ledger.balance - a ∧
      (ledger.after c).history = ledger.history ++ [⟨transactionId ledger.history.length, recipient, a, stamp⟩]) ∨
    (s.opened = false ∧ s.accepted = false ∧ ledger.after c = ledger) := by
  have heffect := ledger.effect c
  generalize ledger.after c = ledger', ledger.answer c = answer at heffect
  cases heffect with
  | failed _ e => exact .inr (.inr ⟨by simp [Served.opened], by simp [Served.accepted], rfl⟩)
  | opened amount _ => exact .inl ⟨rfl, rfl, rfl, _, amount, rfl⟩
  | refused _ _ => exact .inr (.inr ⟨rfl, rfl, rfl⟩)
  | accepted amount _ stamp => exact .inr (.inl ⟨rfl, rfl, _, _, stamp, amount, rfl, rfl⟩)
  | shown _ _ hinit htransaction =>
    exact .inr (.inr ⟨by simp [Served.opened, hinit], by simp [Served.accepted, htransaction], rfl⟩)

theorem filterMap_spent?_cons (s : Served) (log : List Served) :
    (s :: log).filterMap Served.spent? = s.spent?.toList ++ log.filterMap Served.spent? := by
  cases h : s.spent? <;> simp [h]

/-! ### The balance -/

/-- While the account is not opened again, each amount is taken off the balance. -/
theorem balance_of_none_opened {calls : List Call} {ledger : Ledger}
    (h : ∀ s ∈ ledger.log calls, s.opened = false) :
    (ledger.serve calls).balance = ((ledger.log calls).filterMap Served.spent?).foldl (· - ·) ledger.balance := by
  induction calls generalizing ledger with
  | nil => rfl
  | cons c rest ih =>
    rw [log, List.forall_mem_cons] at h
    rw [serve_cons, ih h.2, log, filterMap_spent?_cons, List.foldl_append]
    congr 1
    rcases ledger.accounts_of_call c with
      ⟨hopened, -⟩ | ⟨-, haccepted, _, a, _, hamount, hbalance, -⟩ | ⟨-, haccepted, hsame⟩
    · exact Bool.noConfusion (h.1.symm.trans hopened)
    · rw [hbalance, Served.spent?, if_pos haccepted, hamount]
      rfl
    · rw [hsame, Served.spent?, haccepted]
      rfl

/-- Once the account is opened, what was before it does not count. -/
theorem balance_since_opened {calls : List Call} {ledger : Ledger} {before behind : List Served} {s : Served}
    (hlog : ledger.log calls = before ++ s :: behind) (hs : s.opened = true)
    (hbehind : ∀ s' ∈ behind, s'.opened = false) :
    ∃ a, s.call.amount? = some a ∧
      (ledger.serve calls).balance = (behind.filterMap Served.spent?).foldl (· - ·) a := by
  obtain ⟨front, c, back, rfl, -, rfl, rfl⟩ := ledger.exists_of_log_eq_append hlog
  rcases (ledger.serve front).accounts_of_call c with ⟨-, -, -, a, hamount, hbalance⟩ | ⟨hopened, -⟩ | ⟨hopened, -⟩
  · refine ⟨a, hamount, ?_⟩
    rw [serve_append, serve_cons, balance_of_none_opened hbehind, hbalance]
  · exact Bool.noConfusion (hs.symm.trans hopened)
  · exact Bool.noConfusion (hs.symm.trans hopened)

/-! ### The history -/

/-- A call adds to the history what it moved. -/
theorem history_after (ledger : Ledger) (c : Call) :
    ∃ entries, (ledger.after c).history = ledger.history ++ entries ∧
      entries.map Transaction.amount = (Served.spent? ⟨c, ledger.answer c⟩).toList ∧
      entries.length = (if Served.accepted ⟨c, ledger.answer c⟩ then 1 else 0) ∧
      ∀ t ∈ entries, t.id = transactionId ledger.history.length := by
  rcases ledger.accounts_of_call c with
    ⟨-, haccepted, hsame, -⟩ | ⟨-, haccepted, recipient, a, stamp, hamount, -, hhistory⟩ | ⟨-, haccepted, hsame⟩
  · refine ⟨[], ?_⟩
    simp [hsame, Served.spent?, haccepted]
  · refine ⟨_, hhistory, ?_⟩
    simp [Served.spent?, haccepted, hamount]
  · refine ⟨[], ?_⟩
    simp [hsame, Served.spent?, haccepted]

/-- A row of calls adds to the history what it moved, in order. -/
theorem history_serve (ledger : Ledger) (calls : List Call) :
    ∃ entries, (ledger.serve calls).history = ledger.history ++ entries ∧
      entries.map Transaction.amount = (ledger.log calls).filterMap Served.spent? ∧
      entries.length = (ledger.log calls).countP Served.accepted := by
  induction calls generalizing ledger with
  | nil => exact ⟨[], by simp [log]⟩
  | cons c rest ih =>
    obtain ⟨first, hfirst, hamount, hlength, -⟩ := ledger.history_after c
    obtain ⟨entries, hentries, hamounts, hlengths⟩ := ih (ledger.after c)
    refine ⟨first ++ entries, ?_, ?_, ?_⟩
    · rw [serve_cons, hentries, hfirst, List.append_assoc]
    · rw [List.map_append, hamount, hamounts, log, filterMap_spent?_cons]
    · rw [List.length_append, hlength, hlengths, log, List.countP_cons, Nat.add_comm]

/-! ### Names -/

/-- Every transaction is named for its place. -/
def Named (ledger : Ledger) : Prop :=
  ∀ {k : Nat} {t : Transaction}, ledger.history[k]? = some t → t.id = transactionId k

theorem Named.after {ledger : Ledger} (h : ledger.Named) (c : Call) : (ledger.after c).Named := by
  obtain ⟨entries, hentries, -, hlength, hid⟩ := ledger.history_after c
  intro k t ht
  rw [hentries] at ht
  by_cases hk : k < ledger.history.length
  · rw [List.getElem?_append_left hk] at ht
    exact h ht
  · -- at most one transaction is new, and it stands at the end
    rw [List.getElem?_append_right (Nat.le_of_not_lt hk)] at ht
    have hlast : k - ledger.history.length < entries.length := (List.getElem?_eq_some_iff.mp ht).1
    have hone : entries.length ≤ 1 := by
      rw [hlength]
      split <;> decide
    rw [hid t (List.mem_of_getElem? ht)]
    congr 1
    omega

theorem Named.serve {ledger : Ledger} (h : ledger.Named) (calls : List Call) : (ledger.serve calls).Named := by
  induction calls generalizing ledger with
  | nil => exact h
  | cons c rest ih => exact ih (h.after c)

/-- Different places have different names: the number can be read off the name. -/
theorem transactionId_injective {j k : Nat} (h : transactionId j = transactionId k) : j = k := by
  have hdigits := congrArg String.toList h
  simp only [transactionId, String.toList_append, String.toList_ofList, List.append_cancel_left_eq] at hdigits
  have hnumber := congrArg natOfDigits hdigits
  rw [natOfDigits_zeroPadded, natOfDigits_zeroPadded] at hnumber
  exact Nat.succ.inj hnumber

theorem Named.nodup {ledger : Ledger} (h : ledger.Named) : (ledger.history.map Transaction.id).Nodup := by
  rw [List.Nodup, List.pairwise_map, List.pairwise_iff_getElem]
  intro i j hi hj hij heq
  rw [h (List.getElem?_eq_getElem hi), h (List.getElem?_eq_getElem hj)] at heq
  exact Nat.ne_of_lt hij (transactionId_injective heq)

/-! ### Refusals -/

/-- A call that fails changes nothing, and neither does a transaction that is refused. -/
theorem after_eq_of_refused {ledger : Ledger} {c : Call} (h : (∃ e, ledger.answer c = .error e) ∨
    c.method = "transaction" ∧ ledger.answer c = .ok (.bool false)) : ledger.after c = ledger := by
  have heffect := ledger.effect c
  generalize ledger.after c = ledger', ledger.answer c = answer at heffect h
  cases heffect with
  | failed _ _ | refused _ _ | shown _ _ _ _ => rfl
  | opened _ _ | accepted _ _ _ =>
    obtain ⟨_, hanswer⟩ | ⟨-, hanswer⟩ := h <;> cases hanswer

end Ledger

/-- **The accounts of a ledger.**  Let a ledger that is new serve a row of calls, with any methods and any
arguments.  Its balance is the amount of the last `init` that succeeded, or zero, less the amounts of the
transactions accepted since, one after another.  Its history holds the amounts of all accepted
transactions in order, one entry for each, and more calls only add to it.  The entry in place `k` is
named by `k`, counted from one, with six digits at least; no two names are the same, and
`showTransactionHistory` yields them in order.  A call that fails and a transaction that is refused
change nothing, and an object in the heap holds what the calls leave. -/
theorem ledger_accounts (calls : List Ledger.Call) :
    let ledger := ({} : Ledger).serve calls
    let log := ({} : Ledger).log calls
    (∀ before s behind, log = before ++ s :: behind → s.opened = true → (∀ s' ∈ behind, s'.opened = false) →
      ∃ a, s.call.amount? = some a ∧
        ledger.balance = (behind.filterMap Ledger.Served.spent?).foldl (· - ·) a) ∧
    ((∀ s ∈ log, s.opened = false) →
      ledger.balance = (log.filterMap Ledger.Served.spent?).foldl (· - ·) 0.0) ∧
    ledger.history.map Transaction.amount = log.filterMap Ledger.Served.spent? ∧
    ledger.history.length = log.countP Ledger.Served.accepted ∧
    (∀ more, ledger.history <+: (ledger.serve more).history) ∧
    (∀ k t, ledger.history[k]? = some t →
      t.id = "tx-" ++ String.ofList
        (List.replicate (6 - (Nat.toDigits 10 (k + 1)).length) '0' ++ Nat.toDigits 10 (k + 1))) ∧
    (ledger.history.map Transaction.id).Nodup ∧
    ledger.answer ⟨"showTransactionHistory", []⟩ = .ok (.list (ledger.history.map fun t => .text t.id)) ∧
    ∀ c : Ledger.Call,
      ((∃ e, ledger.answer c = .error e) ∨ c.method = "transaction" ∧ ledger.answer c = .ok (.bool false) →
        ledger.after c = ledger) ∧
      ∀ (m : Machine) (id : ObjectId), m.heap.object id = .ledger ledger →
        (Action.callMethod (.object id) c.method c.args m).2.heap.object id = .ledger (ledger.after c) ∧
        ∀ e, ledger.answer c = .error e → Action.callMethod (.object id) c.method c.args m = (.failed e, m) := by
  intro ledger log
  have hempty : ({} : Ledger).Named := by
    intro k t ht
    cases ht
  have hnamed : ledger.Named := hempty.serve calls
  obtain ⟨entries, hentries, hamounts, hlength⟩ := Ledger.history_serve {} calls
  rw [List.nil_append] at hentries
  refine ⟨fun _ _ _ => Ledger.balance_since_opened, Ledger.balance_of_none_opened, ?_, ?_, ?_, fun _ _ => hnamed,
    hnamed.nodup, ?_, fun c => ⟨Ledger.after_eq_of_refused, fun _ _ hid => Ledger.object_callMethod hid c⟩⟩
  · rw [hentries, hamounts]
  · rw [hentries, hlength]
  · intro more
    obtain ⟨added, hadded, -, -⟩ := ledger.history_serve more
    exact ⟨added, hadded.symm⟩
  · rw [Ledger.answer, Ledger.call_showTransactionHistory]
    rfl

end SealedScript
