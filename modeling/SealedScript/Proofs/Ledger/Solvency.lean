/-
SealedScript/Proofs/Ledger/Solvency.lean

What can be spent from an account.  As long as no amount is negative or no number at
all, the account is never overdrawn: the balance stays finite, does not fall below
zero and never grows.  In exact quantities the accepted amounts come to what the
balance lost, except that each subtraction is rounded and may keep one part in 2^53
of the balance too much; in whole units of which the account holds 2^53 at most
nothing is rounded, and the books are exact.

Nothing checks an amount but the comparison with the balance, so with other amounts
the account can grow.

Main results: `no_overspending`, `balance_can_grow`.
-/
import SealedScript.Proofs.Ledger.Accounts
import SealedScript.Proofs.Number.Subtraction

namespace SealedScript

namespace Ledger

open Rounding

/-- The balance is finite and not below zero. -/
structure Solvent (ledger : Ledger) : Prop where
  finite : ledger.balance.isFinite = true
  nonneg : 0 ≤ quantity ledger.balance

theorem Solvent.of_balance_eq {ledger ledger' : Ledger} (h : ledger.Solvent) (heq : ledger'.balance = ledger.balance) :
    ledger'.Solvent := ⟨heq ▸ h.finite, heq ▸ h.nonneg⟩

/-- The call does not open the account, and an amount in it is not below zero.  It may be infinite. -/
def Call.Spends (c : Call) : Prop := c.method ≠ "init" ∧ ∀ x, c.amount? = some x → 0 ≤ x

/-- What the calls of a log moved, as an exact quantity. -/
def moved (log : List Served) : ℚ := ((log.filterMap Served.spent?).map quantity).sum

section

variable {s : Served} (log : List Served)

theorem moved_cons_none (h : s.spent? = none) : moved (s :: log) = moved log := by
  rw [moved, filterMap_spent?_cons, h]
  rfl

theorem moved_cons_some {x : Float} (h : s.spent? = some x) : moved (s :: log) = quantity x + moved log := by
  rw [moved, filterMap_spent?_cons, h, List.map_append, List.sum_append]
  congr 1
  exact List.sum_singleton

end

/-! ### One call -/

variable {ledger : Ledger} {c : Call}

/-- An amount that was moved did not exceed the balance. -/
theorem covered_of_accepted {x : Float} (h : Served.accepted ⟨c, ledger.answer c⟩ = true) (hx : c.amount? = some x) :
    ¬ ledger.balance < x := by
  have heffect := ledger.effect c
  generalize ledger.after c = ledger', ledger.answer c = answer at heffect h
  cases heffect with
  | failed _ e => simp [Served.accepted] at h
  | opened _ _ | refused _ _ => cases h
  | accepted amount covered _ =>
    cases amount.symm.trans hx
    exact covered
  | shown _ _ _ htransaction => simp [Served.accepted, htransaction] at h

/-- A call leaves the balance as it is, or it takes an amount off that the balance covers. -/
theorem Solvent.cases_of_spends (hs : ledger.Solvent) (hc : c.Spends) :
    let s : Served := ⟨c, ledger.answer c⟩
    (s.spent? = none ∧ s.accepted = false ∧ (ledger.after c).balance = ledger.balance) ∨
    ∃ x, s.spent? = some x ∧ s.accepted = true ∧ 0 ≤ quantity x ∧ quantity x ≤ quantity ledger.balance ∧
      (ledger.after c).Solvent ∧ quantity (ledger.after c).balance ≤ quantity ledger.balance ∧
      Rounded (quantity ledger.balance - quantity x) (quantity (ledger.after c).balance) := by
  intro s
  rcases ledger.accounts_of_call c with
    ⟨hopened, -⟩ | ⟨-, haccepted, -, x, -, hamount, hbalance, -⟩ | ⟨-, haccepted, hsame⟩
  · have hinit : c.method = "init" := by
      simp only [Served.opened, Bool.and_eq_true, beq_iff_eq] at hopened
      exact hopened.1
    exact absurd hinit hc.1
  · right
    have hcovered := covered_of_accepted haccepted hamount
    have hx : x.isFinite = true := isFinite_of_bounds hs.finite (hc.2 x hamount) hcovered
    have hlow : 0 ≤ quantity x := (float_nonneg_iff hx).1 (hc.2 x hamount)
    have hhigh : quantity x ≤ quantity ledger.balance := by
      rw [float_lt_iff hs.finite hx] at hcovered
      exact not_lt.1 hcovered
    obtain ⟨hfinite, hrounded, hnonneg, hle⟩ := float_sub hs.finite hx hlow hhigh
    refine ⟨x, ?_, haccepted, hlow, hhigh, ?_⟩
    · rw [Served.spent?, if_pos haccepted]
      exact hamount
    · rw [← hbalance] at hfinite hrounded hnonneg hle
      exact ⟨⟨hfinite, hnonneg⟩, hle, hrounded⟩
  · refine .inl ⟨?_, haccepted, by rw [hsame]⟩
    rw [Served.spent?, haccepted]
    rfl

theorem Solvent.after (hs : ledger.Solvent) (hc : c.Spends) :
    (ledger.after c).Solvent ∧ quantity (ledger.after c).balance ≤ quantity ledger.balance := by
  rcases hs.cases_of_spends hc with ⟨-, -, hsame⟩ | ⟨_, -, -, -, -, hsolvent, hle, -⟩
  · exact ⟨hs.of_balance_eq hsame, by rw [hsame]⟩
  · exact ⟨hsolvent, hle⟩

/-! ### Rows of calls -/

variable {calls : List Call}

theorem Solvent.serve (hs : ledger.Solvent) (hcalls : ∀ c ∈ calls, c.Spends) :
    (ledger.serve calls).Solvent ∧ quantity (ledger.serve calls).balance ≤ quantity ledger.balance := by
  induction calls generalizing ledger with
  | nil => exact ⟨hs, le_rfl⟩
  | cons c rest ih =>
    rw [List.forall_mem_cons] at hcalls
    obtain ⟨hafter, hle⟩ := hs.after hcalls.1
    obtain ⟨hserve, hle'⟩ := ih hafter hcalls.2
    exact ⟨hserve, hle'.trans hle⟩

/-- Each amount that is moved is lost from the balance up to one part in 2^53 of it, and the balance never grows
beyond the bound `b`. -/
theorem moved_le {b : ℚ} (hs : ledger.Solvent) (hb : quantity ledger.balance ≤ b) (hcalls : ∀ c ∈ calls, c.Spends) :
    moved (ledger.log calls) ≤ quantity ledger.balance - quantity (ledger.serve calls).balance
      + (ledger.log calls).countP Served.accepted * (b / 2 ^ 53) := by
  induction calls generalizing ledger with
  | nil => simp [log, moved]
  | cons c rest ih =>
    rw [List.forall_mem_cons] at hcalls
    rw [log, serve_cons, List.countP_cons]
    rcases hs.cases_of_spends hcalls.1 with
      ⟨hspent, haccepted, hsame⟩ | ⟨x, hspent, haccepted, hlow, hhigh, hsolvent, hle, hrounded⟩
    · have hrest := ih (hs.of_balance_eq hsame) (hsame ▸ hb) hcalls.2
      rw [moved_cons_none _ hspent, haccepted, if_neg Bool.false_ne_true, add_zero, ← hsame]
      exact hrest
    · have hrest := ih hsolvent (hle.trans hb) hcalls.2
      have herror : quantity ledger.balance - quantity x - quantity (ledger.after c).balance ≥ -(b / 2 ^ 53) := by
        have hpart : (quantity ledger.balance - quantity x) / 2 ^ 53 ≤ b / 2 ^ 53 := by
          gcongr
          linarith
        linarith [(abs_le.1 hrounded.error).2]
      rw [moved_cons_some _ hspent, haccepted, if_pos rfl]
      push_cast
      linarith

/-- In whole units of which the account holds 2^53 at most the books are exact. -/
theorem moved_add_balance {j : ℤ} {k : ℕ} (hs : ledger.Solvent) (hj : -1074 ≤ j) (hk : k ≤ 2 ^ 53)
    (hunits : quantity ledger.balance = k * 2 ^ j) (hcalls : ∀ c ∈ calls, c.Spends)
    (hamounts : ∀ x ∈ (ledger.log calls).filterMap Served.spent?, ∃ n : ℕ, quantity x = n * 2 ^ j) :
    moved (ledger.log calls) + quantity (ledger.serve calls).balance = quantity ledger.balance := by
  induction calls generalizing ledger k with
  | nil => simp [log, moved]
  | cons c rest ih =>
    rw [List.forall_mem_cons] at hcalls
    rw [log, filterMap_spent?_cons] at hamounts
    rw [log, serve_cons]
    rcases hs.cases_of_spends hcalls.1 with
      ⟨hspent, -, hsame⟩ | ⟨x, hspent, -, hlow, hhigh, hsolvent, hle, hrounded⟩
    · rw [hspent] at hamounts
      rw [moved_cons_none _ hspent, ← hsame]
      exact ih (hs.of_balance_eq hsame) hk (hsame ▸ hunits) hcalls.2 hamounts
    · rw [hspent] at hamounts
      obtain ⟨n, hn⟩ := hamounts x (List.mem_cons_self ..)
      have hnk : n ≤ k := by
        rw [hn, hunits] at hhigh
        exact_mod_cast le_of_mul_le_mul_right hhigh (by positivity)
      have hdifference : quantity ledger.balance - quantity x = (k - n : ℕ) * 2 ^ j := by
        rw [hunits, hn, Nat.cast_sub hnk, sub_mul]
      have hexact : quantity (ledger.after c).balance = quantity ledger.balance - quantity x :=
        hrounded.exact ⟨k - n, j, by omega, hj, hdifference⟩
      have hrest := ih hsolvent (by omega) (hexact.trans hdifference) hcalls.2
        fun y hy => hamounts y (List.mem_cons_of_mem _ hy)
      rw [moved_cons_some _ hspent, add_assoc, hrest, hexact]
      ring

theorem balance_opened {key : String} {v : Value} {a : Float} (hv : v.amount? = some a) :
    (ledger.after ⟨"init", [.text key, v]⟩).balance = a := by
  cases v with
  | int n =>
    cases hv
    rfl
  | float x =>
    cases hv
    rfl
  | nil | bool _ | text _ | list _ | object _ => cases hv

end Ledger

/-- **An account is not overspent.**  Let an account be opened with a finite amount that is not negative, and let
calls follow of which none opens it again and no amount is negative or no number.  The balance is always
finite, not below zero and not greater than before a call.  The amounts that are accepted come to the amount
that the account was opened with at most, except that rounding may add one part in 2^53 of it for each of
them; and in whole units of which the account was opened with 2^53 at most, these amounts and the balance
are together exactly what it was opened with. -/
theorem no_overspending (ledger : Ledger) {key : String} {v : Value} {a : Float} (hv : v.amount? = some a)
    (hfinite : a.isFinite = true) (ha : 0 ≤ a) {calls : List Ledger.Call} (hcalls : ∀ c ∈ calls, c.Spends) :
    let opened := ledger.after ⟨"init", [.text key, v]⟩
    let log := opened.log calls
    (opened.serve calls).balance.isFinite = true ∧
    0 ≤ (opened.serve calls).balance ∧
    (∀ front c back, calls = front ++ c :: back →
      (opened.serve (front ++ [c])).balance ≤ (opened.serve front).balance) ∧
    Ledger.moved log ≤ quantity a * (1 + log.countP Ledger.Served.accepted / 2 ^ 53) ∧
    ∀ (j : ℤ) (k : ℕ), -1074 ≤ j → k ≤ 2 ^ 53 → quantity a = k * 2 ^ j →
      (∀ x ∈ log.filterMap Ledger.Served.spent?, ∃ n : ℕ, quantity x = n * 2 ^ j) →
      Ledger.moved log + quantity (opened.serve calls).balance = quantity a := by
  intro opened log
  have hbalance : opened.balance = a := Ledger.balance_opened hv
  have hopened : opened.Solvent := ⟨hbalance ▸ hfinite, hbalance ▸ (float_nonneg_iff hfinite).1 ha⟩
  obtain ⟨hserve, -⟩ := hopened.serve hcalls
  refine ⟨hserve.finite, (float_nonneg_iff hserve.finite).2 hserve.nonneg, ?_, ?_, ?_⟩
  · rintro front c back rfl
    simp only [List.mem_append, List.mem_cons] at hcalls
    obtain ⟨hfront, -⟩ := hopened.serve fun c' hc' => hcalls c' (.inl hc')
    obtain ⟨hafter, hle⟩ := hfront.after (hcalls c (.inr (.inl rfl)))
    rw [Ledger.serve_append]
    exact (float_le_iff hafter.finite hfront.finite).2 hle
  · have hmoved := Ledger.moved_le hopened le_rfl hcalls
    rw [hbalance] at hmoved
    calc Ledger.moved log ≤ quantity a + log.countP Ledger.Served.accepted * (quantity a / 2 ^ 53) := by
          linarith [hserve.nonneg]
      _ = quantity a * (1 + log.countP Ledger.Served.accepted / 2 ^ 53) := by ring
  · intro j k hj hk hunits hamounts
    rw [← hbalance] at hunits ⊢
    exact Ledger.moved_add_balance hopened hj hk hunits hcalls hamounts

/-- An account of ten that is asked for two and a half, for a thousand and for seven. -/
def tenAsked : List Ledger.Call :=
  [⟨"transaction", [.text "bob", .float 2.5]⟩, ⟨"transaction", [.text "eve", .int 1000]⟩,
    ⟨"transaction", [.text "bob", .int 7]⟩]

theorem tenAsked_not_overspent :
    let opened := ({} : Ledger).after ⟨"init", [.text "key", .int 10]⟩
    (∀ c ∈ tenAsked, c.Spends) ∧ (opened.serve tenAsked).balance.isFinite = true ∧
      0 ≤ (opened.serve tenAsked).balance ∧ Ledger.moved (opened.log tenAsked) ≤ quantity 10 * (1 + 2 / 2 ^ 53) := by
  intro opened
  have hcalls : ∀ c ∈ tenAsked, c.Spends := by
    simp only [tenAsked, List.forall_mem_cons]
    refine ⟨⟨by decide, ?_⟩, ⟨by decide, ?_⟩, ⟨by decide, ?_⟩, nofun⟩ <;> rintro _ ⟨⟩ <;> decide +kernel
  have haccepted : (opened.log tenAsked).countP Ledger.Served.accepted = 2 := by decide +kernel
  obtain ⟨hfinite, hnonneg, -, hmoved, -⟩ :=
    @no_overspending {} "key" (.int 10) 10 (by decide +kernel) (by decide +kernel) (by decide +kernel) _ hcalls
  refine ⟨hcalls, hfinite, hnonneg, ?_⟩
  rw [haccepted] at hmoved
  exact_mod_cast hmoved

/-- **An account can be overspent.**  A negative amount is accepted and the balance grows; what is no number is
accepted and the balance is no number afterwards; and where the account holds more than 53 bits tell apart, an
amount can be moved that rounding puts back. -/
theorem overspending :
    let ten := ({} : Ledger).after ⟨"init", [.text "key", .int 10]⟩
    let large := ({} : Ledger).after ⟨"init", [.text "key", .int 18014398509481984]⟩
    ten.balance < (ten.after ⟨"transaction", [.text "bob", .int (-5)]⟩).balance ∧
    (ten.after ⟨"transaction", [.text "bob", .float (0.0 / 0.0)]⟩).balance.isFinite = false ∧
    quantity large.balance < Ledger.moved (large.log
      [⟨"transaction", [.text "bob", .int 1]⟩, ⟨"transaction", [.text "bob", .int 18014398509481984]⟩]) := by
  intro ten large
  refine ⟨by decide +kernel, by decide +kernel, ?_⟩
  have hspent : (large.log [⟨"transaction", [.text "bob", .int 1]⟩,
      ⟨"transaction", [.text "bob", .int 18014398509481984]⟩]).filterMap Ledger.Served.spent?
        = [1, 18014398509481984] := by decide +kernel
  have hone : Binary64.ofFloat 1 = .finite false 4503599627370496 (-52) := by decide +kernel
  have hlarge : Binary64.ofFloat 18014398509481984 = .finite false 4503599627370496 2 := by decide +kernel
  have hbalance : large.balance = 18014398509481984 := by decide +kernel
  rw [Ledger.moved, hspent, hbalance]
  norm_num [quantity, hone, hlarge, Binary64.quantity]

end SealedScript
