/-
  OrderApi.Orders.Payment
  ───────────────────────
  **CONCURRENT PAYMENTS.**

  `pay_order` reads the status of a row with one statement and writes PAID with
  another that re-checks nothing.  Everything that can go wrong happens in
  between (`Pc.payWindow`):

    • a second `pay_order` of the same order may execute its UPDATE there, and
      then the row is paid twice;
    • a `delete_order` may remove the row there, and then the UPDATE matches no
      row and is reported as a payment all the same.

  Each of the two is excluded by a condition on the single steps
  (`PayExclusive`, `NoDeleteInWindow`), and under it the corresponding law holds
  in every run.  Keys are order numbers as `sqlite3_bind_text` binds them.
-/
import OrderApi.Model.Steps
import Mathlib.Data.Fintype.Basic
import Mathlib.Tactic.FinCases

namespace OrderApi.Orders

open OrderApi.Lib
open OrderApi.Crow
open OrderApi.Model

variable {ι : Type*}

/-! ## §1. What is counted. -/

/-- At this event a `pay_order` for `k` settles on the answer 200. -/
def returns200 (env : Env) (k : String) (s : Pool ι World Pc) :
    Event ι Outcome EnvEvent → Bool
  | .proc i out =>
      (s.proc i).payTarget = some k && (s.proc i).answer = none &&
        (step env out (s.proc i) s.world).1.answer = some 200
  | .env _ => false

/-- At this event a `pay_order` for `k` increments `orders_paid`. -/
def incrementsPaid (env : Env) (k : String) (s : Pool ι World Pc) :
    Event ι Outcome EnvEvent → Bool
  | .proc i out =>
      (s.proc i).payTarget = some k &&
        (step env out (s.proc i) s.world).2.metrics.ordersPaid ≠ s.world.metrics.ordersPaid
  | .env _ => false

/-- The key whose row a request is about to UPDATE. -/
def updates : Pc → Option String
  | .updateStep o _ _ _ => some (cStr o)
  | _ => none

/-- The key whose row a request is about to DELETE. -/
def deletes : Pc → Option String
  | .deleteStep o => some (cStr o)
  | _ => none

theorem updates_eq_some {pc : Pc} {k : String} (h : updates pc = some k) :
    ∃ o a c n, pc = .updateStep o a c n ∧ cStr o = k := by
  cases pc with
  | updateStep o a c n => exact ⟨o, a, c, n, rfl, by simpa [updates] using h⟩
  | _ => simp [updates] at h

/-- A counter that is incremented has changed. -/
theorem inc32_ne (x : Int) : inc32 x ≠ x := by
  intro h
  have hmod : (x + 1).bmod (2 ^ 32) % ((2 ^ 32 : Nat) : Int) = (x + 1) % ((2 ^ 32 : Nat) : Int) :=
    Int.bmod_emod
  rw [show (x + 1).bmod (2 ^ 32) = x from h] at hmod
  omega

/-- A payment is answered with a 200 at its UPDATE. -/
theorem returns200_iff {env : Env} {k : String} {s : Pool ι World Pc} {i : ι} {out : Outcome} :
    returns200 env k s (.proc i out) = true ↔ out = .ok ∧ updates (s.proc i) = some k := by
  simp only [returns200, Bool.and_eq_true, decide_eq_true_eq]
  constructor
  · rintro ⟨⟨hk, hbefore⟩, hafter⟩
    obtain ⟨hok, o, a, c, n, hpc, ho⟩ := pay_answer_step env out hk hbefore hafter
    exact ⟨hok, by simp [hpc, updates, ho]⟩
  · rintro ⟨rfl, h⟩
    obtain ⟨o, a, c, n, hpc, rfl⟩ := updates_eq_some h
    rw [hpc]
    exact ⟨⟨rfl, rfl⟩, rfl⟩

/-- And there it is counted. -/
theorem incrementsPaid_iff {env : Env} {k : String} {s : Pool ι World Pc} {i : ι} {out : Outcome} :
    incrementsPaid env k s (.proc i out) = true ↔ out = .ok ∧ updates (s.proc i) = some k := by
  simp only [incrementsPaid, Bool.and_eq_true, decide_eq_true_eq]
  constructor
  · rintro ⟨hk, hinc⟩
    -- of the points of `pay_order` only the UPDATE counts a payment
    generalize s.proc i = pc at hk hinc ⊢
    cases pc with
    | payPrepare o n => exact absurd (by cases out <;> rfl) hinc
    | payStep o n =>
        refine absurd ?_ hinc
        simp only [step]
        split
        · split <;> rfl
        · rfl
    | updatePrepare o a c n => exact absurd (by cases out <;> rfl) hinc
    | updateStep o a c n =>
        cases out with
        | ok => exact ⟨rfl, hk⟩
        | fail applied => exact absurd rfl hinc
    | payInvalidate o a c n =>
        exact absurd (redisWrite_frame env out (fun w => w.metrics.ordersPaid) (fun _ => rfl)
          (fun _ => rfl) rfl) hinc
    | _ => simp [Pc.payTarget] at hk
  · rintro ⟨rfl, h⟩
    obtain ⟨o, a, c, n, hpc, rfl⟩ := updates_eq_some h
    rw [hpc]
    exact ⟨rfl, inc32_ne _⟩

/-- The answer 200 and the increment of `orders_paid` belong to the same event. -/
theorem incrementsPaid_eq (env : Env) (k : String) :
    (incrementsPaid env k : Pool ι World Pc → Event ι Outcome EnvEvent → Bool)
      = returns200 env k := by
  funext s e
  cases e with
  | proc i out => rw [Bool.eq_iff_iff, incrementsPaid_iff, returns200_iff]
  | env x => rfl

/-! ## §2. At most one payment in the life of a row. -/

/-- When a `pay_order` executes its UPDATE on a row, no other `pay_order` of the
    same order is between its SELECT and its UPDATE. -/
def PayExclusive (s : Pool ι World Pc) : Event ι Outcome EnvEvent → Prop
  | .proc i out => out = .ok → ∀ k ∈ updates (s.proc i), HasRow k s →
      ∀ j, j ≠ i → (s.proc j).payWindow ≠ some k
  | .env _ => True

/-- Rows that are not paid have no payment time. -/
def UnpaidRows (t : Table) : Prop := ∀ k r, t.find k = some r → r.status ≠ "PAID" → r.paidAt = 0

/-- What an exclusive run keeps: nobody is about to pay a row that is paid. -/
structure PayInv (s : Pool ι World Pc) : Prop where
  exclusive : ∀ k r i, s.world.table.find k = some r → r.status = "PAID" →
    (s.proc i).payWindow ≠ some k
  unpaid : UnpaidRows s.world.table

/-- The row `k` is there and paid. -/
def Paid (k : String) (s : Pool ι World Pc) : Prop := PaidRow k s.world.table

/-- No payment of a paid row is answered with a 200. -/
theorem returns200_of_paid (env : Env) {s : Pool ι World Pc} {e : Event ι Outcome EnvEvent}
    {k : String} (hI : PayInv s) (hpaid : Paid k s) : returns200 env k s e = false := by
  rw [Bool.eq_false_iff]
  intro h
  cases e with
  | env x => simp [returns200] at h
  | proc i out =>
      obtain ⟨-, hup⟩ := returns200_iff.mp h
      obtain ⟨o, a, c, n, hpc, ho⟩ := updates_eq_some hup
      obtain ⟨r, hr, hst⟩ := hpaid
      exact hI.exclusive k r i hr hst (by simp [hpc, Pc.payWindow, ho])

theorem payInv_initial {w : World} (hw : UnpaidRows w.table) (jobs : ι → Job) :
    PayInv (initial w jobs) :=
  ⟨fun k r i _ _ h => by simp [initial, Pc.payWindow] at h, hw⟩

variable [DecidableEq ι]

instance [Fintype ι] (s : Pool ι World Pc) :
    (e : Event ι Outcome EnvEvent) → Decidable (PayExclusive s e)
  | .proc i out => inferInstanceAs (Decidable (out = .ok → ∀ k ∈ updates (s.proc i), HasRow k s →
      ∀ j, j ≠ i → (s.proc j).payWindow ≠ some k))
  | .env _ => inferInstanceAs (Decidable True)

/-- **At-most-once payment** of the order `k` along a run: while its row is
    there at most one `pay_order` gets 200 and `orders_paid` moves at most once
    for it, and a `paid_at` that is set is not overwritten. -/
structure PaidAtMostOnce (env : Env) (s : Pool ι World Pc)
    (evs : List (Event ι Outcome EnvEvent)) (k : String) : Prop where
  once : ∀ pre life post, evs = pre ++ life ++ post →
    (handlers env).Throughout (HasRow k) ((handlers env).run s pre) life →
    (handlers env).countEv (returns200 env k) ((handlers env).run s pre) life ≤ 1
  counted : ∀ pre life post, evs = pre ++ life ++ post →
    (handlers env).Throughout (HasRow k) ((handlers env).run s pre) life →
    (handlers env).countEv (incrementsPaid env k) ((handlers env).run s pre) life ≤ 1
  kept : ∀ pre e post, evs = pre ++ e :: post → ∀ r r',
    ((handlers env).run s pre).world.table.find k = some r → r.paidAt ≠ 0 →
    ((handlers env).run s (pre ++ [e])).world.table.find k = some r' → r'.paidAt = r.paidAt

section
variable (env : Env) {s : Pool ι World Pc} {e : Event ι Outcome EnvEvent} {k : String}

/-- The requests that are in the window after a step were there before, or have
    just read an unpaid row. -/
theorem payWindow_fire {i j : ι} {out : Outcome}
    (h : (((handlers env).fire s (.proc i out)).proc j).payWindow = some k) :
    (s.proc j).payWindow = some k ∨
      (j = i ∧ (step env out (s.proc i) s.world).2 = s.world ∧
        ∃ r, s.world.table.find k = some r ∧ r.status ≠ "PAID") := by
  by_cases hj : j = i
  · subst hj
    rw [Machine.fire_proc_self] at h
    rcases payWindow_step env out h with hwin | ⟨-, hworld, hrow⟩
    · exact .inl hwin
    · exact .inr ⟨rfl, hworld, hrow⟩
  · rw [Machine.fire_proc_other _ _ hj] at h
    exact .inl h

/-- **One step keeps the invariant**, when no second payment is on its way. -/
theorem payInv_fire (hI : PayInv s) (hok : PayExclusive s e) :
    PayInv ((handlers env).fire s e) := by
  cases e with
  | env x => exact ⟨by simpa [handlers] using hI.exclusive, by simpa [handlers] using hI.unpaid⟩
  | proc i out =>
      constructor
      · intro k r j hr hpaid hafter
        rcases payWindow_fire env hafter with hwin | ⟨rfl, hworld, r', hr', hne⟩
        · cases step_row env out (s.proc i) s.world k with
          | keep row => exact hI.exclusive k r j (row ▸ hr) hpaid hwin
          | insert o a c r' at_ key next fresh row _ status _ _ =>
              -- a fresh row is PENDING, not PAID
              have : r' = r := Option.some.inj (row.symm.trans hr)
              rw [← this, status] at hpaid
              simp at hpaid
          | delete o at_ key ok next row => exact absurd (row.symm.trans hr) (by simp)
          | update o a c n at_ key ok next row =>
              -- the UPDATE hits the row, so by exclusion nobody else is in the window
              have hrow : HasRow k s := by
                cases hf : s.world.table.find k with
                | none => exact absurd (row.symm.trans hr) (by simp [hf])
                | some r₀ => simp [HasRow, Present, hf]
              by_cases hj : j = i
              · subst hj
                rw [Machine.fire_proc_self, handlers_step, next] at hafter
                simp [Pc.payWindow] at hafter
              · exact hok ok k (by simp [at_, updates, key]) hrow j hj hwin
        -- the SELECT of `j` has just read the row as unpaid, and reading changes nothing
        · have : r' = r := by
            have h' : s.world.table.find k = some r := by rw [← hworld]; exact hr
            exact Option.some.inj (hr'.symm.trans h')
          exact hne (this ▸ hpaid)
      · intro k r hr hne
        cases step_row env out (s.proc i) s.world k with
        | keep row => exact hI.unpaid k r (row ▸ hr) hne
        | insert o a c r' at_ key next fresh row _ _ _ paidAt =>
            have : r' = r := Option.some.inj (row.symm.trans hr)
            rw [← this, paidAt]
        | delete o at_ key ok next row => exact absurd (row.symm.trans hr) (by simp)
        | update o a c n at_ key ok next row =>
            obtain ⟨r₀, -, hr₀⟩ := Option.map_eq_some_iff.mp (row.symm.trans hr)
            exact absurd (by rw [← hr₀]; rfl) hne

/-- A payment of a row that is there leaves it paid. -/
theorem paid_of_returns200 (hrow : HasRow k s) (h : returns200 env k s e = true) :
    Paid k ((handlers env).fire s e) := by
  cases e with
  | env x => simp [returns200] at h
  | proc i out =>
      obtain ⟨rfl, hup⟩ := returns200_iff.mp h
      obtain ⟨o, a, c, n, hpc, rfl⟩ := updates_eq_some hup
      obtain ⟨r, hr⟩ := Option.isSome_iff_exists.mp hrow
      refine ⟨Table.markPaid n r, ?_, rfl⟩
      rw [Machine.fire_proc_world, handlers_step, hpc]
      exact (Table.find_updatePaid s.world.table (cStr o) n (cStr o)).trans
        (by rw [if_pos rfl, hr]; rfl)

/-- A row stays paid as long as it is there. -/
theorem paid_fire (hafter : HasRow k ((handlers env).fire s e)) (hpaid : Paid k s) :
    Paid k ((handlers env).fire s e) := by
  obtain ⟨r, hr, hst⟩ := hpaid
  cases e with
  | env x => exact ⟨r, by simpa using hr, hst⟩
  | proc i out =>
      cases step_row env out (s.proc i) s.world k with
      | keep row => exact ⟨r, row.trans hr, hst⟩
      | insert o a c r' at_ key next fresh row => exact absurd (fresh.symm.trans hr) (by simp)
      | update o a c n at_ key ok next row =>
          exact ⟨Table.markPaid n r, row.trans (by rw [hr]; rfl), rfl⟩
      | delete o at_ key ok next row =>
          exact absurd hafter (by simp [HasRow, Present, row])

/-- In an exclusive step a `paid_at` that is set stays. -/
theorem paidAt_fire (hI : PayInv s) {r r' : Row} (hr : s.world.table.find k = some r)
    (hset : r.paidAt ≠ 0) (hr' : ((handlers env).fire s e).world.table.find k = some r') :
    r'.paidAt = r.paidAt := by
  have hst : r.status = "PAID" := by
    by_contra hne
    exact hset (hI.unpaid k r hr hne)
  have hsame : ∀ r', s.world.table.find k = some r' → r'.paidAt = r.paidAt := fun r' h => by
    rw [Option.some.inj (hr.symm.trans h)]
  cases e with
  | env x => exact hsame r' (by simpa using hr')
  | proc i out =>
      cases step_row env out (s.proc i) s.world k with
      | keep row => exact hsame r' (row ▸ hr')
      | insert o a c r₀ at_ key next fresh row => exact absurd (fresh.symm.trans hr) (by simp)
      | delete o at_ key ok next row => exact absurd (row.symm.trans hr') (by simp)
      -- only a paid row has a payment time, and nobody is about to pay that one
      | update o a c n at_ key ok next row =>
          exact absurd (by simp [at_, Pc.payWindow, key]) (hI.exclusive k r i hr hst)

end

/-- **At-most-once payment.**  In every run in which no UPDATE of a payment hits
    a row while another payment of the same order has read it as unpaid, each
    row is paid at most once and its `paid_at` never overwritten. -/
theorem pay_order_at_most_once (env : Env) (w : World) (hw : UnpaidRows w.table)
    (jobs : ι → Job) (evs : List (Event ι Outcome EnvEvent))
    (h : (handlers env).RunOk PayExclusive (initial w jobs) evs) (k : String) :
    PaidAtMostOnce env (initial w jobs) evs k := by
  have hinv : ∀ (s : Pool ι World Pc) e, PayInv s → PayExclusive s e →
      PayInv ((handlers env).fire s e) :=
    fun s e hI hok => payInv_fire env hI hok
  have h₀ := payInv_initial hw jobs
  -- the row being paid is what the first 200 uses up
  have hspend : ∀ (s : Pool ι World Pc) e, PayInv s → PayExclusive s e → HasRow k s →
      returns200 env k s e = true → Paid k ((handlers env).fire s e) :=
    fun s e _ _ hrow h200 => paid_of_returns200 env hrow h200
  have honce : ∀ pre life post, evs = pre ++ life ++ post →
      (handlers env).Throughout (HasRow k) ((handlers env).run (initial w jobs) pre) life →
      (handlers env).countEv (returns200 env k) ((handlers env).run (initial w jobs) pre) life
        ≤ 1 := by
    intro pre life post hsplit hlife
    subst hsplit
    rw [List.append_assoc, Machine.runOk_append, Machine.runOk_append] at h
    refine ((handlers env).countEv_le_one hinv hspend ?_ ?_ life _
      ((handlers env).run_inv hinv pre _ h₀ h.1) h.2.1 hlife).1
    · exact fun s e hI _ hpaid => returns200_of_paid env hI hpaid
    · exact fun s e _ _ _ hafter hpaid => paid_fire env hafter hpaid
  constructor
  · exact honce
  · rw [incrementsPaid_eq]
    exact honce
  · intro pre e post hsplit r r' hr hset hr'
    subst hsplit
    rw [Machine.run_concat] at hr'
    exact paidAt_fire env ((handlers env).run_inv_at hinv h₀ h).1 hr hset hr'

/-- One `create_order` and two `pay_order`s of the order it creates. -/
def twoPayments : Fin 3 → Job
  | 0 => sampleCreate
  | 1 => samplePay 1
  | 2 => samplePay 2

/-- The two payments one after the other. -/
def paymentsInTurn : List (Event (Fin 3) Outcome EnvEvent) :=
  schedule (turns [0, 0, 0, 0, 1, 1, 1, 1, 1, 1, 2, 2, 2])

/-- The two payments with both SELECTs before the first UPDATE. -/
def paymentsOverlapping : List (Event (Fin 3) Outcome EnvEvent) :=
  schedule (turns [0, 0, 0, 0, 1, 1, 1, 2, 2, 2, 1, 1, 2, 2, 1, 2])

/-- Two payments, one after the other. -/
theorem pay_order_at_most_once_in_turn :
    (handlers sampleEnv).RunOk PayExclusive (initial {} twoPayments) paymentsInTurn ∧
      PaidAtMostOnce sampleEnv (initial {} twoPayments) paymentsInTurn "ORD17000000007" := by
  have hex : (handlers sampleEnv).RunOk PayExclusive (initial {} twoPayments) paymentsInTurn := by
    decide
  exact ⟨hex, pay_order_at_most_once sampleEnv {} (fun k r h => by simp at h) twoPayments
    paymentsInTurn hex "ORD17000000007"⟩

/-- Both overlapping payments get 200, in the life of one row. -/
theorem overlapping_payments_both_succeed :
    (handlers sampleEnv).RunOk CallsSucceed (initial {} twoPayments) paymentsOverlapping ∧
      ¬ PaidAtMostOnce sampleEnv (initial {} twoPayments) paymentsOverlapping
        "ORD17000000007" := by
  refine ⟨schedule_succeeds _ _ _, fun h => ?_⟩
  have hlife := h.once (schedule (turns [0, 0, 0]))
    (schedule (turns [0, 1, 1, 1, 2, 2, 2, 1, 1, 2, 2, 1, 2])) [] rfl (by decide)
  revert hlife
  decide

/-! ## §3. No payment of a row that is gone. -/

/-- **No phantom payment** of the order `k` along a run: the UPDATE of a
    `pay_order` that gets 200 meets the row, and the row is PAID right after. -/
def NoPhantomPayment (env : Env) (s : Pool ι World Pc) (evs : List (Event ι Outcome EnvEvent))
    (k : String) : Prop :=
  ∀ pre e post, evs = pre ++ e :: post →
    returns200 env k ((handlers env).run s pre) e = true →
    HasRow k ((handlers env).run s pre) ∧ Paid k ((handlers env).run s (pre ++ [e]))

/-- When a `delete_order` removes a row, no `pay_order` of that order is between
    its SELECT and its UPDATE. -/
def NoDeleteInWindow (s : Pool ι World Pc) : Event ι Outcome EnvEvent → Prop
  | .proc i out => out = .ok → ∀ k ∈ deletes (s.proc i), HasRow k s →
      ∀ j, (s.proc j).payWindow ≠ some k
  | .env _ => True

instance [Fintype ι] (s : Pool ι World Pc) :
    (e : Event ι Outcome EnvEvent) → Decidable (NoDeleteInWindow s e)
  | .proc i out => inferInstanceAs (Decidable (out = .ok → ∀ k ∈ deletes (s.proc i), HasRow k s →
      ∀ j, (s.proc j).payWindow ≠ some k))
  | .env _ => inferInstanceAs (Decidable True)

/-- Every payment in its window still has its row. -/
def RowsInWindow (s : Pool ι World Pc) : Prop :=
  ∀ k j, (s.proc j).payWindow = some k → HasRow k s

/-- **One step keeps the rows**, when no deletion comes in between. -/
theorem rowsInWindow_fire (env : Env) {s : Pool ι World Pc} {e : Event ι Outcome EnvEvent}
    (hI : RowsInWindow s) (hok : NoDeleteInWindow s e) :
    RowsInWindow ((handlers env).fire s e) := by
  intro k j hafter
  cases e with
  | env x => simpa [HasRow, Present] using hI k j (by simpa using hafter)
  | proc i out =>
      rcases payWindow_fire env hafter with hwin | ⟨rfl, hworld, r, hr, -⟩
      · have hrow := hI k j hwin
        show (Keyed.find (step env out (s.proc i) s.world).2.table k).isSome = true
        cases step_row env out (s.proc i) s.world k with
        | keep row => rw [row]; exact hrow
        | insert o a c r at_ key next fresh row => rw [row]; rfl
        | update o a c n at_ key ok next row => rw [row, Option.isSome_map]; exact hrow
        -- the one step that takes a row away is excluded while `j` is in its window
        | delete o at_ key ok next row =>
            exact absurd hwin (hok ok k (by simp [at_, deletes, key]) hrow j)
      · show (Keyed.find (step env out (s.proc j) s.world).2.table k).isSome = true
        rw [hworld, hr]
        rfl

/-- **No phantom payment.**  In every run in which no row is deleted while a
    payment of it is between its SELECT and its UPDATE, a payment that is
    answered 200 has paid a row. -/
theorem pay_order_no_phantom (env : Env) (w : World) (jobs : ι → Job)
    (evs : List (Event ι Outcome EnvEvent))
    (h : (handlers env).RunOk NoDeleteInWindow (initial w jobs) evs) (k : String) :
    NoPhantomPayment env (initial w jobs) evs k := by
  intro pre e post hsplit h200
  subst hsplit
  have h₀ : RowsInWindow (initial w jobs) := fun k j hwin => by simp [initial, Pc.payWindow] at hwin
  have hI := ((handlers env).run_inv_at (fun s e hI hok => rowsInWindow_fire env hI hok) h₀ h).1
  have hrow : HasRow k ((handlers env).run (initial w jobs) pre) := by
    cases e with
    | env x => simp [returns200] at h200
    | proc i out =>
        obtain ⟨o, a, c, n, hpc, ho⟩ := updates_eq_some (returns200_iff.mp h200).2
        exact hI k i (by rw [hpc]; simp [Pc.payWindow, ho])
  refine ⟨hrow, ?_⟩
  rw [Machine.run_concat]
  exact paid_of_returns200 env hrow h200

/-- One `create_order`, a `pay_order` and a `delete_order` of the same order. -/
def payAndDelete : Fin 3 → Job
  | 0 => sampleCreate
  | 1 => samplePay 1
  | 2 => sampleDelete

/-- The deletion after the payment. -/
def deleteAfterPayment : List (Event (Fin 3) Outcome EnvEvent) :=
  schedule (turns [0, 0, 0, 0, 1, 1, 1, 1, 1, 1, 2, 2, 2, 2, 2])

/-- The deletion between the SELECT and the UPDATE of the payment. -/
def deleteDuringPayment : List (Event (Fin 3) Outcome EnvEvent) :=
  schedule (turns [0, 0, 0, 0, 1, 1, 1, 2, 2, 2, 2, 2, 1, 1, 1])

/-- A payment, and then the deletion. -/
theorem pay_order_no_phantom_in_turn :
    (handlers sampleEnv).RunOk NoDeleteInWindow (initial {} payAndDelete) deleteAfterPayment ∧
      NoPhantomPayment sampleEnv (initial {} payAndDelete) deleteAfterPayment
        "ORD17000000007" := by
  have hex : (handlers sampleEnv).RunOk NoDeleteInWindow (initial {} payAndDelete)
      deleteAfterPayment := by decide
  exact ⟨hex, pay_order_no_phantom sampleEnv {} payAndDelete deleteAfterPayment hex
    "ORD17000000007"⟩

/-- The payment of a row deleted in its window is answered 200. -/
theorem payment_of_deleted_row_succeeds :
    (handlers sampleEnv).RunOk CallsSucceed (initial {} payAndDelete) deleteDuringPayment ∧
      ¬ NoPhantomPayment sampleEnv (initial {} payAndDelete) deleteDuringPayment
        "ORD17000000007" := by
  refine ⟨schedule_succeeds _ _ _, fun h => ?_⟩
  have hrow := (h (schedule (turns [0, 0, 0, 0, 1, 1, 1, 2, 2, 2, 2, 2, 1])) (.proc 1 .ok)
    (schedule (turns [1])) rfl (by decide)).1
  revert hrow
  decide

end OrderApi.Orders
