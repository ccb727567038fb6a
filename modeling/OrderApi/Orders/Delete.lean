/-
  OrderApi.Orders.Delete
  ──────────────────────
  **`delete_order` AND `sqlite3_changes`.**

  `delete_order` learns whether its DELETE removed a row from
  `sqlite3_changes(db)`, a second call on a connection all worker threads share.
  The number it reads is the row count of the last write that was made there, its
  own or another request's; of one that failed it is zero.  As long as no other
  write flips that number between zero and non-zero in the meantime
  (`CountUndisturbed`), the answer is about its own DELETE.
-/
import OrderApi.Model.Steps
import Mathlib.Data.Fintype.Basic

namespace OrderApi.Orders

open OrderApi.Lib
open OrderApi.Crow
open OrderApi.Model

/-! ## §1. The law and the condition. -/

section
variable {ι : Type*}

/-- At this event the DELETE of request `i` removes the row `o`. -/
def RemovesRow (i : ι) (o : String) (s : Pool ι World Pc) : Event ι Outcome EnvEvent → Prop
  | .proc j out => j = i ∧ out = .ok ∧ s.proc i = .deleteStep o ∧ HasRow o s
  | .env _ => False

/-- At this event request `i`, a `delete_order`, issues the invalidation of `o`. -/
def IssuesInvalidation (i : ι) (o : String) (s : Pool ι World Pc) :
    Event ι Outcome EnvEvent → Prop
  | .proc j _ => j = i ∧ s.proc i = .deleteInvalidate o
  | .env _ => False

/-- The row count of the write a request is about to make. -/
def rowsTouched (out : Outcome) (w : World) : Pc → Option Nat
  | .insertStep o a c =>
      some (if out = .ok ∧ (w.table.insertOrder (cStr o) a c).isSome then 1 else 0)
  | .updateStep o _ _ _ => some (if out = .ok then w.table.count (cStr o) else 0)
  | .deleteStep o => some (if out = .ok then w.table.count (cStr o) else 0)
  | _ => none

/-- A `delete_order` between its DELETE and its `sqlite3_changes`. -/
def awaitsCount : Pc → Bool
  | .deleteChanges _ => true
  | _ => false

theorem awaitsCount_iff {pc : Pc} : awaitsCount pc = true ↔ ∃ o, pc = .deleteChanges o := by
  cases pc <;> simp [awaitsCount]

/-- While a `delete_order` is between its DELETE and its `sqlite3_changes`, a
    write of another request that touches rows is made only if the count is
    non-zero already, and one that touches none, or fails, only if it is zero. -/
def CountUndisturbed (s : Pool ι World Pc) : Event ι Outcome EnvEvent → Prop
  | .proc j out => ∀ n ∈ rowsTouched out s.world (s.proc j),
      ∀ i, awaitsCount (s.proc i) = true → (n = 0 ↔ s.world.changes = 0)
  | .env _ => True

instance [Fintype ι] (s : Pool ι World Pc) :
    (e : Event ι Outcome EnvEvent) → Decidable (CountUndisturbed s e)
  | .proc j out => inferInstanceAs (Decidable (∀ n ∈ rowsTouched out s.world (s.proc j),
      ∀ i, awaitsCount (s.proc i) = true → (n = 0 ↔ s.world.changes = 0)))
  | .env _ => inferInstanceAs (Decidable True)

/-- `sqlite3_changes` moves only with a write. -/
theorem changes_step (env : Env) (out : Outcome) (pc : Pc) (w : World) :
    (step env out pc w).2.changes = w.changes ∨
      rowsTouched out w pc = some (step env out pc w).2.changes := by
  cases pc with
  | insertStep o a c =>
      refine .inr ?_
      cases out with
      | fail applied => rfl
      | ok =>
          cases hrow : w.table.insertOrder (cStr o) a c with
          | none =>
              simp only [rowsTouched, step, hrow]
              rfl
          | some t => simp [rowsTouched, step, hrow]
  | updateStep o a c n => cases out <;> exact .inr rfl
  | deleteStep o => cases out <;> exact .inr rfl
  | _ =>
      -- no other call makes a write
      cases step_table env out _ w with
      | keep table changes next => exact .inl changes
      | failed at_ => cases at_
      | insert o a c at_ => cases at_
      | update o a c n at_ => cases at_
      | delete o at_ => cases at_

end

variable {ι : Type*} [DecidableEq ι]

/-- **`delete_order(o)` reports its own effect**: request `i` answers 200 if and
    only if its DELETE removed the row, and then it has issued the
    invalidation. -/
structure ReportsOwnEffect (env : Env) (s : Pool ι World Pc)
    (evs : List (Event ι Outcome EnvEvent)) (i : ι) (o : String) : Prop where
  answers : ∀ reply, ((handlers env).run s evs).proc i = .done reply →
    ((Pc.done reply).answer = some 200 ↔ (handlers env).Happened (RemovesRow i o) s evs)
  invalidates : ∀ reply, ((handlers env).run s evs).proc i = .done reply →
    (handlers env).Happened (RemovesRow i o) s evs →
    (handlers env).Happened (IssuesInvalidation i o) s evs

/-! ## §2. One request on its way. -/

/-- What is known of a `delete_order(o)` at each of its points. -/
def DeleteProgress (w : World) (o : String) (removed issued : Prop) : Pc → Prop
  | .enter (.deleteOrder p) _ => p.val = o ∧ ¬ removed
  | .deletePrepare o' => o' = o ∧ ¬ removed
  | .deleteStep o' => o' = o ∧ ¬ removed
  | .deleteChanges o' => o' = o ∧ (w.changes ≠ 0 ↔ removed)
  | .deleteInvalidate o' => o' = o ∧ removed
  | .done reply => ((Pc.done reply).answer = some 200 ↔ removed) ∧ (removed → issued)
  | _ => False

/-- The knowledge only reads the count, and only at `deleteChanges`. -/
theorem DeleteProgress.congr {w w' : World} {o : String} {removed removed' issued issued' : Prop}
    {pc : Pc} (h : DeleteProgress w o removed issued pc)
    (hcount : awaitsCount pc = true → (w'.changes = 0 ↔ w.changes = 0))
    (hremoved : removed' ↔ removed) (hissued : issued' ↔ issued) :
    DeleteProgress w' o removed' issued' pc := by
  rw [propext hremoved, propext hissued]
  cases pc with
  -- the one point at which the count matters
  | deleteChanges o' =>
      refine ⟨h.1, ?_⟩
      rw [← h.2, ne_eq, ne_eq, hcount rfl]
  | enter call inp => cases call <;> exact h
  | _ => exact h

/-- A call of the request itself carries the knowledge to the next point. -/
theorem DeleteProgress.own_step (env : Env) (out : Outcome) {w : World} {o : String}
    (ho : cStr o = o) {removed issued : Prop} {pc : Pc} (h : DeleteProgress w o removed issued pc) :
    DeleteProgress (step env out pc w).2 o
      (removed ∨ (out = .ok ∧ pc = .deleteStep o ∧ (w.table.find o).isSome = true))
      (issued ∨ pc = .deleteInvalidate o) (step env out pc w).1 := by
  cases pc with
  | enter call inp =>
      cases call with
      | deleteOrder p => simpa [DeleteProgress, step, enter] using h
      | _ => exact h.elim
  | deletePrepare o' =>
      obtain ⟨rfl, hno⟩ := h
      cases out <;> simp [DeleteProgress, step, prepare, hno, Pc.answer, errorReply]
  | deleteStep o' =>
      obtain ⟨rfl, hno⟩ := h
      cases out with
      | ok =>
          -- the count is that of the own DELETE
          have hcount : w.table.count o' ≠ 0 ↔ (w.table.find o').isSome = true := by
            rw [ne_eq, Keyed.count_eq_zero, ← ne_eq, Option.ne_none_iff_isSome]
          simpa [DeleteProgress, step, ho, hno] using hcount
      | fail applied => simp [DeleteProgress, step, hno, Pc.answer, errorReply]
  | deleteChanges o' =>
      obtain ⟨rfl, hcount⟩ := h
      simp only [step]
      split
      -- `sqlite3_changes(db) == 0` is answered 404 without an invalidation
      · next hzero =>
          have hno : ¬ removed := by simpa [hzero] using hcount
          simp [DeleteProgress, Pc.answer, errorReply, hno]
      · next hne => simpa [DeleteProgress, hne] using hcount
  | deleteInvalidate o' =>
      obtain ⟨rfl, hyes⟩ := h
      simp only [DeleteProgress, step, hyes, true_or, iff_true, or_true, imp_self, and_true]
      rfl
  | done reply => simpa [DeleteProgress, step] using h
  | _ => exact h.elim

/-- The knowledge holds of every run that does not disturb the count. -/
theorem deleteProgress_run (env : Env) (w : World) (jobs : ι → Job) {i : ι} {o : PathParam}
    (hjob : (jobs i).call = .deleteOrder o) :
    ∀ evs : List (Event ι Outcome EnvEvent),
    (handlers env).RunOk CountUndisturbed (initial w jobs) evs →
    DeleteProgress ((handlers env).run (initial w jobs) evs).world o.val
      ((handlers env).Happened (RemovesRow i o.val) (initial w jobs) evs)
      ((handlers env).Happened (IssuesInvalidation i o.val) (initial w jobs) evs)
      (((handlers env).run (initial w jobs) evs).proc i) := by
  have ho : cStr o.val = o.val := cStr_eq_self o.noNul
  refine (handlers env).run_hist ?_ ?_
  · simp [initial, hjob, DeleteProgress, Machine.not_happened_nil]
  · intro evs e hP _ hok
    rw [Machine.run_concat, propext (Machine.happened_concat _),
      propext (Machine.happened_concat _)]
    generalize (handlers env).run (initial w jobs) evs = s at hP hok ⊢
    cases e with
    | env x => exact hP.congr (by simp) (by simp [RemovesRow]) (by simp [IssuesInvalidation])
    | proc j out =>
        by_cases hj : j = i
        · subst hj
          rw [Machine.fire_proc_self]
          exact (hP.own_step env out ho).congr (fun _ => Iff.rfl)
            (by simp [RemovesRow, HasRow, Present]) (by simp [IssuesInvalidation])
        · rw [Machine.fire_proc_other _ _ (Ne.symm hj)]
          refine hP.congr (fun hawait => ?_) (by simp [RemovesRow, hj])
            (by simp [IssuesInvalidation, hj])
          -- another request: either it makes no write, or its count agrees with ours on
          -- being zero
          rcases changes_step env out (s.proc j) s.world with hsame | htouch
          · rw [Machine.fire_proc_world, handlers_step, hsame]
          · exact hok _ htouch i hawait

/-- **`delete_order` reports its own effect** in every run in which no other
    write flips the change count between its DELETE and its `sqlite3_changes`. -/
theorem delete_order_reports_own_effect (env : Env) (w : World) (jobs : ι → Job)
    (evs : List (Event ι Outcome EnvEvent))
    (h : (handlers env).RunOk CountUndisturbed (initial w jobs) evs) (i : ι) (o : PathParam)
    (hjob : (jobs i).call = .deleteOrder o) :
    ReportsOwnEffect env (initial w jobs) evs i o.val := by
  have hP := deleteProgress_run env w jobs hjob evs h
  constructor
  · intro reply hdone
    rw [hdone] at hP
    exact hP.1
  · intro reply hdone
    rw [hdone] at hP
    exact hP.2

/-! ## §3. Two deletions. -/

/-- One `create_order` and two `delete_order`s of the order it creates. -/
def twoDeletes : Fin 3 → Job
  | 0 => sampleCreate
  | 1 => sampleDelete
  | 2 => sampleDelete

/-- The deletions one after the other. -/
def deletesInTurn : List (Event (Fin 3) Outcome EnvEvent) :=
  schedule (turns [0, 0, 0, 0, 1, 1, 1, 1, 1, 2, 2, 2, 2])

/-- The second DELETE between the DELETE and the `sqlite3_changes` of the first. -/
def deletesOverlapping : List (Event (Fin 3) Outcome EnvEvent) :=
  schedule (turns [0, 0, 0, 0, 1, 1, 1, 2, 2, 2, 1, 2])

/-- Two deletions, one after the other. -/
theorem delete_order_reports_own_effect_in_turn :
    (handlers sampleEnv).RunOk CountUndisturbed (initial {} twoDeletes) deletesInTurn ∧
      ReportsOwnEffect sampleEnv (initial {} twoDeletes) deletesInTurn 1 "ORD17000000007" := by
  have hex : (handlers sampleEnv).RunOk CountUndisturbed (initial {} twoDeletes)
      deletesInTurn := by decide
  exact ⟨hex, delete_order_reports_own_effect sampleEnv {} twoDeletes deletesInTurn hex 1
    ⟨"ORD17000000007", by decide⟩ rfl⟩

/-- The request that removed the row answers 404: the count it reads is that of
    the other DELETE. -/
theorem overlapping_delete_misreported :
    (handlers sampleEnv).RunOk CallsSucceed (initial {} twoDeletes) deletesOverlapping ∧
      ¬ ReportsOwnEffect sampleEnv (initial {} twoDeletes) deletesOverlapping 1
        "ORD17000000007" := by
  refine ⟨schedule_succeeds _ _ _, fun h => ?_⟩
  have hremoved : (handlers sampleEnv).Happened (RemovesRow 1 "ORD17000000007")
      (initial {} twoDeletes) deletesOverlapping :=
    ⟨schedule (turns [0, 0, 0, 0, 1, 1]), .proc 1 .ok, schedule (turns [2, 2, 2, 1, 2]), rfl, rfl,
      rfl, rfl, by decide⟩
  have h200 := (h.answers _ rfl).mpr hremoved
  revert h200
  decide

end OrderApi.Orders
