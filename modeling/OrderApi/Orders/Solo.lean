/-
  OrderApi.Orders.Solo
  ────────────────────
  **ONE REQUEST, NOBODY IN BETWEEN.**

  A handler that runs from its entry to its answer with every call ending as a
  `Fate` says: the n-th of its SQLite calls, the n-th of its Redis calls.  Every
  pattern of failures is a fate.

    • `ends_inv`      what every call of a handler keeps holds of its answer;
    • `exists_ends`   every handler that is not lost on entry comes to an answer,
                      also `list_orders` with its loop over the rows;
    • `run_solo`      such a run is one of the pool in which only this request
                      moves.
-/
import OrderApi.Orders.Serial
import Mathlib.Data.List.Pairwise

namespace OrderApi.Orders

open OrderApi.Lib
open OrderApi.Crow
open OrderApi.Model

/-! ## §1. Fates. -/

/-- How the calls of a request end, each kind counted by itself. -/
structure Fate where
  sqlite : Nat → Outcome
  redis : Nat → Outcome

/-- Every call succeeds. -/
def Fate.allOk : Fate := ⟨fun _ => .ok, fun _ => .ok⟩

/-- A request on its way, with the number of calls it has made. -/
structure Flight where
  pc : Pc
  world : World
  sqliteCalls : Nat := 0
  redisCalls : Nat := 0

/-- The points at which a handler calls `sqlite3_prepare_v2` or `sqlite3_step`. -/
def callsSqlite : Pc → Bool
  | .insertPrepare .. => true
  | .insertStep .. => true
  | .getPrepare _ => true
  | .getStep _ => true
  | .payPrepare .. => true
  | .payStep .. => true
  | .updatePrepare .. => true
  | .updateStep .. => true
  | .listPrepare _ => true
  | .listStep .. => true
  | .deletePrepare _ => true
  | .deleteStep _ => true
  | _ => false

/-- How the next call ends.  `sqlite3_changes` cannot fail, and neither can the
    entry of the handler. -/
def Fate.next (f : Fate) (x : Flight) : Outcome :=
  if callsRedis x.pc then f.redis x.redisCalls else f.sqlite x.sqliteCalls

/-- One call. -/
def advance (env : Env) (f : Fate) (x : Flight) : Flight where
  pc := (step env (f.next x) x.pc x.world).1
  world := (step env (f.next x) x.pc x.world).2
  sqliteCalls := x.sqliteCalls + (callsSqlite x.pc).toNat
  redisCalls := x.redisCalls + (callsRedis x.pc).toNat

/-- The request before its handler is entered. -/
def start (job : Job) (w : World) : Flight := { pc := .enter job.call job.inp, world := w }

/-- The request after `n` calls. -/
def flight (env : Env) (f : Fate) (job : Job) (w : World) (n : Nat) : Flight :=
  (advance env f)^[n] (start job w)

/-- The request is answered with `reply` and leaves the world `w'`. -/
def Ends (env : Env) (f : Fate) (job : Job) (w : World) (reply : Reply) (w' : World) : Prop :=
  ∃ n, (flight env f job w n).pc = .done reply ∧ (flight env f job w n).world = w'

section
variable {env : Env} {f : Fate} {job : Job} {w : World}

theorem flight_succ (n : Nat) :
    flight env f job w (n + 1) = advance env f (flight env f job w n) :=
  Function.iterate_succ_apply' _ _ _

/-! ## §2. Rules. -/

/-- What every call keeps holds at every moment. -/
theorem flight_inv {I : Flight → Prop} (hstart : I (start job w))
    (hstep : ∀ x, I x → I (advance env f x)) (n : Nat) : I (flight env f job w n) := by
  induction n with
  | zero => exact hstart
  | succ n ih =>
      rw [flight_succ]
      exact hstep _ ih

/-- **The rule for a request**: a fact about point and world that every call
    keeps, however it ends, holds of the answer. -/
theorem ends_inv {I : Pc → World → Prop} (hstart : I (.enter job.call job.inp) w)
    (hstep : ∀ out pc w, I pc w → I (step env out pc w).1 (step env out pc w).2)
    {reply : Reply} {w' : World} (h : Ends env f job w reply w') : I (.done reply) w' := by
  obtain ⟨n, hpc, rfl⟩ := h
  rw [← hpc]
  exact flight_inv (I := fun x => I x.pc x.world) hstart (fun x hx => hstep _ _ _ hx) n

/-- An answered request stays as it is. -/
theorem flight_done {n : Nat} {reply : Reply} (h : (flight env f job w n).pc = .done reply)
    (m : Nat) : (flight env f job w (n + m)).pc = .done reply ∧
      (flight env f job w (n + m)).world = (flight env f job w n).world := by
  induction m with
  | zero => exact ⟨h, rfl⟩
  | succ m ih =>
      rw [← Nat.add_assoc, flight_succ]
      unfold advance
      rw [ih.1, ih.2]
      exact ⟨rfl, rfl⟩

/-- A request has one answer. -/
theorem Ends.unique {reply reply' : Reply} {w₁ w₂ : World} (h : Ends env f job w reply w₁)
    (h' : Ends env f job w reply' w₂) : reply = reply' ∧ w₁ = w₂ := by
  obtain ⟨n, hpc, rfl⟩ := h
  obtain ⟨m, hpc', rfl⟩ := h'
  have hn := flight_done hpc m
  have hm := flight_done hpc' n
  rw [Nat.add_comm m n] at hm
  refine ⟨?_, hn.2.symm.trans hm.2⟩
  exact Pc.done.inj (hn.1.symm.trans hm.1)

/-- A request that ends on entry. -/
theorem ends_of_enter {reply : Reply} (h : enter env job.inp job.call = .done reply) :
    Ends env f job w reply w :=
  ⟨1, h, rfl⟩

/-- A request that is lost on entry has no answer. -/
theorem not_ends_of_lost (hlost : enter env job.inp job.call = .lost) {reply : Reply} {w' : World} :
    ¬ Ends env f job w reply w' := by
  intro h
  have hstays : Pc.done reply = .enter job.call job.inp ∨ Pc.done reply = .lost := by
    refine ends_inv (I := fun pc _ => pc = .enter job.call job.inp ∨ pc = .lost) (.inl rfl) ?_ h
    rintro out pc w (rfl | rfl)
    · exact .inr hlost
    · exact .inr rfl
  rcases hstays with heq | heq <;> cases heq

/-! ## §3. Every handler comes to an answer. -/

/-- How many rows are still in front of a scan. -/
def rowsAhead (t : Table) (cursor : Nat) : Nat := t.rows.countP (fun r => cursor < r.rowid)

/-- How many calls are still to come, at most. -/
def callsLeft (t : Table) : Pc → Nat
  | .enter .. => t.rows.length + 8
  | .insertPrepare .. => 3
  | .insertStep .. => 2
  | .createCache .. => 1
  | .getCache _ => 3
  | .getPrepare _ => 2
  | .getStep _ => 1
  | .payPrepare .. => 5
  | .payStep .. => 4
  | .updatePrepare .. => 3
  | .updateStep .. => 2
  | .payInvalidate .. => 1
  | .listPrepare _ => t.rows.length + 2
  | .listStep _ cursor _ => rowsAhead t cursor + 1
  | .deletePrepare _ => 4
  | .deleteStep _ => 3
  | .deleteChanges _ => 2
  | .deleteInvalidate _ => 1
  | .done _ => 0
  | .lost => 0

theorem rowsAhead_le (t : Table) (cursor : Nat) : rowsAhead t cursor ≤ t.rows.length :=
  List.countP_le_length

/-- A row that the scan returns is no longer in front of it. -/
theorem rowsAhead_lt {t : Table} {status : Option String} {cursor : Nat} {r : Row}
    (h : t.nextRow status cursor = some r) : rowsAhead t r.rowid < rowsAhead t cursor := by
  have hmem : r ∈ t.rows := List.mem_of_find?_eq_some h
  have hlt : cursor < r.rowid := by
    have hsome := List.find?_some h
    simp only [Bool.and_eq_true, decide_eq_true_eq] at hsome
    exact hsome.1
  have hle : ∀ l : List Row,
      l.countP (fun x => r.rowid < x.rowid) ≤ l.countP (fun x => cursor < x.rowid) := by
    intro l
    refine List.countP_mono_left fun x _ hx => ?_
    simp only [decide_eq_true_eq] at hx ⊢
    omega
  -- the row itself is counted before and not after
  unfold rowsAhead
  obtain ⟨before, after, hrows⟩ := List.append_of_mem hmem
  rw [hrows, List.countP_append, List.countP_append, List.countP_cons_of_neg (by simp),
    List.countP_cons_of_pos (by simpa using hlt)]
  have hbefore := hle before
  have hafter := hle after
  omega

variable (env) in
/-- Every call leaves fewer calls to come. -/
theorem callsLeft_step (out : Outcome) (pc : Pc) (w : World) :
    callsLeft (step env out pc w).2.table (step env out pc w).1 ≤ callsLeft w.table pc - 1 := by
  have hprepare : ∀ next, callsLeft (prepare env out next w).2.table (prepare env out next w).1
      ≤ callsLeft w.table next := by
    intro next
    rw [prepare_table]
    rcases prepare_fst env out next w with hp | hp
    · rw [hp]
    · rw [hp]
      exact Nat.zero_le _
  cases pc with
  | enter call inp =>
      simp only [step]
      cases call <;> simp only [enter] <;> (try split) <;> (try cases ‹Early›) <;>
        simp only [Early.pc, callsLeft] <;> omega
  | insertPrepare o a c => exact hprepare _
  | insertStep o a c => simp only [step]; split <;> simp [callsLeft]
  | createCache o a c => exact Nat.zero_le _
  | getCache o => simp only [step]; split <;> simp [callsLeft]
  | getPrepare o => exact hprepare _
  | getStep o => simp only [step]; split <;> exact Nat.zero_le _
  | payPrepare o n => exact hprepare _
  | payStep o n =>
      simp only [step]
      split
      · split <;> simp [callsLeft]
      · exact Nat.zero_le _
  | updatePrepare o a c n => exact hprepare _
  | updateStep o a c n => simp only [step]; split <;> simp [callsLeft]
  | payInvalidate o a c n => exact Nat.zero_le _
  | listPrepare q =>
      refine (hprepare _).trans ?_
      have hle := rowsAhead_le w.table 0
      simp only [callsLeft]
      omega
  | listStep q cursor arr =>
      -- the loop: a row is returned, or it ends
      simp only [step]
      split
      · next r hr =>
          have hlt := rowsAhead_lt hr
          simp only [callsLeft]
          omega
      · exact Nat.zero_le _
  | deletePrepare o => exact hprepare _
  | deleteStep o => simp only [step]; split <;> simp [callsLeft]
  | deleteChanges o => simp only [step]; split <;> simp [callsLeft]
  | deleteInvalidate o => exact Nat.zero_le _
  | done reply => exact Nat.zero_le _
  | lost => exact Nat.zero_le _

/-- Where no call is left the handler has answered. -/
theorem done_of_callsLeft {t : Table} {pc : Pc} (hpast : pc.past = true)
    (h : callsLeft t pc = 0) : ∃ reply, pc = .done reply := by
  cases pc with
  | done reply => exact ⟨reply, rfl⟩
  | lost => cases hpast
  | _ => simp [callsLeft] at h

/-- From its first step on the handler is past its entry. -/
theorem flight_past (hin : enter env job.inp job.call ≠ .lost) (n : Nat) :
    (flight env f job w (n + 1)).pc.past = true := by
  induction n with
  | zero => exact enter_past env hin
  | succ n ih =>
      rw [flight_succ]
      exact past_step env _ ih _

/-- **Every handler comes to an answer**, whatever becomes of its calls, unless it
    is lost on entry. -/
theorem exists_ends (env : Env) (f : Fate) (job : Job) (w : World)
    (hin : enter env job.inp job.call ≠ .lost) : ∃ reply w', Ends env f job w reply w' := by
  have hleft : ∀ n, callsLeft (flight env f job w n).world.table (flight env f job w n).pc
      ≤ w.table.rows.length + 8 - n := by
    intro n
    induction n with
    | zero => exact Nat.le_refl _
    | succ n ih =>
        rw [flight_succ]
        have hstep := callsLeft_step env (f.next (flight env f job w n))
          (flight env f job w n).pc (flight env f job w n).world
        unfold advance
        dsimp only
        omega
  have hzero := hleft (w.table.rows.length + 8)
  rw [Nat.sub_self] at hzero
  obtain ⟨reply, hreply⟩ := done_of_callsLeft (flight_past hin _) (Nat.le_zero.mp hzero)
  exact ⟨reply, _, _, hreply, rfl⟩

end

/-! ## §4. In the pool. -/

/-- The outcomes a fate deals out, in the order of the calls. -/
def outcomes (env : Env) (f : Fate) (job : Job) (w : World) (n : Nat) : List Outcome :=
  (List.range n).map fun m => f.next (flight env f job w m)

/-- **The run is one of the pool**: only request `i` moves, and its calls end as
    the fate says. -/
theorem run_solo {ι : Type*} [DecidableEq ι] (env : Env) (f : Fate) (job : Job)
    (s : Pool ι World Pc) (i : ι) (hi : s.proc i = .enter job.call job.inp) (n : Nat) :
    let s' := (handlers env).run s ((outcomes env f job s.world n).map (.proc i))
    s'.proc i = (flight env f job s.world n).pc
      ∧ s'.world = (flight env f job s.world n).world
      ∧ ∀ j, j ≠ i → s'.proc j = s.proc j := by
  induction n with
  | zero => exact ⟨hi, rfl, fun j _ => rfl⟩
  | succ n ih =>
      obtain ⟨hpc, hworld, hother⟩ := ih
      have hlast : outcomes env f job s.world (n + 1)
          = outcomes env f job s.world n ++ [f.next (flight env f job s.world n)] := by
        simp [outcomes, List.range_succ]
      dsimp only at hpc hworld hother ⊢
      rw [hlast, List.map_append, List.map_singleton, Machine.run_concat, flight_succ]
      refine ⟨?_, ?_, ?_⟩
      · rw [Machine.fire_proc_self, hpc, hworld]
        rfl
      · rw [Machine.fire_proc_world, hpc, hworld]
        rfl
      · intro j hj
        rw [Machine.fire_proc_other _ _ hj]
        exact hother j hj

end OrderApi.Orders
