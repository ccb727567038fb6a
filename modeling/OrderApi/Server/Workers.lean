/-
  OrderApi.Server.Workers
  ───────────────────────
  **MANY CONNECTIONS OVER ONE COUNTER.**

  The worker threads as a machine over the shared world, and three rules for
  every interleaving of their calls:

    • `inOrder_run`             every worker keeps the books;
    • `in_flight_eq_standing`   `in_flight_requests` is the sum of what the
                                ledgers have standing, as long as it does not
                                leave the range of an `int`;
    • `ledger_inv`              what every allowed call keeps of a ledger holds
                                of all ledgers.
-/
import OrderApi.Server.Ledger

namespace OrderApi.Server

open OrderApi.Lib
open OrderApi.Lib.Prog
open OrderApi.Crow
open OrderApi.Model

/-! ## §1. The machine. -/

/-- A worker thread: its ledger, its code, and where its order handler stands. -/
abbrev Worker := Proc Op Op.Res Unit Ledger (Option Pc)

/-- The worker threads over the shared world. -/
def server (env : Env) : Machine World Worker Outcome EnvEvent :=
  (interp env).machine Ledger.record EnvEvent.apply

/-- What one step of a worker does: a call returns and is recorded, or something
    happens that the counter and the ledger do not see. -/
inductive Moved (env : Env) (p : Worker) (w : World) (p' : Worker) (w' : World) : Prop where
  | silent (ghost : p'.ghost = p.ghost)
      (inFlight : w'.metrics.inFlightRequests = w.metrics.inFlightRequests)
  | called (a : Atomic) (k : a.Res → Code Unit) (task : p.task = .op (Op.atomic a) k)
      (ghost : p'.ghost = Ledger.record (.atomic a) (a.exec env w).1 p.ghost)
      (world : w' = (a.exec env w).2)

/-- A move in an order handler is a step of the handler. -/
theorem order_exec_step {env : Env} {out : Outcome} {call : OrderCall} {inp : Inputs}
    {cur : Option Pc} {w w' : World} {x : Option Pc ⊕ Reply}
    (h : (interp env).exec out (.order call inp) cur w = (x, w')) :
    ∃ pc, step env out (cur.getD (.enter call inp)) w = (pc, w') ∧
      (x = .inl (some pc) ∨ ∃ reply, pc = .done reply ∧ x = .inr reply) := by
  unfold interp at h
  dsimp only at h
  split at h
  · rename_i reply w'' heq
    cases h
    exact ⟨_, heq, .inr ⟨reply, rfl, rfl⟩⟩
  · rename_i pc w'' hne heq
    cases h
    exact ⟨pc, heq, .inl rfl⟩

/-- What every point of the order handlers leaves alone, a move in one leaves alone. -/
theorem order_exec_frame {α : Type} {g : World → α} {env : Env} {out : Outcome} {call : OrderCall}
    {inp : Inputs} {cur : Option Pc} {w w' : World} {x : Option Pc ⊕ Reply}
    (hg : ∀ pc, g (step env out pc w).2 = g w)
    (h : (interp env).exec out (.order call inp) cur w = (x, w')) : g w' = g w := by
  obtain ⟨pc, hstep, -⟩ := order_exec_step h
  have hpc := hg (cur.getD (.enter call inp))
  rw [hstep] at hpc
  exact hpc

/-- No order handler writes the gauge. -/
theorem order_exec_inFlight {env : Env} {out : Outcome} {call : OrderCall} {inp : Inputs}
    {cur : Option Pc} {w w' : World} {x : Option Pc ⊕ Reply}
    (h : (interp env).exec out (.order call inp) cur w = (x, w')) :
    w'.metrics.inFlightRequests = w.metrics.inFlightRequests := by
  have houter : outerMetrics w'.metrics = outerMetrics w.metrics :=
    order_exec_frame (g := fun w => outerMetrics w.metrics)
      (fun pc => step_outerMetrics env out pc w) h
  show (outerMetrics w'.metrics).inFlightRequests = (outerMetrics w.metrics).inFlightRequests
  rw [houter]

/-- **One step of a worker**: it is through, inside an order handler, out of it, or
    it makes an atomic call. -/
inductive Turned (env : Env) (out : Outcome) (p : Worker) (w : World) (p' : Worker) (w' : World) :
    Prop where
  | idle (task : p.task = .ret ()) (proc : p' = p) (world : w' = w)
  | inside (call : OrderCall) (inp : Inputs) (k : Reply → Code Unit) (cur : Option Pc)
      (task : p.task = .op (Op.order call inp) k)
      (exec : (interp env).exec out (.order call inp) p.cur w = (.inl cur, w'))
      (proc : p' = { p with cur := cur })
  | answered (call : OrderCall) (inp : Inputs) (k : Reply → Code Unit) (reply : Reply)
      (task : p.task = .op (Op.order call inp) k)
      (exec : (interp env).exec out (.order call inp) p.cur w = (.inr reply, w'))
      (proc : p' = ⟨p.ghost, k reply, none⟩)
  | called (a : Atomic) (k : a.Res → Code Unit) (task : p.task = .op (Op.atomic a) k)
      (proc : p' = ⟨Ledger.record (.atomic a) (a.exec env w).1 p.ghost, k (a.exec env w).1, none⟩)
      (world : w' = (a.exec env w).2)

/-- **A worker takes one of these steps.** -/
theorem server_turned (env : Env) (out : Outcome) (p : Worker) (w : World) :
    Turned env out p w ((server env).step out p w).1 ((server env).step out p w).2 := by
  have hstepped := Interp.stepped (interp env) Ledger.record EnvEvent.apply out p w
  change Interp.Stepped _ _ out p w ((server env).step out p w).1
    ((server env).step out p w).2 at hstepped
  cases hstepped with
  | finished u task proc world => exact .idle task proc world
  -- only an order handler takes more than one step
  | inside o k cur task exec proc =>
      cases o with
      | atomic a => cases exec
      | order call inp => exact .inside call inp k cur task exec proc
  | returned o k r task exec proc =>
      cases o with
      | atomic a =>
          obtain ⟨hr, hw⟩ := Prod.mk.inj exec
          cases hr
          exact .called a k task proc hw.symm
      | order call inp => exact .answered call inp k r task exec proc

/-- Seen from the books, it is one of these. -/
theorem server_moved (env : Env) (out : Outcome) (p : Worker) (w : World) :
    Moved env p w ((server env).step out p w).1 ((server env).step out p w).2 := by
  cases server_turned env out p w with
  | idle task proc world =>
      rw [proc, world]
      exact .silent rfl rfl
  | inside call inp k cur task exec proc =>
      refine .silent ?_ (order_exec_inFlight exec)
      rw [proc]
  | answered call inp k reply task exec proc =>
      refine .silent ?_ (order_exec_inFlight exec)
      rw [proc]
  | called a k task proc world =>
      refine .called a k task ?_ world
      rw [proc]

/-- The atomic operation a worker is about to call. -/
def calling (p : Worker) : Option Atomic :=
  match p.task with
  | .op (.atomic a) _ => some a
  | _ => none

/-- A worker that is to make a call. -/
theorem calling_eq_some {p : Worker} {a : Atomic} :
    calling p = some a ↔ ∃ k, p.task = .op (Op.atomic a) k := by
  unfold calling
  constructor
  · intro h
    split at h
    · rename_i a' k htask
      cases h
      exact ⟨k, htask⟩
    · cases h
  · intro h
    obtain ⟨k, htask⟩ := h
    rw [htask]

theorem calling_ret {p : Worker} (h : p.task = .ret ()) : calling p = none := by
  unfold calling
  rw [h]

theorem calling_order {p : Worker} {call : OrderCall} {inp : Inputs} {k : Reply → Code Unit}
    (h : p.task = .op (Op.order call inp) k) : calling p = none := by
  unfold calling
  rw [h]

/-- The world after an atomic operation. -/
theorem server_calling {env : Env} {out : Outcome} {p : Worker} {a : Atomic}
    (h : calling p = some a) (w : World) : ((server env).step out p w).2 = (a.exec env w).2 := by
  obtain ⟨k, htask⟩ := calling_eq_some.mp h
  unfold server Interp.machine
  dsimp only
  rw [htask]
  rfl

/-- Between atomic operations only an order handler moves the world. -/
theorem server_not_calling {α : Type} {g : World → α} {env : Env} {out : Outcome} {w : World}
    (horder : ∀ pc, g (step env out pc w).2 = g w) {p : Worker} (h : calling p = none) :
    g ((server env).step out p w).2 = g w := by
  cases server_turned env out p w with
  | idle task proc world => rw [world]
  | inside call inp k cur task exec proc => exact order_exec_frame horder exec
  | answered call inp k reply task exec proc => exact order_exec_frame horder exec
  | called a k task proc world =>
      rw [calling_eq_some.mpr ⟨k, task⟩] at h
      cases h

/-- **The frame of a worker**: what its atomic operations and the points of the
    order handlers leave alone, every step leaves alone. -/
theorem server_frame {α : Type} {g : World → α} {env : Env} {out : Outcome} {w : World}
    (hatomic : ∀ a : Atomic, g (a.exec env w).2 = g w)
    (horder : ∀ pc, g (step env out pc w).2 = g w) (p : Worker) :
    g ((server env).step out p w).2 = g w := by
  cases hcall : calling p with
  | none => exact server_not_calling horder hcall
  | some a =>
      rw [server_calling hcall]
      exact hatomic a

/-- No worker moves the clock. -/
theorem server_clock (env : Env) (out : Outcome) (p : Worker) (w : World) :
    ((server env).step out p w).2.clock = w.clock :=
  server_frame (g := World.clock) (fun a => by cases a <;> rfl)
    (fun pc => step_clock env out pc w) p

/-- What `ok` says of a call holds of the call this event makes, if it makes one. -/
def AtCalls {ι : Type} (ok : Atomic → Ledger → World → Prop) (s : Pool ι World Worker) :
    Event ι Outcome EnvEvent → Prop
  | .proc i _ => ∀ a ∈ calling (s.proc i), ok a (s.proc i).ghost s.world
  | .env _ => True

instance {ι : Type} (ok : Atomic → Ledger → World → Prop) [∀ a l w, Decidable (ok a l w)]
    (s : Pool ι World Worker) : (e : Event ι Outcome EnvEvent) → Decidable (AtCalls ok s e)
  | .proc i _ => inferInstanceAs (Decidable (∀ a ∈ calling (s.proc i), _))
  | .env _ => isTrue trivial

/-- The call takes `in_flight_requests` out of the range of an `int`: an addition at the
    largest one, or a subtraction at the smallest. -/
def wraps : Atomic → World → Bool
  | .inFlightAdd, w => !decide (IsInt32 (w.metrics.inFlightRequests + 1))
  | .inFlightSub, w => !decide (IsInt32 (w.metrics.inFlightRequests - 1))
  | _, _ => false

/-- The call is not such a call. -/
def NoWrap (a : Atomic) (_ : Ledger) (w : World) : Prop := wraps a w = false

instance (a : Atomic) (l : Ledger) (w : World) : Decidable (NoWrap a l w) :=
  inferInstanceAs (Decidable (_ = _))

theorem noWrap_add {l : Ledger} {w : World} :
    NoWrap .inFlightAdd l w ↔ IsInt32 (w.metrics.inFlightRequests + 1) := by
  simp [NoWrap, wraps]

theorem noWrap_sub {l : Ledger} {w : World} :
    NoWrap .inFlightSub l w ↔ IsInt32 (w.metrics.inFlightRequests - 1) := by
  simp [NoWrap, wraps]

section
variable {ι : Type} {env : Env} {T : Terms}

/-- Every worker keeps the books from here on. -/
def InOrder (env : Env) (T : Terms) (s : Pool ι World Worker) : Prop :=
  ∀ i, wp (books env T) (s.proc i).task (fun _ _ => True) (s.proc i).ghost

/-- A worker about to make a call is allowed to. -/
theorem InOrder.allows {s : Pool ι World Worker} (h : InOrder env T s) {i : ι} {o : Op}
    {k : Op.Res o → Code Unit} (htask : (s.proc i).task = .op o k) :
    Ledger.Allows env T o (s.proc i).ghost := by
  have hi := h i
  rw [htask] at hi
  exact hi.1

theorem InOrder.allows_calling {s : Pool ι World Worker} (h : InOrder env T s) {i : ι} {a : Atomic}
    (hcall : calling (s.proc i) = some a) :
    Ledger.Allows env T (.atomic a) (s.proc i).ghost := by
  obtain ⟨k, htask⟩ := calling_eq_some.mp hcall
  exact h.allows htask

/-- A call that does not wrap moves the counter and the ledger's balance together. -/
theorem exec_balance {a : Atomic} {l : Ledger} {w : World}
    (h : Ledger.Allows env T (.atomic a) l) (hfits : NoWrap a l w) :
    (a.exec env w).2.metrics.inFlightRequests
      = w.metrics.inFlightRequests
        + ((Ledger.record (.atomic a) (a.exec env w).1 l).standing - l.standing) := by
  cases a with
  | received conn req =>
      -- the ledger starts afresh at a balance of 0
      have hzero : l.standing = 0 := h.2
      show w.metrics.inFlightRequests = w.metrics.inFlightRequests + (0 - l.standing)
      omega
  | inFlightAdd =>
      show inc32 w.metrics.inFlightRequests
        = w.metrics.inFlightRequests + (l.standing + 1 - l.standing)
      rw [inc32_exact (noWrap_add.mp hfits)]
      omega
  | inFlightSub =>
      show dec32 w.metrics.inFlightRequests
        = w.metrics.inFlightRequests + (l.standing - 1 - l.standing)
      rw [dec32_exact (noWrap_sub.mp hfits)]
      omega
  | count t =>
      show (t.bump w.metrics).inFlightRequests
        = w.metrics.inFlightRequests + (l.standing - l.standing)
      cases t <;> simp [Tally.bump]
  | _ =>
      show w.metrics.inFlightRequests = w.metrics.inFlightRequests + (l.standing - l.standing)
      omega

/-- The counter is the sum of what stands on the ledgers. -/
def Balanced [Fintype ι] (s : Pool ι World Worker) : Prop :=
  s.world.metrics.inFlightRequests = ∑ i, (s.proc i).ghost.standing

variable [DecidableEq ι]

/-- **One event keeps the books in order.** -/
theorem inOrder_fire {s : Pool ι World Worker} (h : InOrder env T s)
    (e : Event ι Outcome EnvEvent) : InOrder env T ((server env).fire s e) :=
  Interp.wp_fire (interp env) (books env T) EnvEvent.apply e h

/-- **So does a whole run.** -/
theorem inOrder_run {s : Pool ι World Worker} (h : InOrder env T s)
    (evs : List (Event ι Outcome EnvEvent)) : InOrder env T ((server env).run s evs) :=
  Interp.run_wp (interp env) (books env T) EnvEvent.apply evs s h

/-- **One event keeps the gauge balanced**, when it does not wrap. -/
theorem balanced_fire [Fintype ι] {s : Pool ι World Worker} (hin : InOrder env T s)
    (h : Balanced s) {e : Event ι Outcome EnvEvent} (hfits : AtCalls NoWrap s e) :
    Balanced ((server env).fire s e) := by
  unfold Balanced at h ⊢
  cases e with
  | env x =>
      show (x.apply s.world).metrics.inFlightRequests = _
      rw [show (x.apply s.world).metrics = s.world.metrics by cases x <;> rfl]
      exact h
  | proc i out =>
      rw [Machine.fire_proc_world]
      show _ = ∑ j, (Function.update s.proc i _ j).ghost.standing
      -- one summand moves; the call moves the counter by as much
      rw [sum_proc_update (fun p : Worker => p.ghost.standing), ← h]
      cases server_moved env out (s.proc i) s.world with
      | silent ghost inFlight =>
          rw [ghost, inFlight]
          omega
      | called a k task ghost world =>
          rw [ghost, world]
          exact exec_balance (hin.allows task) (hfits a (calling_eq_some.mpr ⟨k, task⟩))

/-- **Conservation**: in every interleaving in which it does not wrap,
    `in_flight_requests` is the sum of what the connections have standing. -/
theorem in_flight_eq_standing [Fintype ι] {s : Pool ι World Worker} (hin : InOrder env T s)
    (h : Balanced s) {evs : List (Event ι Outcome EnvEvent)}
    (hfits : (server env).RunOk (AtCalls NoWrap) s evs) : Balanced ((server env).run s evs) := by
  refine (Machine.run_inv (I := fun s => InOrder env T s ∧ Balanced s) (server env) ?_
    evs s ⟨hin, h⟩ hfits).2
  intro s e hs he
  exact ⟨inOrder_fire hs.1 e, balanced_fire hs.1 hs.2 he⟩

/-- **The ledger rule**: what every allowed call that meets `ok` keeps of a ledger
    holds of every ledger, in every run whose calls meet `ok`. -/
theorem ledger_inv {P : Ledger → Prop} {ok : Atomic → Ledger → World → Prop}
    (hstep : ∀ a l w, Ledger.Allows env T (.atomic a) l → ok a l w → P l →
      P (Ledger.record (.atomic a) (a.exec env w).1 l))
    {s : Pool ι World Worker} (hin : InOrder env T s) (hP : ∀ i, P (s.proc i).ghost)
    {evs : List (Event ι Outcome EnvEvent)} (hok : (server env).RunOk (AtCalls ok) s evs) :
    ∀ i, P (((server env).run s evs).proc i).ghost := by
  -- the books travel along, since `hstep` may use that the call is allowed
  refine (Machine.run_inv (I := fun s => InOrder env T s ∧ ∀ i, P (s.proc i).ghost)
    (server env) ?_ evs s ⟨hin, hP⟩ hok).2
  intro s e hs hcall
  refine ⟨inOrder_fire hs.1 e, ?_⟩
  intro j
  cases e with
  | env x => exact hs.2 j
  | proc i out =>
      by_cases hij : j = i
      · subst hij
        rw [Machine.fire_proc_self]
        cases server_moved env out (s.proc j) s.world with
        | silent ghost inFlight =>
            rw [ghost]
            exact hs.2 j
        | called a k task ghost world =>
            rw [ghost]
            exact hstep a _ _ (hs.1.allows task) (hcall a (calling_eq_some.mpr ⟨k, task⟩)) (hs.2 j)
      · rw [Machine.fire_proc_other _ _ hij]
        exact hs.2 j

/-- The ledger rule without a condition. -/
theorem ledger_inv_all {P : Ledger → Prop}
    (hstep : ∀ a l w, Ledger.Allows env T (.atomic a) l → P l →
      P (Ledger.record (.atomic a) (a.exec env w).1 l))
    {s : Pool ι World Worker} (hin : InOrder env T s) (hP : ∀ i, P (s.proc i).ghost)
    (evs : List (Event ι Outcome EnvEvent)) (i : ι) :
    P (((server env).run s evs).proc i).ghost := by
  have hok : (server env).RunOk (AtCalls fun _ _ _ => True) s evs := by
    apply Machine.runOk_of_forall
    intro s e
    cases e with
    | proc i out => exact fun _ _ => trivial
    | env x => trivial
  exact ledger_inv (fun a l w h _ hl => hstep a l w h hl) hin hP hok i

end

/-- Connections on which nothing has been received yet, over a world. -/
def opened {ι : Type} (svc : Service) (w : World) (visits : ι → List Visit) :
    Pool ι World Worker :=
  { world := w, proc := fun i => ⟨{}, serve svc {} (visits i), none⟩ }

theorem inOrder_opened {ι : Type} (svc : Service) (w : World) (visits : ι → List Visit) :
    InOrder svc.env (crow svc.env) (opened svc w visits) := by
  intro i
  exact wp_serve svc (visits i) {} {} rfl rfl

theorem balanced_opened {ι : Type} [Fintype ι] (svc : Service) {w : World}
    (h : w.metrics.inFlightRequests = 0) (visits : ι → List Visit) :
    Balanced (opened svc w visits) := by
  show w.metrics.inFlightRequests = ∑ i : ι, (0 : Int)
  rw [h, Finset.sum_const_zero]

end OrderApi.Server
