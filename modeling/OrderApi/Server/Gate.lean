/-
  OrderApi.Server.Gate
  ────────────────────
  **THE GATE IN FRONT OF THE ORDER HANDLERS.**

  One of the five handlers runs for a request only if the request is not for a
  probe path, was checked before shutdown, was counted within the limit and has
  the API key.  Every other request leaves the orders alone, and its answer does
  not depend on them.
-/
import OrderApi.Server.Workers

namespace OrderApi.Server

open OrderApi.Lib
open OrderApi.Lib.Prog
open OrderApi.Crow
open OrderApi.Model

/-! ## §1. What the gate protects. -/

/-- What belongs to the order handlers: the table, the Redis server and the four
    counters of their business. -/
structure OrderData where
  table : Table
  cache : Cache
  ordersCreated : Int
  ordersPaid : Int
  cacheHits : Int
  cacheMisses : Int

/-- The order data of a world. -/
def orderData (w : World) : OrderData where
  table := w.table
  cache := w.cache
  ordersCreated := w.metrics.ordersCreated
  ordersPaid := w.metrics.ordersPaid
  cacheHits := w.metrics.cacheHits
  cacheMisses := w.metrics.cacheMisses

/-- The two worlds differ at most in the contents of the table (with SQLite's
    count of changed rows) and of Redis. -/
structure SameButOrders (w w' : World) : Prop where
  metrics : w.metrics = w'.metrics
  shuttingDown : w.shuttingDown = w'.shuttingDown
  dbReady : w.dbReady = w'.dbReady
  redisAvailable : w.redisAvailable = w'.redisAvailable
  clock : w.clock = w'.clock

/-- No operation of the code around the handlers changes the order data. -/
theorem exec_orderData (env : Env) (a : Atomic) (w : World) :
    orderData (a.exec env w).2 = orderData w := by
  cases a with
  | count t => cases t <;> rfl
  | _ => rfl

/-- None of them sees the table or Redis. -/
theorem exec_sameButOrders (env : Env) (a : Atomic) {w w' : World} (h : SameButOrders w w') :
    (a.exec env w).1 = (a.exec env w').1 ∧ SameButOrders (a.exec env w).2 (a.exec env w').2 := by
  obtain ⟨hmetrics, hdown, hdb, hredis, hclock⟩ := h
  -- each operation reads one component the two worlds agree on
  cases a with
  | now => exact ⟨hclock, hmetrics, hdown, hdb, hredis, hclock⟩
  | loadShuttingDown => exact ⟨hdown, hmetrics, hdown, hdb, hredis, hclock⟩
  | loadDbReady => exact ⟨hdb, hmetrics, hdown, hdb, hredis, hclock⟩
  | loadRedisAvailable => exact ⟨hredis, hmetrics, hdown, hdb, hredis, hclock⟩
  | inFlightAdd =>
      refine ⟨congrArg Metrics.inFlightRequests hmetrics, ?_, hdown, hdb, hredis, hclock⟩
      simp only [Atomic.exec, hmetrics]
  | inFlightSub =>
      refine ⟨rfl, ?_, hdown, hdb, hredis, hclock⟩
      simp only [Atomic.exec, hmetrics]
  | count t => exact ⟨rfl, congrArg (Tally.bump · t) hmetrics, hdown, hdb, hredis, hclock⟩
  | observe d =>
      exact ⟨rfl, congrArg (observeRequestDurationMs d) hmetrics, hdown, hdb, hredis, hclock⟩
  | load counter =>
      exact ⟨congrArg (Counter.read · counter) hmetrics, hmetrics, hdown, hdb, hredis, hclock⟩
  | _ => exact ⟨rfl, hmetrics, hdown, hdb, hredis, hclock⟩

/-! ## §2. In every interleaving. -/

/-- The request of this ledger may be in an order handler. -/
def Ledger.Gated (env : Env) (l : Ledger) : Prop :=
  ∃ req current, l.req = some req ∧ isProbePath req.url = false ∧ l.sawShutdown = some false ∧
    l.current = some current ∧ current ≤ env.maxInflightRequests ∧
    getHeaderValue req.headers "Authorization" = env.apiKey

section
variable {ι : Type} [DecidableEq ι] (svc : Service) (w : World) (visits : ι → List Visit)
  (evs : List (Event ι Outcome EnvEvent)) (i : ι)

/-- The limit a request compares with is `max_inflight_requests`. -/
theorem limit_loaded :
    let s := (server svc.env).run (opened svc w visits) evs
    (s.proc i).ghost.limit = none
      ∨ (s.proc i).ghost.limit = some svc.env.maxInflightRequests := by
  refine ledger_inv_all (P := fun l => l.limit = none ∨ l.limit = some svc.env.maxInflightRequests)
    ?_ (inOrder_opened svc w visits) (fun i => .inl rfl) evs i
  -- `received` forgets the limit of the request before, and the load is the
  -- only way to a new one
  intro a l w _ hl
  cases a with
  | received conn req => exact .inl rfl
  | loadMaxInflight => exact .inr rfl
  | _ => exact hl

/-- A request in an order handler has passed the gate. -/
theorem order_gated {call : OrderCall} {inp : Inputs} {k : Reply → Code Unit}
    (htask : (((server svc.env).run (opened svc w visits) evs).proc i).task
      = .op (Op.order call inp) k) :
    (((server svc.env).run (opened svc w visits) evs).proc i).ghost.Gated svc.env := by
  have hin := inOrder_run (inOrder_opened svc w visits) evs
  obtain ⟨req, hreq, hurl, hup, hwithin, hauth⟩ := hin.allows htask
  obtain ⟨current, hcurrent, hle⟩ := hwithin.le (limit_loaded svc w visits evs i)
  refine ⟨req, current, hreq, hurl, hup, hcurrent, hle, ?_⟩
  simpa [authorized] using hauth

end

/-- A worker that is not in an order handler leaves the order data alone. -/
theorem step_orderData (env : Env) (out : Outcome) (p : Worker) (w : World)
    (h : ∀ call inp k, p.task ≠ .op (Op.order call inp) k) :
    orderData ((server env).step out p w).2 = orderData w := by
  cases server_turned env out p w with
  | idle task proc world => rw [world]
  | inside call inp k cur task exec proc => exact absurd task (h call inp k)
  | answered call inp k reply task exec proc => exact absurd task (h call inp k)
  | called a k task proc world =>
      rw [world]
      exact exec_orderData env a w

/-! ## §3. A request by itself. -/

/-- The gate, as a test of the request and of the state it finds. -/
def Passes (env : Env) (req : Request) (w : World) : Prop :=
  isProbePath req.url = false ∧ w.shuttingDown = false ∧
    inc32 w.metrics.inFlightRequests ≤ env.maxInflightRequests ∧
    getHeaderValue req.headers "Authorization" = env.apiKey

instance (env : Env) (req : Request) (w : World) : Decidable (Passes env req w) :=
  inferInstanceAs (Decidable (_ ∧ _))

/-- Operations of a request that has the server to itself; `H` is what an order
    handler would do. -/
def alone (env : Env) (H : OrderCall → Inputs → World → Reply × World) :
    (o : Op) → World → Op.Res o × World
  | .atomic a, w => a.exec env w
  | .order call inp, w => H call inp w

/-- The call is not one of an order handler. -/
def NotOrder : Op → Prop
  | .atomic _ => True
  | .order _ _ => False

/-- Within a request, the ledger is true to the state the request found. -/
structure Faithful (env : Env) (req : Request) (w₀ : World) (l : Ledger) (w : World) : Prop where
  request : l.req = some req
  shuttingDown : w.shuttingDown = w₀.shuttingDown
  inFlight : Int.bmod w.metrics.inFlightRequests (2 ^ 32)
    = Int.bmod (w₀.metrics.inFlightRequests + l.standing) (2 ^ 32)
  sawShutdown : ∀ b, l.sawShutdown = some b → b = w₀.shuttingDown
  current : ∀ n, l.current = some n → n = inc32 w₀.metrics.inFlightRequests
  limit : l.limit = none ∨ l.limit = some env.maxInflightRequests

/-- The terms inside a request: it does not end here. -/
def within : Terms where
  unmatched l := l.stale = true ∧ l.standing = 0
  settled _ := False

/-- A call leaves the ledger with what the world says. -/
theorem faithful_call {env : Env} {req : Request} {w₀ : World} (a : Atomic) {l : Ledger} {w : World}
    (h : Ledger.Allows env within (.atomic a) l) (hl : Faithful env req w₀ l w) :
    Faithful env req w₀ (Ledger.record (.atomic a) (a.exec env w).1 l) (a.exec env w).2 := by
  obtain ⟨hreq, hdown, hin, hsaw, hcurrent, hlimit⟩ := hl
  cases a with
  -- a request does not start or end inside another one
  | received conn req' =>
      have hnone : l.req = none := h.1
      rw [hreq] at hnone
      cases hnone
  | finished sent => exact h.elim
  | loadShuttingDown =>
      refine ⟨hreq, hdown, hin, ?_, hcurrent, hlimit⟩
      intro b hb
      rw [← Option.some.inj hb]
      exact hdown
  | loadMaxInflight => exact ⟨hreq, hdown, hin, hsaw, hcurrent, .inr rfl⟩
  | inFlightAdd =>
      have hzero : l.standing = 0 := h.1
      refine ⟨hreq, hdown, ?_, hsaw, ?_, hlimit⟩
      · show Int.bmod (inc32 w.metrics.inFlightRequests) (2 ^ 32)
          = Int.bmod (w₀.metrics.inFlightRequests + (l.standing + 1)) (2 ^ 32)
        rw [inc32, Int.bmod_bmod, ← Int.bmod_add_bmod, hin, Int.bmod_add_bmod, Int.add_assoc]
      · intro n hn
        have hn' : inc32 w.metrics.inFlightRequests = n := Option.some.inj hn
        -- nothing stands yet, so the counter is still the one the request found
        rw [← hn', inc32, ← Int.bmod_add_bmod, hin, hzero, Int.bmod_add_bmod, Int.add_zero]
        rfl
  | inFlightSub =>
      refine ⟨hreq, hdown, ?_, hsaw, hcurrent, hlimit⟩
      show Int.bmod (dec32 w.metrics.inFlightRequests) (2 ^ 32)
        = Int.bmod (w₀.metrics.inFlightRequests + (l.standing - 1)) (2 ^ 32)
      rw [dec32, Int.bmod_bmod, ← Int.bmod_sub_bmod, hin, Int.bmod_sub_bmod, Int.add_sub_assoc]
  | count t =>
      have hbump : (t.bump w.metrics).inFlightRequests = w.metrics.inFlightRequests := by
        cases t <;> rfl
      refine ⟨hreq, hdown, ?_, hsaw, hcurrent, hlimit⟩
      show Int.bmod (t.bump w.metrics).inFlightRequests (2 ^ 32) = _
      rw [hbump]
      exact hin
  | _ => exact ⟨hreq, hdown, hin, hsaw, hcurrent, hlimit⟩

/-- An order handler is called only by a request that passes. -/
theorem passes_of_order {env : Env} {req : Request} {w₀ w : World} {l : Ledger}
    (h : l.PassedGate env) (hl : Faithful env req w₀ l w) : Passes env req w₀ := by
  obtain ⟨req', hreq, hurl, hup, hwithin, hauth⟩ := h
  have hsame : req' = req := Option.some.inj (hreq.symm.trans hl.request)
  subst hsame
  -- what was compared with the limit is the counter found, incremented
  obtain ⟨current, hcurrent, hle⟩ := hwithin.le hl.limit
  have hcount := hl.current current hcurrent
  refine ⟨hurl, (hl.sawShutdown false hup).symm, ?_, by simpa [authorized] using hauth⟩
  omega

section
variable (svc : Service) (H : OrderCall → Inputs → World → Reply × World) (c : ConnState)
  (v : Visit) (w : World)

/-- A request that does not pass calls no order handler. -/
theorem dispatch_notOrder (hfail : ¬ Passes svc.env v.req w) :
    (dispatch svc c v).Meets (alone svc.env H) NotOrder w := by
  -- the books of `dispatch` hold whatever the calls return, so also in a run
  -- that has the server to itself; `Faithful` ties what is written in them to `w`
  refine meets_of_wp (J := Faithful svc.env v.req w) ?_
    (wp_dispatch (T := within)
      (l := { req := some v.req, stale := unrouted v.req && c.ctx.countedInflight })
      (fun hstale hzero => ⟨hstale, hzero⟩) rfl rfl rfl) ?_
  · intro o l w' hpre hl
    cases o with
    | atomic a => exact ⟨trivial, faithful_call a hpre hl⟩
    | order call inp => exact absurd (passes_of_order hpre hl) hfail
  · refine ⟨rfl, rfl, ?_, ?_, ?_, .inl rfl⟩
    · show _ = Int.bmod (w.metrics.inFlightRequests + 0) (2 ^ 32)
      rw [Int.add_zero]
    · intro b hb
      cases hb
    · intro n hn
      cases hn

/-- Marking arrival and end changes nothing. -/
theorem eval_exchange :
    (exchange svc c v).eval (alone svc.env H) w = (dispatch svc c v).eval (alone svc.env H) w := by
  unfold exchange
  rw [eval_bind]
  show (dispatch svc c v >>= fun h => _).eval (alone svc.env H) w = _
  rw [eval_bind]
  rfl

/-- A request that does not pass leaves the order data as they are. -/
theorem exchange_orderData (hfail : ¬ Passes svc.env v.req w) :
    orderData ((exchange svc c v).eval (alone svc.env H) w).2 = orderData w := by
  rw [eval_exchange]
  refine eval_inv (I := fun w' => orderData w' = orderData w) ?_
    (dispatch_notOrder svc H c v w hfail) rfl
  intro o w' ho hw
  cases o with
  | atomic a => exact (exec_orderData svc.env a w').trans hw
  | order call inp => exact ho.elim

/-- Its answer, and what becomes of its connection, do not depend on them. -/
theorem exchange_sameAnswer (hfail : ¬ Passes svc.env v.req w) {w' : World}
    (hsame : SameButOrders w w') :
    ((exchange svc c v).eval (alone svc.env H) w).1
      = ((exchange svc c v).eval (alone svc.env H) w').1 := by
  rw [eval_exchange, eval_exchange]
  -- up to the first order handler the two runs go through the same calls, and
  -- there is none
  refine (eval_congr (R := SameButOrders) ?_ (dispatch_notOrder svc H c v w hfail) hsame).1
  intro o w w' ho hw
  cases o with
  | atomic a => exact exec_sameButOrders svc.env a hw
  | order call inp => exact ho.elim

end

/-- **The gate.**  In every interleaving of any connections, a request is in an
    order handler only when it has passed the gate, and a step of a request that
    has not leaves the order data alone.  By itself, a request that fails the
    gate in the state it finds leaves the order data as they are, and its answer
    is the same in every state that differs only in the table and in Redis. -/
theorem order_gate (svc : Service) :
    (∀ (ι : Type) [DecidableEq ι] (w : World) (visits : ι → List Visit)
        (evs : List (Event ι Outcome EnvEvent)) (i : ι),
      let s := (server svc.env).run (opened svc w visits) evs
      (∀ call inp k, (s.proc i).task = .op (Op.order call inp) k → (s.proc i).ghost.Gated svc.env)
        ∧ ∀ out, ¬ (s.proc i).ghost.Gated svc.env →
            orderData ((server svc.env).fire s (.proc i out)).world = orderData s.world)
    ∧ ∀ (H : OrderCall → Inputs → World → Reply × World) (c : ConnState) (v : Visit) (w : World),
        ¬ Passes svc.env v.req w →
          orderData ((exchange svc c v).eval (alone svc.env H) w).2 = orderData w
          ∧ ∀ w', SameButOrders w w' →
              ((exchange svc c v).eval (alone svc.env H) w).1
                = ((exchange svc c v).eval (alone svc.env H) w').1 := by
  refine ⟨?_, ?_⟩
  · intro ι _ w visits evs i s
    have hgated : ∀ call inp k, (s.proc i).task = .op (Op.order call inp) k →
        (s.proc i).ghost.Gated svc.env := by
      intro call inp k htask
      exact order_gated svc w visits evs i htask
    refine ⟨hgated, ?_⟩
    intro out hnot
    rw [Machine.fire_proc_world]
    apply step_orderData
    intro call inp k htask
    exact hnot (hgated call inp k htask)
  · intro H c v w hfail
    refine ⟨exchange_orderData svc H c v w hfail, ?_⟩
    intro w' hsame
    exact exchange_sameAnswer svc H c v w hfail hsame

end OrderApi.Server
