/-
  OrderApi.Server.Ops
  ───────────────────
  **WHAT A WORKER THREAD DOES TO SHARED STATE.**

  The code around the handlers (middlewares, probes, Crow's connection) meets
  other threads only in single atomic operations: loads of flags and counters,
  `fetch_add` and `fetch_sub` on `in_flight_requests`, reads of the clock.  Each
  is an `Atomic`.  A handler of `order_routes.cpp` is one operation too, but not
  an atomic one: it runs through its program points call by call, and other
  threads may move in between.
-/
import OrderApi.Lib.Prog
import OrderApi.Model.Steps

namespace OrderApi.Server

open OrderApi.Lib
open OrderApi.Crow
open OrderApi.Model

/-! ## §1. What a connection keeps. -/

/-- `detail::context<Middlewares...>`: the contexts of the four middlewares, of
    which two have a member. -/
structure Ctx where
  /-- `LoggingMiddleware::context::start_time`; the epoch by default. -/
  startTime : Int := 0
  /-- `LifecycleMiddleware::context::counted_inflight`. -/
  countedInflight : Bool := false
  deriving DecidableEq

/-- The members of `Connection` that outlive a request: `res`, `ctx_` and
    `add_keep_alive_`. -/
structure ConnState where
  res : Response := {}
  ctx : Ctx := {}
  addKeepAlive : Bool := false
  deriving DecidableEq

/-! ## §2. Operations. -/

/-- The atomics of `metrics.h`. -/
inductive Counter where
  | totalRequests | ordersCreated | ordersPaid | cacheHits | cacheMisses
  | overloadRejections | shutdownRejections | redisErrors | sqliteErrors
  | inFlightRequests
  | requestDurationMsTotal | requestDurationMsMax | requestDurationSamples
  deriving DecidableEq

/-- The counter in the record. -/
def Counter.read (m : Metrics) : Counter → Int
  | .totalRequests => m.totalRequests
  | .ordersCreated => m.ordersCreated
  | .ordersPaid => m.ordersPaid
  | .cacheHits => m.cacheHits
  | .cacheMisses => m.cacheMisses
  | .overloadRejections => m.overloadRejections
  | .shutdownRejections => m.shutdownRejections
  | .redisErrors => m.redisErrors
  | .sqliteErrors => m.sqliteErrors
  | .inFlightRequests => m.inFlightRequests
  | .requestDurationMsTotal => m.requestDurationMsTotal
  | .requestDurationMsMax => m.requestDurationMsMax
  | .requestDurationSamples => m.requestDurationSamples

/-- The counters the middlewares only ever increment. -/
inductive Tally where
  -- `orders_created`, `orders_paid`, `cache_hits` and the error counters belong to
  -- the handlers
  | totalRequests | overloadRejections | shutdownRejections
  deriving DecidableEq

/-- `fetch_add(1)` on one of them. -/
def Tally.bump (m : Metrics) : Tally → Metrics
  | .totalRequests => { m with totalRequests := inc32 m.totalRequests }
  | .overloadRejections => { m with overloadRejections := inc32 m.overloadRejections }
  | .shutdownRejections => { m with shutdownRejections := inc32 m.shutdownRejections }

/-- One atomic operation of a worker thread.  `received` and `finished` mark the
    moments at which a connection starts on a request and is through with it. -/
inductive Atomic where
  | received (conn : ConnState) (req : Request)
  | finished (sent : Option Response)
  | now
  | loadShuttingDown
  | loadDbReady
  | loadRedisAvailable
  | loadMaxInflight
  | inFlightAdd
  | inFlightSub
  | count (t : Tally)
  | observe (durationMs : Int)
  | load (c : Counter)

/-- What an operation returns. -/
@[reducible] def Atomic.Res : Atomic → Type
  | .received _ _ => Unit
  | .finished _ => Unit
  | .now => Int
  | .loadShuttingDown => Bool
  | .loadDbReady => Bool
  | .loadRedisAvailable => Bool
  | .loadMaxInflight => Int
  | .inFlightAdd => Int
  | .inFlightSub => Unit
  | .count _ => Unit
  | .observe _ => Unit
  | .load _ => Int

/-- `observe_request_duration_ms`, as one operation.  Its `int64_t` sums are unbounded here. -/
def observeRequestDurationMs (d : Int) (m : Metrics) : Metrics :=
  { m with
    requestDurationMsTotal := m.requestDurationMsTotal + d
    requestDurationSamples := m.requestDurationSamples + 1
    requestDurationMsMax := max m.requestDurationMsMax d }

/-- The effect of an operation.  `max_inflight_requests` is stored once, before
    the server starts. -/
def Atomic.exec (env : Env) : (a : Atomic) → World → a.Res × World
  | .received _ _, w => ((), w)
  | .finished _, w => ((), w)
  | .now, w => (w.clock, w)
  | .loadShuttingDown, w => (w.shuttingDown, w)
  | .loadDbReady, w => (w.dbReady, w)
  | .loadRedisAvailable, w => (w.redisAvailable, w)
  | .loadMaxInflight, w => (env.maxInflightRequests, w)
  -- `fetch_add` returns the value before the addition
  | .inFlightAdd, w =>
      (w.metrics.inFlightRequests,
        { w with metrics.inFlightRequests := inc32 w.metrics.inFlightRequests })
  | .inFlightSub, w =>
      ((), { w with metrics.inFlightRequests := dec32 w.metrics.inFlightRequests })
  | .count t, w => ((), { w with metrics := t.bump w.metrics })
  | .observe d, w => ((), { w with metrics := observeRequestDurationMs d w.metrics })
  | .load c, w => (c.read w.metrics, w)

/-- An atomic operation, or a call of an order handler. -/
inductive Op where
  | atomic (a : Atomic)
  | order (call : OrderCall) (inp : Inputs)

/-- What a call returns. -/
@[reducible] def Op.Res : Op → Type
  | .atomic a => a.Res
  | .order _ _ => Reply

/-- The code of a worker thread. -/
abbrev Code (α : Type) := Prog Op Op.Res α

/-- Call an atomic operation. -/
def perform (a : Atomic) : Code a.Res := Prog.call (Op.atomic a)

/-- Call an order handler. -/
def runOrder (call : OrderCall) (inp : Inputs) : Code Reply :=
  Prog.call (Op.order call inp)

/-! ## §3. Executing them. -/

/-- The code of the worker threads over the shared world: an order handler is
    executed point by point. -/
def interp (env : Env) : Interp Op Op.Res World Outcome (Option Pc) where
  start := none
  exec out o cur w :=
    match o with
    | .atomic a => (.inr (a.exec env w).1, (a.exec env w).2)
    | .order call inp =>
        -- a call that is not under way yet starts at the handler's first point
        match step env out (cur.getD (.enter call inp)) w with
        | (.done reply, w') => (.inr reply, w')
        | (pc, w') => (.inl (some pc), w')

end OrderApi.Server
