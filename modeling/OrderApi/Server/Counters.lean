/-
  OrderApi.Server.Counters
  ────────────────────────
  **WHAT THE COUNTER LINES COUNT.**

  Nine lines of `/metrics` are `std::atomic<int>`s that are only ever
  incremented.  `increments` reads off the source which of them an event of the
  server adds 1 to; a counter is the number of these additions modulo 2^32, as a
  signed number.  So, over runs of any length:

    • `counters_count_iff`    the counters count, never go down, and the sum of hits
                              and misses stays within an `int`, exactly as long as
                              each of them has been incremented less than 2^31
                              times and the two together have;
    • `total_requests_wraps`  2^31 requests later `total_requests` is -2^31.
-/
import OrderApi.Server.InFlight

namespace OrderApi.Server

open OrderApi.Lib
open OrderApi.Crow
open OrderApi.Model

/-! ## §1. The counters. -/

/-- The counters of events in `metrics.h`. -/
inductive EventCounter where
  | totalRequests | ordersCreated | ordersPaid | cacheHits | cacheMisses
  | overloadRejections | shutdownRejections | redisErrors | sqliteErrors
  deriving DecidableEq

namespace EventCounter

/-- The counter its line of `/metrics` loads. -/
def loaded : EventCounter → Counter
  | .totalRequests => .totalRequests
  | .ordersCreated => .ordersCreated
  | .ordersPaid => .ordersPaid
  | .cacheHits => .cacheHits
  | .cacheMisses => .cacheMisses
  | .overloadRejections => .overloadRejections
  | .shutdownRejections => .shutdownRejections
  | .redisErrors => .redisErrors
  | .sqliteErrors => .sqliteErrors

/-- Its value. -/
def read (m : Metrics) (c : EventCounter) : Int := c.loaded.read m

/-- `fetch_add(1)`. -/
def fetchAdd (m : Metrics) : EventCounter → Metrics
  | .totalRequests => { m with totalRequests := inc32 m.totalRequests }
  | .ordersCreated => { m with ordersCreated := inc32 m.ordersCreated }
  | .ordersPaid => { m with ordersPaid := inc32 m.ordersPaid }
  | .cacheHits => { m with cacheHits := inc32 m.cacheHits }
  | .cacheMisses => { m with cacheMisses := inc32 m.cacheMisses }
  | .overloadRejections => { m with overloadRejections := inc32 m.overloadRejections }
  | .shutdownRejections => { m with shutdownRejections := inc32 m.shutdownRejections }
  | .redisErrors => { m with redisErrors := inc32 m.redisErrors }
  | .sqliteErrors => { m with sqliteErrors := inc32 m.sqliteErrors }

theorem read_fetchAdd (m : Metrics) (c c' : EventCounter) :
    c.read (c'.fetchAdd m) = if c' = c then inc32 (c.read m) else c.read m := by
  cases c <;> cases c' <;> rfl

/-- Several of them, one after the other: each counter goes up once for each time it is
    in the list. -/
theorem read_fetchAdds (c : EventCounter) (cs : List EventCounter) (m : Metrics) :
    c.read (cs.foldl fetchAdd m) = inc32^[cs.count c] (c.read m) := by
  induction cs generalizing m with
  | nil => rfl
  | cons c' cs ih =>
      rw [List.foldl_cons, ih, read_fetchAdd, List.count_cons]
      by_cases h : c' = c
      · rw [if_pos h, if_pos (by simpa using h), Function.iterate_succ_apply]
      · rw [if_neg h, if_neg (by simpa using h), Nat.add_zero]

end EventCounter

/-! ## §2. Who increments them. -/

/-- The counter of a middleware. -/
def Tally.counter : Tally → EventCounter
  | .totalRequests => .totalRequests
  | .overloadRejections => .overloadRejections
  | .shutdownRejections => .shutdownRejections

/-- The increments of a prepare call. -/
def prepareAdds : Outcome → List EventCounter
  | .ok => []
  | .fail _ => [.sqliteErrors]

/-- The increments around a Redis command that only writes. -/
def redisWriteAdds (env : Env) (out : Outcome) : List EventCounter :=
  if env.redis then
    match out with
    | .ok => []
    | .fail _ => [.redisErrors]
  else [.redisErrors]

/-- The increments of `try_get_cached_order`. -/
def lookupAdds (env : Env) (out : Outcome) (orderNo : String) (w : World) : List EventCounter :=
  if env.redis then
    match out with
    | .ok =>
        if (w.cache.get w.clock (cacheKey orderNo)).isSome then [.cacheHits] else [.cacheMisses]
    | .fail _ => [.cacheMisses, .redisErrors]
  else [.redisErrors]

/-- The increments an order handler makes at a program point. -/
def handlerAdds (env : Env) (out : Outcome) : Pc → World → List EventCounter
  | .insertPrepare _ _ _, _ => prepareAdds out
  | .insertStep o amount now, w =>
      if out = .ok ∧ (w.table.insertOrder (cStr o) amount now).isSome then [.ordersCreated]
      else [.sqliteErrors]
  | .createCache _ _ _, _ => redisWriteAdds env out
  | .getCache o, w => lookupAdds env out o w
  | .getPrepare _, _ => prepareAdds out
  | .payPrepare _ _, _ => prepareAdds out
  | .updatePrepare _ _ _ _, _ => prepareAdds out
  | .updateStep _ _ _ _, _ => if out = .ok then [.ordersPaid] else [.sqliteErrors]
  | .payInvalidate _ _ _ _, _ => redisWriteAdds env out
  | .listPrepare _, _ => prepareAdds out
  | .deletePrepare _, _ => prepareAdds out
  | .deleteInvalidate _, _ => redisWriteAdds env out
  -- `get_order`, `list_orders` and `delete_order` do not count a failed step
  | _, _ => []

section
variable {env : Env} {out : Outcome} {w : World}

theorem prepare_metrics (next : Pc) :
    (prepare env out next w).2.metrics
      = (prepareAdds out).foldl EventCounter.fetchAdd w.metrics := by
  cases out <;> rfl

/-- A Redis command counts its failure. -/
theorem redisWrite_metrics {f : World → World} (hf : ∀ w, (f w).metrics = w.metrics) :
    (redisWrite env out f w).metrics
      = (redisWriteAdds env out).foldl EventCounter.fetchAdd w.metrics := by
  unfold redisWrite redisWriteAdds
  by_cases hredis : env.redis = true
  · rw [if_pos hredis, if_pos hredis]
    cases out with
    | ok => exact hf w
    | fail applied =>
        cases applied with
        | false => rfl
        | true =>
            show { (f w).metrics with redisErrors := inc32 (f w).metrics.redisErrors } = _
            rw [hf w]
            rfl
  · rw [if_neg hredis, if_neg hredis]
    rfl

/-- A lookup counts a hit or a miss, and a failure. -/
theorem lookup_metrics (orderNo : String) :
    (tryGetCachedOrder env out orderNo w).2.metrics
      = (lookupAdds env out orderNo w).foldl EventCounter.fetchAdd w.metrics := by
  unfold tryGetCachedOrder lookupAdds
  by_cases hredis : env.redis = true
  · rw [if_pos hredis, if_pos hredis]
    cases out with
    | ok => cases w.cache.get w.clock (cacheKey orderNo) <;> rfl
    | fail applied => rfl
  · rw [if_neg hredis, if_neg hredis]
    rfl

/-- **What a handler does to the metrics**: these increments and nothing else. -/
theorem step_metrics (pc : Pc) :
    (step env out pc w).2.metrics
      = (handlerAdds env out pc w).foldl EventCounter.fetchAdd w.metrics := by
  cases pc with
  | insertPrepare o amount now => exact prepare_metrics _
  | getPrepare o => exact prepare_metrics _
  | payPrepare o now => exact prepare_metrics _
  | updatePrepare o amount createdAt now => exact prepare_metrics _
  | listPrepare query => exact prepare_metrics _
  | deletePrepare o => exact prepare_metrics _
  | createCache o amount now => exact redisWrite_metrics fun _ => rfl
  | payInvalidate o amount createdAt now => exact redisWrite_metrics fun _ => rfl
  | deleteInvalidate o => exact redisWrite_metrics fun _ => rfl
  | getCache o =>
      have hlookup : (tryGetCachedOrder env out o w).2.metrics = _ := lookup_metrics o
      show (step env out (.getCache o) w).2.metrics
        = (lookupAdds env out o w).foldl EventCounter.fetchAdd w.metrics
      rw [← hlookup]
      unfold step
      dsimp only
      split
      · rename_i heq
        rw [heq]
      · rename_i heq
        rw [heq]
  | insertStep o amount now =>
      unfold step handlerAdds
      dsimp only
      cases out with
      | ok => cases w.table.insertOrder (cStr o) amount now <;> rfl
      | fail applied => rfl
  | updateStep o amount createdAt now =>
      unfold step handlerAdds
      dsimp only
      cases out <;> rfl
  -- the other points count nothing
  | enter call inp => rfl
  | getStep o =>
      unfold step
      dsimp only
      split <;> rfl
  | payStep o now =>
      unfold step
      dsimp only
      split
      · split <;> rfl
      · rfl
  | listStep query cursor arr =>
      unfold step
      dsimp only
      split <;> rfl
  | deleteStep o => cases out <;> rfl
  | deleteChanges o =>
      unfold step
      dsimp only
      split <;> rfl
  | done reply => rfl
  | lost => rfl

end

/-- The counters a step of a worker increments. -/
def workerAdds (env : Env) (out : Outcome) (p : Worker) (w : World) : List EventCounter :=
  match p.task with
  | .op (.atomic (.count t)) _ => [t.counter]
  | .op (.order call inp) _ => handlerAdds env out (p.cur.getD (.enter call inp)) w
  | _ => []

/-- The counters an event of the server increments. -/
def increments {ι : Type} (env : Env) (s : Pool ι World Worker) :
    Event ι Outcome EnvEvent → List EventCounter
  | .proc i out => workerAdds env out (s.proc i) s.world
  | .env _ => []

/-- An atomic operation increments a counter only by `count`. -/
theorem exec_read {env : Env} {out : Outcome} {p : Worker} {a : Atomic} {k : a.Res → Code Unit}
    (h : p.task = .op (Op.atomic a) k) (w : World) (c : EventCounter) :
    c.read (a.exec env w).2.metrics
      = inc32^[(workerAdds env out p w).count c] (c.read w.metrics) := by
  unfold workerAdds
  rw [h]
  cases a with
  | count t =>
      show c.read (t.bump w.metrics) = inc32^[[t.counter].count c] (c.read w.metrics)
      rw [← EventCounter.read_fetchAdds]
      cases t <;> rfl
  | _ => cases c <;> rfl

/-- A move inside an order handler increments what the handler does at its point. -/
theorem order_read {env : Env} {out : Outcome} {p : Worker} {call : OrderCall} {inp : Inputs}
    {k : Reply → Code Unit} {x : Option Pc ⊕ Reply} {w w' : World}
    (h : p.task = .op (Op.order call inp) k)
    (hexec : (interp env).exec out (.order call inp) p.cur w = (x, w')) (c : EventCounter) :
    c.read w'.metrics = inc32^[(workerAdds env out p w).count c] (c.read w.metrics) := by
  obtain ⟨pc, hstep, -⟩ := order_exec_step hexec
  have hmetrics : (step env out (p.cur.getD (.enter call inp)) w).2.metrics = _ :=
    step_metrics (p.cur.getD (.enter call inp))
  rw [hstep] at hmetrics
  unfold workerAdds
  rw [h, hmetrics]
  exact EventCounter.read_fetchAdds c _ _

/-- **One event of the server**: every counter goes up by its increments. -/
theorem fire_read {ι : Type} [DecidableEq ι] (env : Env) (s : Pool ι World Worker)
    (e : Event ι Outcome EnvEvent) (c : EventCounter) :
    c.read ((server env).fire s e).world.metrics
      = inc32^[(increments env s e).count c] (c.read s.world.metrics) := by
  cases e with
  | env x => cases x <;> rfl
  | proc i out =>
      rw [Machine.fire_proc_world]
      show _ = inc32^[(workerAdds env out (s.proc i) s.world).count c] (c.read s.world.metrics)
      cases server_turned env out (s.proc i) s.world with
      | idle task proc world =>
          rw [world]
          unfold workerAdds
          rw [task]
          rfl
      | inside call inp k cur task exec proc => exact order_read task exec c
      | answered call inp k reply task exec proc => exact order_read task exec c
      | called a k task proc world =>
          rw [world]
          exact exec_read task s.world c

/-! ## §3. Runs. -/

/-- Increments add up, in 32 bits. -/
theorem inc32_bmod (n k : Nat) :
    inc32^[k] (Int.bmod n (2 ^ 32)) = Int.bmod ((n + k : Nat) : Int) (2 ^ 32) := by
  induction k generalizing n with
  | zero => rw [Function.iterate_zero_apply, Nat.add_zero]
  | succ k ih =>
      have hone : inc32 (Int.bmod n (2 ^ 32)) = Int.bmod ((n + 1 : Nat) : Int) (2 ^ 32) := by
        unfold inc32
        rw [Int.bmod_add_bmod, Int.natCast_add]
        rfl
      rw [Function.iterate_succ_apply, hone, ih, Nat.add_right_comm, Nat.add_assoc]

section
variable {ι : Type} [DecidableEq ι] (env : Env) (c : EventCounter)

/-- The increments of a counter over a run. -/
def incrementsIn : Pool ι World Worker → List (Event ι Outcome EnvEvent) → Nat
  | _, [] => 0
  | s, e :: es => (increments env s e).count c + incrementsIn ((server env).fire s e) es

/-- The increments of two runs, one after the other. -/
theorem incrementsIn_append (s : Pool ι World Worker) (evs more : List (Event ι Outcome EnvEvent)) :
    incrementsIn env c s (evs ++ more)
      = incrementsIn env c s evs + incrementsIn env c ((server env).run s evs) more := by
  induction evs generalizing s with
  | nil => exact (Nat.zero_add _).symm
  | cons e es ih =>
      show (increments env s e).count c + incrementsIn env c ((server env).fire s e) (es ++ more)
        = (increments env s e).count c + incrementsIn env c ((server env).fire s e) es + _
      rw [ih, Nat.add_assoc]
      rfl

/-- **A counter shows what was added to it**, in 32 bits; the induction is on the run. -/
theorem read_run_from (evs : List (Event ι Outcome EnvEvent)) {s : Pool ι World Worker} {n : Nat}
    (h : c.read s.world.metrics = Int.bmod n (2 ^ 32)) :
    c.read ((server env).run s evs).world.metrics
      = Int.bmod ((n + incrementsIn env c s evs : Nat) : Int) (2 ^ 32) := by
  induction evs generalizing s n with
  | nil => exact h
  | cons e es ih =>
      have hfire : c.read ((server env).fire s e).world.metrics
          = Int.bmod ((n + (increments env s e).count c : Nat) : Int) (2 ^ 32) := by
        rw [fire_read, h, inc32_bmod]
      rw [Machine.run_cons, ih hfire, Nat.add_assoc]
      rfl

/-- **Modulo 2^32**, every counter is the number of its increments. -/
theorem read_run {s : Pool ι World Worker} (hs : s.world.metrics = {})
    (evs : List (Event ι Outcome EnvEvent)) :
    c.read ((server env).run s evs).world.metrics
      = Int.bmod (incrementsIn env c s evs) (2 ^ 32) := by
  have hstart : c.read s.world.metrics = Int.bmod (0 : Nat) (2 ^ 32) := by
    rw [hs]
    cases c <;> rfl
  rw [read_run_from env c evs hstart, Nat.zero_add]

end

/-- What fits in an `int`. -/
def InInt (x : Int) : Prop := -2 ^ 31 ≤ x ∧ x < 2 ^ 31

/-- An `int` shows a count that it can hold. -/
theorem bmod_eq_iff (n : Nat) : Int.bmod n (2 ^ 32) = n ↔ n < 2 ^ 31 := by
  constructor
  · intro h
    have hlt : Int.bmod n (2 ^ 32) < ((2 ^ 32 : Nat) + 1) / 2 := Int.bmod_lt (by decide)
    rw [h] at hlt
    omega
  · intro h
    apply Int.bmod_eq_of_le_mul_two
    · omega
    · omega

section
variable {ι : Type} [DecidableEq ι]

/-- The counters count: at every moment of the run each is the number of its
    increments so far, it does not go down from there on, and the hits of one moment
    and the misses of another have a sum that fits in an `int`. -/
structure Counting (env : Env) (s : Pool ι World Worker) (evs : List (Event ι Outcome EnvEvent)) :
    Prop where
  counts : ∀ pre post, evs = pre ++ post → ∀ c : EventCounter,
    c.read ((server env).run s pre).world.metrics = incrementsIn env c s pre
  grows : ∀ pre mid post, evs = pre ++ mid ++ post → ∀ c : EventCounter,
    c.read ((server env).run s pre).world.metrics
      ≤ c.read ((server env).run s (pre ++ mid)).world.metrics
  /-- C++ does not say which of the two is loaded first. -/
  sum : ∀ pre post pre' post', evs = pre ++ post → evs = pre' ++ post' →
    InInt (((server env).run s pre).world.metrics.cacheHits
      + ((server env).run s pre').world.metrics.cacheMisses)

/-- A shorter run has no more increments. -/
theorem incrementsIn_le (env : Env) (c : EventCounter) (s : Pool ι World Worker)
    {evs pre post : List (Event ι Outcome EnvEvent)} (h : evs = pre ++ post) :
    incrementsIn env c s pre ≤ incrementsIn env c s evs := by
  rw [h, incrementsIn_append]
  omega

/-- **A counter at one moment**: it is the number of its increments as long as these
    are less than 2^31. -/
theorem read_eq_iff {env : Env} {s : Pool ι World Worker} (hs : s.world.metrics = {})
    (evs : List (Event ι Outcome EnvEvent)) (c : EventCounter) :
    c.read ((server env).run s evs).world.metrics = incrementsIn env c s evs
      ↔ incrementsIn env c s evs < 2 ^ 31 := by
  rw [read_run env c hs, bmod_eq_iff]

/-- A run with exact counters made few increments. -/
theorem Counting.bounded {env : Env} {s : Pool ι World Worker} (hs : s.world.metrics = {})
    {evs : List (Event ι Outcome EnvEvent)} (h : Counting env s evs) :
    (∀ c, incrementsIn env c s evs < 2 ^ 31)
      ∧ incrementsIn env .cacheHits s evs + incrementsIn env .cacheMisses s evs < 2 ^ 31 := by
  have hall : evs = evs ++ [] := (List.append_nil evs).symm
  have hcounts : ∀ c : EventCounter, c.read ((server env).run s evs).world.metrics
      = incrementsIn env c s evs := h.counts evs [] hall
  refine ⟨fun c => (read_eq_iff hs evs c).mp (hcounts c), ?_⟩
  -- the sum of both at the end of the run
  have hsum := (h.sum evs [] evs [] hall hall).2
  have hhits : ((server env).run s evs).world.metrics.cacheHits = _ := hcounts .cacheHits
  have hmisses : ((server env).run s evs).world.metrics.cacheMisses = _ := hcounts .cacheMisses
  rw [hhits, hmisses] at hsum
  omega

/-- Few increments are counted exactly. -/
theorem counting_of_bounded {env : Env} {s : Pool ι World Worker} (hs : s.world.metrics = {})
    {evs : List (Event ι Outcome EnvEvent)} (hcounters : ∀ c, incrementsIn env c s evs < 2 ^ 31)
    (hsum : incrementsIn env .cacheHits s evs + incrementsIn env .cacheMisses s evs < 2 ^ 31) :
    Counting env s evs := by
  have hcounts : ∀ pre post, evs = pre ++ post → ∀ c : EventCounter,
      c.read ((server env).run s pre).world.metrics = incrementsIn env c s pre := by
    intro pre post hevs c
    rw [read_eq_iff hs]
    exact Nat.lt_of_le_of_lt (incrementsIn_le env c s hevs) (hcounters c)
  refine ⟨hcounts, ?_, ?_⟩
  · intro pre mid post hevs c
    rw [hcounts pre (mid ++ post) (by rw [hevs, List.append_assoc]) c,
      hcounts (pre ++ mid) post hevs c]
    exact Int.ofNat_le.mpr (incrementsIn_le env c s rfl)
  · intro pre post pre' post' hevs hevs'
    have hhits : ((server env).run s pre).world.metrics.cacheHits = _ :=
      hcounts pre post hevs .cacheHits
    have hmisses : ((server env).run s pre').world.metrics.cacheMisses = _ :=
      hcounts pre' post' hevs' .cacheMisses
    have hle := incrementsIn_le env .cacheHits s hevs
    have hle' := incrementsIn_le env .cacheMisses s hevs'
    rw [hhits, hmisses]
    unfold InInt
    omega

/-- **Counters count until they overflow.**  From startup, over a run of any length: at
    its end a counter is the number of its increments if and only if these are less
    than 2^31; and over the whole run the counter lines of `/metrics` are these numbers,
    never go down, and the sum for the hit ratio stays within an `int`, if and only if no
    counter has been incremented 2^31 times and hits and misses together have not been
    either. -/
theorem counters_count_iff (env : Env) (s : Pool ι World Worker) (hs : s.world.metrics = {})
    (evs : List (Event ι Outcome EnvEvent)) :
    (∀ c : EventCounter, c.read ((server env).run s evs).world.metrics = incrementsIn env c s evs
        ↔ incrementsIn env c s evs < 2 ^ 31)
      ∧ (Counting env s evs ↔
          (∀ c, incrementsIn env c s evs < 2 ^ 31)
            ∧ incrementsIn env .cacheHits s evs + incrementsIn env .cacheMisses s evs
              < 2 ^ 31) := by
  refine ⟨read_eq_iff hs evs, ?_⟩
  constructor
  · intro h
    exact h.bounded hs
  · intro h
    exact counting_of_bounded hs h.1 h.2

end

/-! ## §4. A run that is long enough. -/

/-- Any number of connections, each of which asks for `/nowhere` once. -/
def asking : Pool Nat World Worker := opened sampleService {} fun _ => [⟨unroutedRequest, {}⟩]

/-- The first `n` of them, one after the other. -/
def served (n : Nat) : List (Event Nat Outcome EnvEvent) :=
  (List.range n).flatMap fun i => List.replicate 5 (.proc i .ok)

theorem served_succ (n : Nat) : served (n + 1) = served n ++ List.replicate 5 (.proc n .ok) := by
  unfold served
  rw [List.range_succ, List.flatMap_append, List.flatMap_singleton]

/-- What such a connection does, call by call. -/
theorem unrouted_code : ∃ sent, serve sampleService {} [⟨unroutedRequest, {}⟩]
    = .op (.atomic (.received {} unroutedRequest)) fun _ => .op (.atomic .now) fun (t : Int) =>
        .op (.atomic (.count .totalRequests)) fun _ => .op (.atomic (.observe (t - 0))) fun _ =>
        .op (.atomic (.finished sent)) fun _ => .ret () := by
  have hrule : (handleInitial router unroutedRequest {}).1.ruleIndex = 0 := by decide +kernel
  unfold serve exchange dispatch
  dsimp only
  rw [if_pos hrule]
  exact ⟨_, rfl⟩

/-- A worker after a call that it was about to make. -/
theorem fire_called {ι : Type} [DecidableEq ι] (env : Env) {s : Pool ι World Worker} {i : ι}
    {l : Ledger} {a : Atomic} {k : a.Res → Code Unit} {cur : Option Pc}
    (h : s.proc i = ⟨l, .op (Op.atomic a) k, cur⟩) (out : Outcome) :
    ((server env).fire s (.proc i out)).proc i
      = ⟨Ledger.record (.atomic a) (a.exec env s.world).1 l, k (a.exec env s.world).1, none⟩ := by
  rw [Machine.fire_proc_self, h]
  rfl

/-- One request, from its first call to its last: it is counted once. -/
theorem asking_request {s : Pool Nat World Worker} {i : Nat} (h : s.proc i = asking.proc i) :
    incrementsIn sampleEnv .totalRequests s (List.replicate 5 (.proc i .ok)) = 1
      ∧ (((server sampleEnv).run s (List.replicate 5 (.proc i .ok))).proc i).ghost.req = none := by
  obtain ⟨sent, hcode⟩ := unrouted_code
  have h₀ : s.proc i = ⟨{}, serve sampleService {} [⟨unroutedRequest, {}⟩], none⟩ := h
  rw [hcode] at h₀
  have h₁ := fire_called sampleEnv h₀ .ok
  have h₂ := fire_called sampleEnv h₁ .ok
  have h₃ := fire_called sampleEnv h₂ .ok
  have h₄ := fire_called sampleEnv h₃ .ok
  have h₅ := fire_called sampleEnv h₄ .ok
  refine ⟨?_, ?_⟩
  · dsimp only [List.replicate, incrementsIn, increments]
    unfold workerAdds
    rw [h₀, h₁, h₂, h₃, h₄]
    rfl
  · dsimp only [List.replicate, Machine.run_cons, Machine.run_nil]
    rw [h₅]
    rfl

/-- After `n` requests: they are counted, none is in progress, and the other
    connections have not moved. -/
theorem asking_run (n : Nat) :
    incrementsIn sampleEnv .totalRequests asking (served n) = n
      ∧ (∀ i, (((server sampleEnv).run asking (served n)).proc i).ghost.req = none)
      ∧ ∀ i, n ≤ i → ((server sampleEnv).run asking (served n)).proc i = asking.proc i := by
  induction n with
  | zero => exact ⟨rfl, fun _ => rfl, fun _ _ => rfl⟩
  | succ n ih =>
      obtain ⟨hcount, hidle, hrest⟩ := ih
      obtain ⟨hone, hdone⟩ := asking_request (hrest n (Nat.le_refl n))
      have hothers : ∀ i, i ≠ n →
          (((server sampleEnv).run ((server sampleEnv).run asking (served n))
            (List.replicate 5 (.proc n .ok))).proc i)
          = ((server sampleEnv).run asking (served n)).proc i := by
        intro i hi
        refine (server sampleEnv).run_proc_other ?_ _
        intro out hmem
        cases List.eq_of_mem_replicate hmem
        exact hi rfl
      rw [served_succ, incrementsIn_append, (server sampleEnv).run_append, hcount, hone]
      refine ⟨rfl, ?_, ?_⟩
      · intro i
        by_cases hi : i = n
        · rw [hi]
          exact hdone
        · rw [hothers i hi]
          exact hidle i
      · intro i hi
        rw [hothers i (by omega)]
        exact hrest i (by omega)

/-- Two requests. -/
theorem counters_count_iff_two_requests :
    Counting sampleEnv asking (served 2)
      ∧ incrementsIn sampleEnv .totalRequests asking (served 2) = 2 := by
  refine ⟨(counters_count_iff sampleEnv asking rfl (served 2)).2.mpr ⟨?_, ?_⟩, (asking_run 2).1⟩
  · intro c
    cases c <;> decide +kernel
  · decide +kernel

/-- **The counter wraps.**  `total_requests` counts 2^31 - 1 requests, and one request
    later, with none in progress, it is -2^31. -/
theorem total_requests_wraps :
    (∀ i, (((server sampleEnv).run asking (served (2 ^ 31))).proc i).ghost.req = none)
      ∧ incrementsIn sampleEnv .totalRequests asking (served (2 ^ 31)) = 2 ^ 31
      ∧ ((server sampleEnv).run asking (served (2 ^ 31))).world.metrics.totalRequests = -2 ^ 31
      ∧ ((server sampleEnv).run asking (served (2 ^ 31 - 1))).world.metrics.totalRequests
        = 2 ^ 31 - 1 := by
  have hread : ∀ n, ((server sampleEnv).run asking (served n)).world.metrics.totalRequests
      = Int.bmod n (2 ^ 32) := by
    intro n
    have hrun : ((server sampleEnv).run asking (served n)).world.metrics.totalRequests
        = Int.bmod (incrementsIn sampleEnv .totalRequests asking (served n)) (2 ^ 32) :=
      read_run sampleEnv .totalRequests rfl (served n)
    rw [hrun, (asking_run n).1]
  refine ⟨(asking_run (2 ^ 31)).2.1, (asking_run (2 ^ 31)).1, ?_, ?_⟩
  · rw [hread (2 ^ 31)]
    decide +kernel
  · rw [hread (2 ^ 31 - 1)]
    decide +kernel

end OrderApi.Server
