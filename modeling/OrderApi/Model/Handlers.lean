/-
  OrderApi.Model.Handlers
  ───────────────────────
  **THE ORDER HANDLERS** (`src/order_routes.cpp`), one atomic call at a time.

  A handler is a little state machine whose program points (`Pc`) are the SQLite
  and Redis calls it makes.  `step` executes the call of the current point and
  the local code up to the next one, so any schedule of `step`s is an
  interleaving of the individual calls of the requests.  What a call may do
  besides succeeding is told by an `Outcome`; the clock and random values a
  request reads are its `Inputs`.
-/
import OrderApi.Lib.Pool
import OrderApi.Model.State

namespace OrderApi.Model

open OrderApi.Lib
open OrderApi.Crow

/-! ## §1. Requests to the handlers. -/

/-- A `<string>` parameter of a route: a piece of the URL, hence without NUL. -/
structure PathParam where
  val : String
  noNul : NoNul val

/-- A call of one of the five handlers. -/
inductive OrderCall where
  | createOrder (body : String)
  | getOrder (orderNo : PathParam)
  | payOrder (body : String)
  | listOrders (status : Option String)
  | deleteOrder (orderNo : PathParam)

/-- The values of the clock and of `rand()` that a request reads. -/
structure Inputs where
  /-- `time(nullptr)` in `generate_order_no`. -/
  timestamp : Int := 0
  rand : Nat := 0
  /-- `time(nullptr)` in the handler. -/
  now : Int := 0
  deriving DecidableEq

/-- How a handler ends. -/
inductive Reply where
  | returned (res : Response)
  | threw (e : Exn)
  deriving DecidableEq

/-- How a SQLite or Redis call ends.  A failed Redis command may or may not have
    been executed by the server. -/
inductive Outcome where
  | ok
  | fail (applied : Bool)
  deriving DecidableEq

/-- `generate_order_no`. -/
def generateOrderNo (inp : Inputs) : String :=
  "ORD" ++ toString inp.timestamp ++ toString (inp.rand % 100000)

/-! ## §2. The helpers of the anonymous namespace. -/

/-- `record_sqlite_failure`. -/
def recordSqliteFailure (w : World) : World :=
  { w with metrics.sqliteErrors := inc32 w.metrics.sqliteErrors }

/-- `record_redis_failure`; also what the null-client branches do. -/
def recordRedisFailure (w : World) : World :=
  { w with metrics.redisErrors := inc32 w.metrics.redisErrors, redisAvailable := false }

/-- `record_redis_success`. -/
def recordRedisSuccess (w : World) : World := { w with redisAvailable := true }

/-- The key `"order:" + order_no`. -/
def cacheKey (orderNo : String) : String := "order:" ++ orderNo

/-- `SET key payload EX ttl` on the server. -/
def World.redisSet (env : Env) (orderNo payload : String) (w : World) : World :=
  { w with
    cache := Function.update w.cache (cacheKey orderNo)
      (some ⟨payload, w.clock + env.cacheTtlSeconds * 1000⟩) }

/-- `DEL key` on the server. -/
def World.redisDel (orderNo : String) (w : World) : World :=
  { w with cache := Function.update w.cache (cacheKey orderNo) none }

/-- A command that only writes, with the bookkeeping of its `try`/`catch`. -/
def redisWrite (env : Env) (out : Outcome) (command : World → World) (w : World) : World :=
  if env.redis then
    match out with
    | .ok => recordRedisSuccess (command w)
    | .fail applied => recordRedisFailure (if applied then command w else w)
  else recordRedisFailure w

/-- `try_cache_order`. -/
def tryCacheOrder (env : Env) (out : Outcome) (orderNo payload : String) (w : World) : World :=
  redisWrite env out (World.redisSet env orderNo payload) w

/-- `invalidate_cached_order`. -/
def invalidateCachedOrder (env : Env) (out : Outcome) (orderNo : String) (w : World) : World :=
  redisWrite env out (World.redisDel orderNo) w

/-- `try_get_cached_order`. -/
def tryGetCachedOrder (env : Env) (out : Outcome) (orderNo : String) (w : World) :
    Option String × World :=
  if env.redis then
    match out with
    | .ok =>
        match w.cache.get w.clock (cacheKey orderNo) with
        | some payload =>
            (some payload,
              { recordRedisSuccess w with metrics.cacheHits := inc32 w.metrics.cacheHits })
        | none =>
            (none, { recordRedisSuccess w with metrics.cacheMisses := inc32 w.metrics.cacheMisses })
    | .fail _ =>
        (none, recordRedisFailure { w with metrics.cacheMisses := inc32 w.metrics.cacheMisses })
  else (none, recordRedisFailure w)

/-! ## §3. The JSON bodies. -/

/-- `json_error`, returned. -/
def errorReply (env : Env) (code : Int) (message : String) : Reply :=
  .returned (jsonError env code message)

/-- `crow::response(res)` for a `wvalue`. -/
def jsonReply (env : Env) (v : WValue) : Reply := .returned (Response.ofJson 200 (env.dump v))

/-- What `create_order` answers and caches. -/
def createdJson (env : Env) (orderNo : String) (amount : Double) (now : Int) : WValue :=
  .object [("order_no", .str orderNo), ("amount", .double amount), ("status", .str "PENDING"),
    ("created_at", .str (formatTime env now))]

/-- The object `get_order` and `list_orders` build from a row. -/
def rowJson (env : Env) (orderNo : String) (r : Row) : WValue :=
  .object [("order_no", .str orderNo), ("amount", .double r.amount), ("status", .str r.status),
    ("created_at", .str (formatTime env r.createdAt)),
    ("paid_at", if r.paidAt = 0 then .null else .str (formatTime env r.paidAt))]

/-- What `pay_order` answers. -/
def paidJson (env : Env) (orderNo : String) (amount : Double) (createdAt now : Int) : WValue :=
  .object [("order_no", .str orderNo), ("status", .str "PAID"), ("amount", .double amount),
    ("created_at", .str (formatTime env createdAt)), ("paid_at", .str (formatTime env now))]

/-- What `list_orders` answers.  `result["orders"]` is a null value until the
    first element is written to it. -/
def listJson (arr : List WValue) : WValue :=
  .object [("orders", if arr.isEmpty then .null else .list arr)]

/-- What `delete_order` answers. -/
def deletedJson (orderNo : String) : WValue :=
  .object [("deleted", .bool true), ("order_no", .str orderNo)]

/-! ## §4. Reading the request bodies. -/

/-- How a handler ends before its SQLite calls: with a reply, or in code whose
    behaviour is undefined. -/
inductive Early where
  | answered (reply : Reply)
  | undefined
  deriving DecidableEq

/-- `return json_error(code, message);`. -/
def refusal (env : Env) (code : Int) (message : String) : Early :=
  .answered (errorReply env code message)

/-- An accessor that may throw out of the handler. -/
def attempt {α : Type} : Except Fault α → Except Early α
  | .ok a => .ok a
  | .error (.thrown e) => .error (.answered (.threw e))
  | .error .undefined => .error .undefined

/-- `create_order` up to the SQLite calls: the amount, or how it ends early. -/
def createAmount (env : Env) (body : String) : Except Early Double := do
  let some v := env.load body | throw (refusal env 400 "Invalid JSON format")
  if !(← attempt (v.has env.memberSort "amount")) then throw (refusal env 400 "Missing amount")
  let a ← attempt (v.get env.memberSort "amount")
  if !isValidAmount a then throw (refusal env 400 "Missing amount")
  if a.t ≠ .number then throw (refusal env 400 "Amount must be a number")
  attempt a.d

/-- `pay_order` up to the SQLite calls: the order number, or how it ends early. -/
def payOrderNo (env : Env) (body : String) : Except Early String := do
  let some v := env.load body | throw (refusal env 400 "Invalid JSON format")
  if !(← attempt (v.has env.memberSort "order_no")) then throw (refusal env 400 "Missing order_no")
  let n ← attempt (v.get env.memberSort "order_no")
  if !env.isValidOrderNo n then throw (refusal env 400 "Missing order_no")
  if n.t ≠ .string then throw (refusal env 400 "order_no must be a string")
  attempt n.s

/-! ## §5. Program points. -/

/-- Where a handler stands: the next call it makes, with its live variables. -/
inductive Pc where
  /-- The handler is about to be entered. -/
  | enter (call : OrderCall) (inp : Inputs)
  /-- `create_order`: prepare and step the INSERT, then fill the cache. -/
  | insertPrepare (orderNo : String) (amount : Double) (now : Int)
  | insertStep (orderNo : String) (amount : Double) (now : Int)
  | createCache (orderNo : String) (amount : Double) (now : Int)
  /-- `get_order`: ask the cache, then prepare and step the SELECT. -/
  | getCache (orderNo : String)
  | getPrepare (orderNo : String)
  | getStep (orderNo : String)
  /-- `pay_order`: prepare and step the SELECT, prepare and step the UPDATE,
      then invalidate. -/
  | payPrepare (orderNo : String) (now : Int)
  | payStep (orderNo : String) (now : Int)
  | updatePrepare (orderNo : String) (amount : Double) (createdAt now : Int)
  | updateStep (orderNo : String) (amount : Double) (createdAt now : Int)
  | payInvalidate (orderNo : String) (amount : Double) (createdAt now : Int)
  /-- `list_orders`: prepare the SELECT, then step it row by row. -/
  | listPrepare (query : String)
  | listStep (query : String) (cursor : Nat) (arr : List WValue)
  /-- `delete_order`: prepare and step the DELETE, read `sqlite3_changes`, then
      invalidate. -/
  | deletePrepare (orderNo : String)
  | deleteStep (orderNo : String)
  | deleteChanges (orderNo : String)
  | deleteInvalidate (orderNo : String)
  /-- The handler has returned or thrown. -/
  | done (reply : Reply)
  /-- The handler has read what nobody has written; nothing is said about it any
      more. -/
  | lost

/-- Where a handler stands that ends before its SQLite calls. -/
def Early.pc : Early → Pc
  | .answered reply => .done reply
  | .undefined => .lost

/-- The prepare call of a statement: on to its step, or the 500 of a failed
    prepare. -/
def prepare (env : Env) (out : Outcome) (next : Pc) (w : World) : Pc × World :=
  match out with
  | .ok => (next, w)
  | .fail _ => (.done (errorReply env 500 "Internal DB error"), recordSqliteFailure w)

/-- Entering a handler: read and check the request, down to the first call. -/
def enter (env : Env) (inp : Inputs) : OrderCall → Pc
  | .createOrder body =>
      match createAmount env body with
      | .ok amount => .insertPrepare (generateOrderNo inp) amount inp.now
      | .error early => early.pc
  | .getOrder orderNo => .getCache orderNo.val
  | .payOrder body =>
      match payOrderNo env body with
      | .ok orderNo => .payPrepare orderNo inp.now
      | .error early => early.pc
  | .listOrders status => .listPrepare (status.getD "")
  | .deleteOrder orderNo => .deletePrepare orderNo.val

/-- SQLite after an INSERT, UPDATE or DELETE that failed: nothing is changed, and
    `sqlite3_changes` says so. -/
def World.writeFailed (w : World) : World := { w with changes := 0 }

@[simp] theorem writeFailed_table (w : World) : w.writeFailed.table = w.table := rfl

/-- The filter of `list_orders`: none for an empty query. -/
def listFilter (query : String) : Option String := if query = "" then none else some (cStr query)

/-- **One atomic call of a handler**, and the local code behind it. -/
def step (env : Env) (out : Outcome) : Pc → World → Pc × World
  | .enter call inp, w => (enter env inp call, w)
  -- create_order
  | .insertPrepare o amount now, w => prepare env out (.insertStep o amount now) w
  | .insertStep o amount now, w =>
      match out, w.table.insertOrder (cStr o) amount now with
      | .ok, some table =>
          (.createCache o amount now,
            { w with table, changes := 1, metrics.ordersCreated := inc32 w.metrics.ordersCreated })
      -- an error code, the primary-key conflict among them
      | _, _ =>
          (.done (errorReply env 500 "Database error while creating order"),
            recordSqliteFailure w.writeFailed)
  | .createCache o amount now, w =>
      (.done (jsonReply env (createdJson env o amount now)),
        tryCacheOrder env out o (env.dump (createdJson env o amount now)) w)
  -- get_order
  | .getCache o, w =>
      match tryGetCachedOrder env out o w with
      | (some cached, w') => (.done (.returned (Response.ofBody cached)), w')
      | (none, w') => (.getPrepare o, w')
  | .getPrepare o, w => prepare env out (.getStep o) w
  | .getStep o, w =>
      match out, w.table.find (cStr o) with
      | .ok, some r => (.done (jsonReply env (rowJson env o r)), w)
      -- anything but SQLITE_ROW
      | _, _ => (.done (errorReply env 404 "Order not found"), w)
  -- pay_order
  | .payPrepare o now, w => prepare env out (.payStep o now) w
  | .payStep o now, w =>
      match out, w.table.find (cStr o) with
      | .ok, some r =>
          if r.status = "PAID" then (.done (errorReply env 400 "Already paid"), w)
          else (.updatePrepare o r.amount r.createdAt now, w)
      -- anything but SQLITE_ROW
      | _, _ => (.done (errorReply env 404 "Order not found"), w)
  | .updatePrepare o amount createdAt now, w =>
      prepare env out (.updateStep o amount createdAt now) w
  | .updateStep o amount createdAt now, w =>
      match out with
      | .ok =>
          (.payInvalidate o amount createdAt now,
            { w with
              table := w.table.updatePaid (cStr o) now
              changes := w.table.count (cStr o)
              metrics.ordersPaid := inc32 w.metrics.ordersPaid })
      | .fail _ =>
          (.done (errorReply env 500 "Failed to mark order as paid"),
            recordSqliteFailure w.writeFailed)
  | .payInvalidate o amount createdAt now, w =>
      (.done (jsonReply env (paidJson env o amount createdAt now)),
        invalidateCachedOrder env out o w)
  -- list_orders
  | .listPrepare query, w => prepare env out (.listStep query 0 []) w
  | .listStep query cursor arr, w =>
      match out, w.table.nextRow (listFilter query) cursor with
      | .ok, some r => (.listStep query r.rowid (arr ++ [rowJson env r.orderNo r]), w)
      -- the loop ends on the first code that is not SQLITE_ROW
      | _, _ => (.done (jsonReply env (listJson arr)), w)
  -- delete_order
  | .deletePrepare o, w => prepare env out (.deleteStep o) w
  | .deleteStep o, w =>
      match out with
      | .ok =>
          (.deleteChanges o,
            { w with
              table := w.table.deleteOrder (cStr o)
              changes := w.table.count (cStr o) })
      | .fail _ =>
          (.done (errorReply env 404 "Order not found or could not delete"), w.writeFailed)
  | .deleteChanges o, w =>
      if w.changes = 0 then (.done (errorReply env 404 "Order not found"), w)
      else (.deleteInvalidate o, w)
  | .deleteInvalidate o, w =>
      (.done (jsonReply env (deletedJson o)), invalidateCachedOrder env out o w)
  | .done reply, w => (.done reply, w)
  | .lost, w => (.lost, w)

/-! ## §6. The pool of concurrent requests. -/

/-- What moves besides the requests: Redis drops a key, time passes, the signal
    watcher starts the drain. -/
inductive EnvEvent where
  | drop (key : String)
  | tick (ms : Nat)
  | shutdown
  deriving DecidableEq

/-- One move of the environment. -/
def EnvEvent.apply : EnvEvent → World → World
  | .drop key, w => { w with cache := Function.update w.cache key none }
  | .tick ms, w => { w with clock := w.clock + ms }
  | .shutdown, w => { w with shuttingDown := true }

/-- The five handlers as a machine over the shared world. -/
def handlers (env : Env) : Machine World Pc Outcome EnvEvent where
  step := step env
  env := EnvEvent.apply

/-- A request: the handler it calls and the values it reads. -/
structure Job where
  call : OrderCall
  inp : Inputs := {}

/-- A family of requests none of which has been entered, over a world. -/
def initial {ι : Type*} (w : World) (jobs : ι → Job) : Pool ι World Pc :=
  { world := w, proc := fun i => .enter (jobs i).call (jobs i).inp }

/-- The step of this event does not fail in SQLite or Redis.  An INSERT can still
    meet a primary-key conflict. -/
def CallsSucceed {ι : Type*} (_ : Pool ι World Pc) : Event ι Outcome EnvEvent → Prop
  | .proc _ out => out = .ok
  | .env _ => True

/-- A request that has been entered and has not answered yet. -/
def Pc.inProgress : Pc → Bool
  | .enter _ _ => false
  | .done _ => false
  | _ => true

/-- The status code a request is bound to answer with, once that is settled. -/
def Pc.answer : Pc → Option Int
  | .createCache .. => some 200
  | .payInvalidate .. => some 200
  | .deleteInvalidate .. => some 200
  | .done (.returned res) => some res.code
  -- Crow's exception handler answers for an escaping exception
  | .done (.threw (.runtimeError _)) => some 500
  | .done (.threw (.badRequest _)) => some 400
  | _ => none

/-! ## §7. A concrete environment.

    The service at its defaults, with the JSON reader on the two documents the
    concrete runs below send. -/

/-- `1.0`. -/
def one : Double := ⟨0x3FF0000000000000, by decide⟩

/-- The body of a valid `create_order`. -/
def sampleCreateBody : String := "\x7b\"amount\":1\x7d"

/-- The body of a `pay_order` for `ORD17000000007`. -/
def samplePayBody : String := "\x7b\"order_no\":\"ORD17000000007\"\x7d"

/-- `crow::json::load` on the two bodies above. -/
def sampleLoad (s : String) : Option RValue :=
  if s = sampleCreateBody then some (.object [("amount", .number one)])
  else if s = samplePayBody then some (.object [("order_no", .string "ORD17000000007")])
  else none

/-- The default configuration of `main`, Redis reachable. -/
def sampleEnv : Env where
  load := sampleLoad
  dump := WValue.dump (fun _ => "1.0")
  strftime := fun _ => "2023-11-14 22:13:20"
  isValidOrderNo := Helpers.isValidOrderNo
  redis := true
  cacheTtlSeconds := 300
  apiKey := "1234567"
  maxInflightRequests := 64

/-- A `create_order` that draws `ORD17000000007` in the second `1700000000`. -/
def sampleCreate : Job := ⟨.createOrder sampleCreateBody, ⟨1700000000, 7, 1700000000⟩⟩

/-- A `pay_order` of that order, `k` seconds later. -/
def samplePay (k : Int) : Job := ⟨.payOrder samplePayBody, ⟨0, 0, 1700000000 + k⟩⟩

/-- A `delete_order` of that order. -/
def sampleDelete : Job := ⟨.deleteOrder ⟨"ORD17000000007", by decide⟩, {}⟩

/-- A `list_orders` of all orders. -/
def sampleList : Job := ⟨.listOrders none, {}⟩

/-- The schedule in which these requests move one after the other and every call
    succeeds. -/
def schedule {ι : Type*} (order : List ι) : List (Event ι Outcome EnvEvent) :=
  order.map (.proc · .ok)

/-- The requests of a concrete run by their numbers. -/
def turns {n : Nat} (order : List Nat) : List (Fin (n + 1)) := order.map (Fin.ofNat (n + 1))

/-- A `get_order` of that order. -/
def sampleGet : Job := ⟨.getOrder ⟨"ORD17000000007", by decide⟩, {}⟩

end OrderApi.Model
