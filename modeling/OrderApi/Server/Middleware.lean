/-
  OrderApi.Server.Middleware
  ──────────────────────────
  **THE MIDDLEWARE CHAIN.**

  `crow::App<LoggingMiddleware, LifecycleMiddleware, ErrorHandlerMiddleware,
  AuthMiddleware>`: what each of the four does before and after a handler, and
  the two helpers by which Crow calls them.  A middleware reads and writes the
  response and the context of the connection, so it is code from `ConnState` to
  `ConnState`.
-/
import OrderApi.Server.Ops

namespace OrderApi.Server

open OrderApi.Lib
open OrderApi.Crow
open OrderApi.Model

/-! ## §1. Calling middlewares. -/

/-- `before_handle` and `after_handle` of a middleware. -/
structure Middleware where
  beforeHandle : Request → ConnState → Code ConnState
  afterHandle : Request → ConnState → Code ConnState

/-- `middleware_call_helper`: the `before_handle`s from the first on.  As soon as
    one of them completes the response, the `after_handle`s of those called so
    far run, and the answer is `true`. -/
def middlewareCallHelper : List Middleware → Request → ConnState → Code (Bool × ConnState)
  | [], _, c => pure (false, c)
  | mw :: rest, req, c => do
      let c ← mw.beforeHandle req c
      if c.res.completed then do
        let c ← mw.afterHandle req c
        pure (true, c)
      else do
        let r ← middlewareCallHelper rest req c
        if r.1 then do
          let c ← mw.afterHandle req r.2
          pure (true, c)
        else pure (false, r.2)

/-- `after_handlers_call_helper`: all `after_handle`s, from the last to the first. -/
def afterHandlersCallHelper : List Middleware → Request → ConnState → Code ConnState
  | [], _, c => pure c
  | mw :: rest, req, c => do
      let c ← afterHandlersCallHelper rest req c
      mw.afterHandle req c

/-! ## §2. The four middlewares. -/

/-- `LoggingMiddleware`.  The log lines are not modelled. -/
def loggingMiddleware : Middleware where
  beforeHandle _ c := do
    let t : Int ← perform .now
    pure { c with ctx.startTime := t }
  afterHandle _ c := do
    let t : Int ← perform .now
    perform (.count .totalRequests)
    perform (.observe (t - c.ctx.startTime))
    pure c

/-- A 503 of `LifecycleMiddleware`, completed. -/
def rejection (env : Env) (res : Response) (message retryAfter : String) : Response :=
  ((res.assign (jsonError env 503 message)).setHeader "Retry-After" retryAfter).finish

/-- `LifecycleMiddleware`. -/
def lifecycleMiddleware (env : Env) : Middleware where
  beforeHandle req c := do
    if isProbePath req.url then pure c
    else do
      let down : Bool ← perform .loadShuttingDown
      if down then do
        perform (.count .shutdownRejections)
        pure { c with res := rejection env c.res "Server is shutting down" "5" }
      else do
        let old : Int ← perform .inFlightAdd
        let limit : Int ← perform .loadMaxInflight
        -- the counter goes up first and comes down again when it is over the limit; the
        -- `+ 1` behind `fetch_add` wraps like it, which is how the undefined sum comes out
        if inc32 old > limit then do
          perform .inFlightSub
          perform (.count .overloadRejections)
          pure { c with
            res := rejection env c.res "Server overloaded" "1"
            ctx.countedInflight := false }
        else pure { c with ctx.countedInflight := true }
  -- the flag stays set
  afterHandle _ c := do
    if c.ctx.countedInflight then do
      perform .inFlightSub
      pure c
    else pure c

/-- The text `ErrorHandlerMiddleware` has for a status. -/
def errorMsg (code : Int) : String :=
  if code = 400 then "Bad Request"
  else if code = 404 then "Not Found"
  else if code = 500 then "Internal Server Error"
  else "HTTP Error"

/-- An error response without a body gets a JSON one. -/
def fillError (env : Env) (res : Response) : Response :=
  if 400 ≤ res.code ∧ res.body = "" then
    { res.setHeader "Content-Type" "application/json" with
      body := env.dump (.object [("error", .str (errorMsg res.code)), ("code", .int res.code)]) }
  else res

/-- `ErrorHandlerMiddleware`. -/
def errorHandlerMiddleware (env : Env) : Middleware where
  beforeHandle _ c := pure c
  afterHandle _ c := pure { c with res := fillError env c.res }

/-- The request carries the API key. -/
def authorized (env : Env) (req : Request) : Bool :=
  getHeaderValue req.headers "Authorization" = env.apiKey

/-- The 401 of `AuthMiddleware`, completed. -/
def unauthorized (res : Response) : Response :=
  (({ res with code := 401 }.setHeader "Content-Type" "application/json").write
    "\x7b\"error\": \"Unauthorized\"\x7d").finish

/-- `AuthMiddleware`. -/
def authMiddleware (env : Env) : Middleware where
  beforeHandle req c :=
    if isProbePath req.url then pure c
    else if authorized env req then pure c
    else pure { c with res := unauthorized c.res }
  afterHandle _ c := pure c

/-- The middlewares of the application, in the order of its template arguments. -/
def middlewares (env : Env) : List Middleware :=
  [loggingMiddleware, lifecycleMiddleware env, errorHandlerMiddleware env, authMiddleware env]

/-! ## §3. Code and flags of the response. -/

@[simp] theorem rejection_code (env : Env) (res : Response) (message retryAfter : String) :
    (rejection env res message retryAfter).code = 503 := by
  unfold rejection
  exact Response.finish_code _

@[simp] theorem unauthorized_code (res : Response) : (unauthorized res).code = 401 := by
  unfold unauthorized
  exact Response.finish_code _

@[simp] theorem fillError_code (env : Env) (res : Response) :
    (fillError env res).code = res.code := by
  unfold fillError
  split <;> rfl

@[simp] theorem rejection_completed (env : Env) (res : Response) (message retryAfter : String) :
    (rejection env res message retryAfter).completed = true := by
  unfold rejection
  exact Response.finish_completed _

@[simp] theorem unauthorized_completed (res : Response) : (unauthorized res).completed = true := by
  unfold unauthorized
  exact Response.finish_completed _

@[simp] theorem rejection_skipBody (env : Env) (res : Response) (message retryAfter : String) :
    (rejection env res message retryAfter).skipBody = res.skipBody := by
  unfold rejection
  exact Response.finish_skipBody _

@[simp] theorem unauthorized_skipBody (res : Response) :
    (unauthorized res).skipBody = res.skipBody := by
  unfold unauthorized
  exact Response.finish_skipBody _

@[simp] theorem fillError_skipBody (env : Env) (res : Response) :
    (fillError env res).skipBody = res.skipBody := by
  unfold fillError
  split <;> rfl

@[simp] theorem fillError_completed (env : Env) (res : Response) :
    (fillError env res).completed = res.completed := by
  unfold fillError
  split <;> rfl

end OrderApi.Server
