/-
  OrderApi.Server.Chain
  ─────────────────────
  **THE MIDDLEWARE CHAIN, WRITTEN OUT.**

  With the four middlewares in their order, the two helpers of Crow come to
  straight-line code: `chain` for the before handlers, with the four places in
  which they end, and `windUp` for the after handlers.  The specifications of a
  request rest on these two.
-/
import OrderApi.Server.Ledger

namespace OrderApi.Server

open OrderApi.Lib
open OrderApi.Crow
open OrderApi.Model

/-! ## §1. The before handlers. -/

/-- `LoggingMiddleware::after_handle`, for a request that started at `start`. -/
def logged (start : Int) : Code Unit := do
  let t : Int ← perform .now
  perform (.count .totalRequests)
  perform (.observe (t - start))

/-- The before handlers on a fresh context, with the after handlers of those that
    were called where one of them answers. -/
def chain (env : Env) (req : Request) (c : ConnState) : Code (Bool × ConnState) := do
  let t : Int ← perform .now
  if isProbePath req.url then pure (false, { c with ctx.startTime := t })
  else do
    let down : Bool ← perform .loadShuttingDown
    if down then do
      perform (.count .shutdownRejections)
      logged t
      pure (true, { c with
        res := rejection env c.res "Server is shutting down" "5"
        ctx.startTime := t })
    else do
      let old : Int ← perform .inFlightAdd
      let limit : Int ← perform .loadMaxInflight
      if inc32 old > limit then do
        perform .inFlightSub
        perform (.count .overloadRejections)
        logged t
        pure (true, { c with
          res := rejection env c.res "Server overloaded" "1"
          ctx.startTime := t })
      else if authorized env req then pure (false, { c with ctx := ⟨t, true⟩ })
      else do
        -- `ErrorHandlerMiddleware` stands in front of `AuthMiddleware`
        perform .inFlightSub
        logged t
        pure (true, { c with res := fillError env (unauthorized c.res), ctx := ⟨t, true⟩ })

/-- **The before handlers of the application**, spelled out: lifecycle, logging, the key, and the
    order in which they stop. -/
theorem chain_eq {env : Env} {req : Request} {c : ConnState} (hres : c.res.completed = false)
    (hctx : c.ctx = {}) : middlewareCallHelper (middlewares env) req c = chain env req c := by
  obtain ⟨res, ctx, keep⟩ := c
  subst hctx
  have hopen : res.completed = false := hres
  unfold chain middlewares middlewareCallHelper
  simp only [loggingMiddleware, bind_assoc, Prog.pure_bind, hopen]
  refine bind_congr fun (t : Int) => ?_
  unfold middlewareCallHelper
  by_cases hprobe : isProbePath req.url = true
  · have hpasses : middlewareCallHelper [errorHandlerMiddleware env, authMiddleware env] req _ = _ :=
      auth_chain_passes (c := ⟨res, ⟨t, false⟩, keep⟩) hopen (.inl hprobe)
    simp [lifecycleMiddleware, hprobe, hopen, hpasses]
  · have hbusiness : isProbePath req.url = false := by simpa using hprobe
    simp only [lifecycleMiddleware, hbusiness, Bool.false_eq_true, if_false, bind_assoc]
    refine bind_congr fun (down : Bool) => ?_
    cases down with
    | true => simp [logged]
    | false =>
        simp only [Bool.false_eq_true, if_false, bind_assoc]
        refine bind_congr fun (old : Int) => ?_
        refine bind_congr fun (limit : Int) => ?_
        by_cases hlimit : inc32 old > limit
        · simp [hlimit, logged]
        -- admitted: what is left of the chain is `AuthMiddleware`
        cases hauth : authorized env req with
        | true =>
            have hpasses : middlewareCallHelper [errorHandlerMiddleware env, authMiddleware env]
                req _ = _ :=
              auth_chain_passes (c := ⟨res, ⟨t, true⟩, keep⟩) hopen (.inr hauth)
            simp [hlimit, hopen, hpasses]
        | false =>
            have hstops : middlewareCallHelper [errorHandlerMiddleware env, authMiddleware env]
                req _ = _ :=
              auth_chain_stops (c := ⟨res, ⟨t, true⟩, keep⟩) hopen hbusiness hauth
            simp [hlimit, hopen, hstops, logged]

/-! ## §2. The after handlers. -/

/-- `LifecycleMiddleware::after_handle`. -/
def release (counted : Bool) : Code Unit :=
  if counted then perform .inFlightSub else pure ()

/-- `complete_request` with all after handlers. -/
def windUp (env : Env) (c : ConnState) : Code (Response × ConnState) := do
  release c.ctx.countedInflight
  logged c.ctx.startTime
  pure (prepareBuffers { c with res := fillError env c.res },
    { c with res := (fillError env c.res).clear })

/-- **The after handlers**, spelled out. -/
theorem completeRequest_eq (env : Env) (req : Request) (c : ConnState) :
    completeRequest env true req c = windUp env c := by
  unfold completeRequest windUp release
  rw [if_pos rfl]
  unfold middlewares afterHandlersCallHelper afterHandlersCallHelper afterHandlersCallHelper
    afterHandlersCallHelper afterHandlersCallHelper
  cases hcounted : c.ctx.countedInflight <;>
    simp [authMiddleware, errorHandlerMiddleware, lifecycleMiddleware, loggingMiddleware, logged,
      hcounted]

/-- Without after handlers it is the write alone. -/
theorem completeRequest_plain (env : Env) (req : Request) (c : ConnState) :
    completeRequest env false req c = pure (prepareBuffers c, { c with res := c.res.clear }) := rfl

end OrderApi.Server
