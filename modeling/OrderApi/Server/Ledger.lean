/-
  OrderApi.Server.Ledger
  ──────────────────────
  **WHAT A CONNECTION OWES THE IN-FLIGHT COUNTER.**

  Every connection keeps a ledger of the calls it made for its current request:
  its additions to `in_flight_requests` less its subtractions (`standing`), and
  what `LifecycleMiddleware` saw.  `books` says when a call is in order.  The
  specifications below go through the code from the middlewares to a whole
  connection (`wp_serve`); `in_flight_eq_standing` then says, for every
  interleaving of any connections, that the counter is the sum of what is
  standing.
-/
import OrderApi.Server.Connection

namespace OrderApi.Server

open OrderApi.Lib
open OrderApi.Lib.Prog
open OrderApi.Crow
open OrderApi.Model

/-! ## §1. The ledger. -/

/-- What a connection has done for its current or last request. -/
structure Ledger where
  /-- The request being served. -/
  req : Option Request := none
  /-- The request has no route, and the connection's context still has
      `counted_inflight` from an earlier one. -/
  stale : Bool := false
  /-- The value of `shutting_down` that was loaded. -/
  sawShutdown : Option Bool := none
  /-- `current_inflight`. -/
  current : Option Int := none
  /-- The limit that was loaded. -/
  limit : Option Int := none
  /-- Additions to `in_flight_requests` less subtractions. -/
  standing : Int := 0

/-- How the ledger follows a call. -/
def Ledger.record : (o : Op) → Op.Res o → Ledger → Ledger
  | .atomic (.received conn req), _, _ =>
      -- a new page for each request
      { req := some req, stale := unrouted req && conn.ctx.countedInflight }
  | .atomic (.finished _), _, l => { l with req := none }
  | .atomic .loadShuttingDown, (b : Bool), l => { l with sawShutdown := some b }
  | .atomic .inFlightAdd, (old : Int), l =>
      { l with current := some (inc32 old), standing := l.standing + 1 }
  | .atomic .loadMaxInflight, (limit : Int), l => { l with limit := some limit }
  | .atomic .inFlightSub, _, l => { l with standing := l.standing - 1 }
  | _, _, l => l

/-- The request was counted within the limit. -/
def Ledger.WithinLimit (l : Ledger) : Prop :=
  ∃ current limit, l.current = some current ∧ l.limit = some limit ∧ current ≤ limit

/-- With the limit known, the count is within it. -/
theorem Ledger.WithinLimit.le {l : Ledger} {m : Int} (h : l.WithinLimit)
    (hlimit : l.limit = none ∨ l.limit = some m) :
    ∃ current, l.current = some current ∧ current ≤ m := by
  obtain ⟨current, limit, hcurrent, hloaded, hle⟩ := h
  refine ⟨current, hcurrent, ?_⟩
  obtain hnone | hsome := hlimit
  · rw [hloaded] at hnone
    cases hnone
  · have hsame : limit = m := Option.some.inj (hloaded.symm.trans hsome)
    omega

/-- What stands between a request and the order handlers: it is not for a probe
    path, `shutting_down` was false when it was checked, it was counted within
    the limit, and it has the API key. -/
def Ledger.PassedGate (env : Env) (l : Ledger) : Prop :=
  ∃ req, l.req = some req ∧ isProbePath req.url = false ∧ l.sawShutdown = some false ∧
    l.WithinLimit ∧ authorized env req = true

/-- What depends on the framework around the middlewares. -/
structure Terms where
  /-- When a subtraction may come without an addition of the same request. -/
  unmatched : Ledger → Prop
  /-- What holds once the framework is through with a request. -/
  settled : Ledger → Prop

/-- When a call is in order. -/
def Ledger.Allows (env : Env) (T : Terms) : Op → Ledger → Prop
  | .atomic (.received _ _), l => l.req = none ∧ l.standing = 0
  | .atomic (.finished _), l => T.settled l
  | .atomic .inFlightAdd, l =>
      l.standing = 0 ∧ ∃ req, l.req = some req ∧ isProbePath req.url = false
  | .atomic .inFlightSub, l => l.standing = 1 ∨ T.unmatched l
  | .order _ _, l => l.PassedGate env
  | _, _ => True

/-- The bookkeeping as a discipline. -/
def books (env : Env) (T : Terms) : Discipline Op Op.Res Ledger where
  pre := Ledger.Allows env T
  next := Ledger.record

section
variable {env : Env} {T : Terms} {l : Ledger} {req : Request} {c : ConnState}

/-- A call and what follows it. -/
theorem wp_perform {β : Type} (a : Atomic) {f : a.Res → Code β} {Q : β → Ledger → Prop} :
    wp (books env T) (perform a >>= f) Q l ↔
      Ledger.Allows env T (.atomic a) l ∧
        ∀ r : a.Res, wp (books env T) (f r) Q (Ledger.record (.atomic a) r l) :=
  wp_bind (D := books env T) (perform a) f

/-! ## §2. The middlewares. -/

/-- How `LifecycleMiddleware::before_handle` leaves response, context and ledger. -/
inductive Checked (req : Request) (c : ConnState) (l : Ledger) : ConnState → Ledger → Prop where
  | probe (url : isProbePath req.url = true) : Checked req c l c l
  | rejected (c' : ConnState) (l' : Ledger) (completed : c'.res.completed = true)
      (uncounted : c'.ctx.countedInflight = false) (standing : l'.standing = 0)
      (same : l'.req = l.req) : Checked req c l c' l'
  | admitted (c' : ConnState) (l' : Ledger) (url : isProbePath req.url = false)
      (res : c'.res = c.res) (counted : c'.ctx.countedInflight = true) (standing : l'.standing = 1)
      (same : l'.req = l.req) (up : l'.sawShutdown = some false) (limit : l'.WithinLimit) :
      Checked req c l c' l'

/-- **`before_handle`** counts the request in, or turns it away. -/
theorem wp_lifecycle_before (hreq : l.req = some req) (hstanding : l.standing = 0)
    (hctx : c.ctx.countedInflight = false) :
    wp (books env T) ((lifecycleMiddleware env).beforeHandle req c) (Checked req c l) l := by
  unfold lifecycleMiddleware
  dsimp only
  by_cases hprobe : isProbePath req.url = true
  · rw [if_pos hprobe]
    exact .probe hprobe
  -- from here on one call after the other, as `before_handle` makes them
  · have hbusiness : isProbePath req.url = false := by simpa using hprobe
    rw [if_neg hprobe, wp_perform]
    refine ⟨trivial, ?_⟩
    intro down
    by_cases hdown : down = true
    · rw [if_pos hdown, wp_perform]
      refine ⟨trivial, ?_⟩
      intro _
      exact .rejected _ _ (rejection_completed _ _ _ _) hctx hstanding rfl
    · rw [if_neg hdown, wp_perform]
      have hup : down = false := by simpa using hdown
      subst hup
      refine ⟨⟨hstanding, req, hreq, hbusiness⟩, ?_⟩
      intro (old : Int)
      rw [wp_perform]
      refine ⟨trivial, ?_⟩
      intro (limit : Int)
      by_cases hlimit : inc32 old > limit
      · -- over the limit: the addition is taken back
        rw [if_pos hlimit, wp_perform]
        refine ⟨.inl ?_, ?_⟩
        · show l.standing + 1 = 1
          omega
        intro _
        rw [wp_perform]
        refine ⟨trivial, ?_⟩
        intro _
        refine .rejected _ _ (rejection_completed _ _ _ _) rfl ?_ rfl
        show l.standing + 1 - 1 = 0
        omega
      -- within the limit: the addition stays and the context remembers it
      · rw [if_neg hlimit]
        refine .admitted _ _ hbusiness rfl rfl ?_ rfl rfl ⟨inc32 old, limit, rfl, rfl, by omega⟩
        show l.standing + 1 = 1
        omega

/-- The ledger after `LifecycleMiddleware::after_handle`. -/
def Ledger.released (l : Ledger) (counted : Bool) : Ledger :=
  if counted then { l with standing := l.standing - 1 } else l

/-- **`after_handle`** subtracts what the context says was added. -/
theorem wp_lifecycle_after {Q : ConnState → Ledger → Prop}
    (hsub : c.ctx.countedInflight = true → l.standing = 1 ∨ T.unmatched l)
    (hQ : Q c (l.released c.ctx.countedInflight)) :
    wp (books env T) ((lifecycleMiddleware env).afterHandle req c) Q l := by
  unfold lifecycleMiddleware
  dsimp only
  unfold Ledger.released at hQ
  by_cases hcounted : c.ctx.countedInflight = true
  · rw [if_pos hcounted] at hQ ⊢
    rw [wp_perform]
    refine ⟨hsub hcounted, ?_⟩
    intro _
    exact hQ
  · rw [if_neg hcounted] at hQ ⊢
    exact hQ

/-- Logging before the request. -/
theorem wp_logging_before {Q : ConnState → Ledger → Prop}
    (hQ : ∀ t, Q { c with ctx.startTime := t } l) :
    wp (books env T) (loggingMiddleware.beforeHandle req c) Q l := by
  unfold loggingMiddleware
  dsimp only
  rw [wp_perform]
  refine ⟨trivial, ?_⟩
  intro t
  exact hQ t

/-- And behind it. -/
theorem wp_logging_after {Q : ConnState → Ledger → Prop} (hQ : Q c l) :
    wp (books env T) (loggingMiddleware.afterHandle req c) Q l := by
  unfold loggingMiddleware
  dsimp only
  -- the clock and the two counters are not in the books
  rw [wp_perform]
  refine ⟨trivial, ?_⟩
  intro _
  rw [wp_perform]
  refine ⟨trivial, ?_⟩
  intro _
  rw [wp_perform]
  exact ⟨trivial, fun _ => hQ⟩

/-- `ErrorHandlerMiddleware` and `AuthMiddleware` call nothing.  They let a request
    pass that is for a probe path or has the key. -/
theorem auth_chain_passes (hres : c.res.completed = false)
    (h : isProbePath req.url = true ∨ authorized env req = true) :
    middlewareCallHelper [errorHandlerMiddleware env, authMiddleware env] req c
      = pure (false, c) := by
  unfold middlewareCallHelper middlewareCallHelper middlewareCallHelper
  obtain h | h := h
  · simp [errorHandlerMiddleware, authMiddleware, h, hres]
  · by_cases hprobe : isProbePath req.url = true
    · simp [errorHandlerMiddleware, authMiddleware, hprobe, hres]
    · simp [errorHandlerMiddleware, authMiddleware, hprobe, h, hres]

/-- Any other request is answered here. -/
theorem auth_chain_stops (hres : c.res.completed = false) (hurl : isProbePath req.url = false)
    (hauth : authorized env req = false) :
    middlewareCallHelper [errorHandlerMiddleware env, authMiddleware env] req c
      = pure (true, { c with res := fillError env (unauthorized c.res) }) := by
  unfold middlewareCallHelper middlewareCallHelper middlewareCallHelper
  simp [errorHandlerMiddleware, authMiddleware, hurl, hauth, hres]

/-! ## §3. The chain. -/

/-- How the before handlers leave response, context and ledger. -/
inductive Chained (env : Env) (req : Request) (l : Ledger) : Bool × ConnState → Ledger → Prop where
  | stopped (c' : ConnState) (l' : Ledger) (completed : c'.res.completed = true)
      (standing : l'.standing = 0) (same : l'.req = l.req) : Chained env req l (true, c') l'
  | probe (c' : ConnState) (url : isProbePath req.url = true) (completed : c'.res.completed = false)
      (uncounted : c'.ctx.countedInflight = false) : Chained env req l (false, c') l
  | passed (c' : ConnState) (l' : Ledger) (completed : c'.res.completed = false)
      (counted : c'.ctx.countedInflight = true) (standing : l'.standing = 1)
      (same : l'.req = l.req) (gate : l'.PassedGate env) : Chained env req l (false, c') l'

/-- The chain from `LifecycleMiddleware` on. -/
theorem wp_lifecycle_chain (hreq : l.req = some req) (hstanding : l.standing = 0)
    (hctx : c.ctx.countedInflight = false) (hres : c.res.completed = false) :
    wp (books env T)
      (middlewareCallHelper
        [lifecycleMiddleware env, errorHandlerMiddleware env, authMiddleware env] req c)
      (Chained env req l) l := by
  unfold middlewareCallHelper
  rw [wp_bind]
  refine wp_mono ?_ (wp_lifecycle_before hreq hstanding hctx)
  intro c' l' hchecked
  cases hchecked with
  | probe url =>
      rw [if_neg (by simp [hres]), auth_chain_passes hres (.inl url)]
      exact .probe c url hres hctx
  | rejected c' l' completed uncounted standing same =>
      -- `after_handle` runs for the middleware that answered, and finds the flag off
      rw [if_pos completed, wp_bind]
      apply wp_lifecycle_after
      · intro h
        simp [uncounted] at h
      · rw [uncounted]
        exact .stopped c' _ completed standing same
  | admitted c' l' url res counted standing same up limit =>
      have hres' : c'.res.completed = false := by rw [res, hres]
      rw [if_neg (by simp [hres'])]
      cases hauth : authorized env req with
      | true =>
          rw [auth_chain_passes hres' (.inr hauth)]
          exact .passed c' l' hres' counted standing same
            ⟨req, by rw [same, hreq], url, up, limit, hauth⟩
      | false =>
        -- the slot taken here is given back at once
        rw [auth_chain_stops hres' url hauth, Prog.pure_bind, if_pos rfl, wp_bind]
        apply wp_lifecycle_after
        · intro _
          exact .inl standing
        · refine .stopped _ _ (by simp) ?_ ?_
          · show (l'.released c'.ctx.countedInflight).standing = 0
            rw [counted]
            show l'.standing - 1 = 0
            omega
          · show (l'.released c'.ctx.countedInflight).req = l.req
            rw [counted]
            exact same

/-- **The chain**: a request that comes through is a probe, or it holds a slot and
    has passed the gate; a request answered by a middleware holds none. -/
theorem wp_middlewares (hreq : l.req = some req) (hstanding : l.standing = 0)
    (hctx : c.ctx.countedInflight = false) :
    wp (books env T) (middlewareCallHelper (middlewares env) req c) (Chained env req l) l := by
  unfold middlewares middlewareCallHelper
  rw [wp_bind]
  apply wp_logging_before
  intro t
  by_cases hres : c.res.completed = true
  -- a response completed before the first middleware stops the chain at once
  · rw [if_pos hres, wp_bind]
    apply wp_logging_after
    exact .stopped _ _ hres hstanding rfl
  · rw [if_neg hres, wp_bind]
    refine wp_mono ?_ (wp_lifecycle_chain hreq hstanding hctx (by simpa using hres))
    intro r l' hchained
    cases hchained with
    | stopped c' l' completed standing same =>
        rw [if_pos rfl, wp_bind]
        apply wp_logging_after
        exact .stopped c' l' completed standing same
    | probe c' url completed uncounted => exact .probe c' url completed uncounted
    | passed c' l' completed counted standing same gate =>
        exact .passed c' l' completed counted standing same gate

/-- The after handlers take back what the context says was counted. -/
theorem wp_afterHandlers {Q : ConnState → Ledger → Prop}
    (hsub : c.ctx.countedInflight = true → l.standing = 1 ∨ T.unmatched l)
    (hQ : ∀ c', Q c' (l.released c.ctx.countedInflight)) :
    wp (books env T) (afterHandlersCallHelper (middlewares env) req c) Q l := by
  unfold middlewares afterHandlersCallHelper afterHandlersCallHelper
  rw [wp_bind, wp_bind]
  -- `AuthMiddleware` and `ErrorHandlerMiddleware` come first and call nothing
  show wp _ ((lifecycleMiddleware env).afterHandle req { c with res := fillError env c.res }) _ l
  apply wp_lifecycle_after (c := { c with res := fillError env c.res }) hsub
  apply wp_logging_after
  exact hQ _

/-! ## §4. A request, a connection. -/

/-- Endings without after handlers. -/
theorem wp_complete_plain {Q : Response × ConnState → Ledger → Prop} (hQ : ∀ r, Q r l) :
    wp (books env T) (completeRequest env false req c) Q l := by
  unfold completeRequest
  exact hQ _

/-- Endings with after handlers. -/
theorem wp_complete {Q : Response × ConnState → Ledger → Prop}
    (hsub : c.ctx.countedInflight = true → l.standing = 1 ∨ T.unmatched l)
    (hQ : ∀ r, Q r (l.released c.ctx.countedInflight)) :
    wp (books env T) (completeRequest env true req c) Q l := by
  unfold completeRequest
  rw [if_pos rfl, wp_bind]
  apply wp_afterHandlers hsub
  intro c'
  exact hQ _

/-- The loads of the probes. -/
def Quiet : Op → Prop
  | .atomic .loadDbReady => True
  | .atomic .loadRedisAvailable => True
  | .atomic .loadShuttingDown => True
  | .atomic (.load _) => True
  | _ => False

theorem calls_perform {S : Op → Prop} {a : Atomic} (h : S (.atomic a)) : Calls S (perform a) :=
  (calls_call (Op.atomic a)).mpr h

/-- `is_ready` reads only. -/
theorem isReady_quiet : Calls Quiet isReady := by
  unfold isReady
  apply calls_bind _ _ (calls_perform trivial)
  intro db
  split
  · exact calls_bind _ _ (calls_perform trivial) fun _ => trivial
  · trivial

/-- So does `readiness_status`. -/
theorem readinessStatus_quiet : Calls Quiet readinessStatus := by
  unfold readinessStatus
  apply calls_bind _ _ (calls_perform trivial)
  intro db
  split
  · apply calls_bind _ _ (calls_perform trivial)
    intro down
    split
    · trivial
    · apply calls_bind _ _ (calls_perform trivial)
      intro redis
      split <;> trivial
  · trivial

/-- So does the probe. -/
theorem readiness_quiet : Calls Quiet (readiness env) := by
  unfold readiness
  apply calls_bind _ _ readinessStatus_quiet
  intro _
  apply calls_bind _ _ isReady_quiet
  intro _
  apply calls_bind _ _ (calls_perform trivial)
  intro _
  apply calls_bind _ _ (calls_perform trivial)
  intro _
  apply calls_bind _ _ isReady_quiet
  intro _
  trivial

/-- So does a line of the metrics. -/
theorem counterLine_quiet (name : String) (counter : Counter) :
    Calls Quiet (counterLine name counter) := by
  unfold counterLine
  exact calls_bind _ _ (calls_perform trivial) fun _ => trivial

/-- And the ratio of the cache. -/
theorem cacheRatio_quiet (svc : Service) : Calls Quiet (cacheRatio svc) := by
  unfold cacheRatio
  apply calls_bind _ _ (calls_perform trivial)
  intro _
  apply calls_bind _ _ (calls_perform trivial)
  intro _
  split
  · trivial
  · exact calls_bind _ _ (calls_perform trivial) fun _ => trivial

/-- And the whole text. -/
theorem metricsText_quiet (svc : Service) : Calls Quiet (metricsText svc) := by
  unfold metricsText
  iterate 10 refine calls_bind _ _ (counterLine_quiet _ _) fun _ => ?_
  apply calls_bind _ _ (calls_perform trivial)
  intro _
  apply calls_bind _ _ isReady_quiet
  intro _
  apply calls_bind _ _ (cacheRatio_quiet svc)
  intro _
  apply calls_bind _ _ (calls_perform trivial)
  intro _
  apply calls_bind _ _ (calls_perform trivial)
  intro _
  exact calls_bind _ _ (counterLine_quiet _ _) fun _ => trivial

/-- Quiet code changes at most the note on `shutting_down`. -/
theorem wp_quiet {α : Type} {p : Code α} {Q : α → Ledger → Prop} (hp : Calls Quiet p)
    (hQ : ∀ a down, Q a { l with sawShutdown := down }) : wp (books env T) p Q l := by
  refine wp_of_calls (I := fun l' => ∃ down, l' = { l with sawShutdown := down }) hp ?_
    ⟨l.sawShutdown, rfl⟩ ?_
  · intro o ho l' hl
    obtain ⟨down, rfl⟩ := hl
    cases o with
    | order call inp => exact ho.elim
    | atomic a =>
        cases a with
        | loadShuttingDown => exact ⟨trivial, fun b => ⟨some b, rfl⟩⟩
        | loadDbReady => exact ⟨trivial, fun _ => ⟨down, rfl⟩⟩
        | loadRedisAvailable => exact ⟨trivial, fun _ => ⟨down, rfl⟩⟩
        | load counter => exact ⟨trivial, fun _ => ⟨down, rfl⟩⟩
        | _ => exact ho.elim
  · intro a l' hl
    obtain ⟨down, rfl⟩ := hl
    exact hQ a down

/-- A route: an order handler needs the gate, and no route touches what stands. -/
theorem wp_handleRule {svc : Service} {inp : Inputs} {params : List PathParam} {res : Response}
    {ep : Endpoint} {Q : Response → Ledger → Prop}
    (hgate : ep.isOrder = true → l.PassedGate svc.env)
    (hQ : ∀ res' down, Q res' { l with sawShutdown := down }) :
    wp (books svc.env T) (handleRule svc req inp params res ep) Q l := by
  have horder : ∀ call, l.PassedGate svc.env →
      wp (books svc.env T) (handleRule.order inp res call) Q l := by
    intro call hpassed
    exact ⟨hpassed, fun reply => hQ (answerWith res reply) l.sawShutdown⟩
  cases ep with
  | healthcheck => exact hQ _ l.sawShutdown
  | readiness =>
      unfold handleRule
      rw [wp_bind]
      exact wp_quiet readiness_quiet fun r down => hQ _ down
  | metrics =>
      unfold handleRule
      rw [wp_bind]
      exact wp_quiet (metricsText_quiet svc) fun text down => hQ _ down
  | staticDir => exact hQ _ l.sawShutdown
  | createOrder => exact horder _ (hgate rfl)
  | getOrder => exact horder _ (hgate rfl)
  | payOrder => exact horder _ (hgate rfl)
  | listOrders => exact horder _ (hgate rfl)
  | deleteOrder => exact horder _ (hgate rfl)

/-- What holds when the framework is through with a request: nothing it added is
    left, except for a request that passed the gate and went into the upgrade
    branch. -/
def Ledger.Settled (env : Env) (l : Ledger) : Prop :=
  l.standing ≤ 0 ∨
    (l.standing = 1 ∧ (∃ req, l.req = some req ∧ takesUpgrade req = true) ∧ l.PassedGate env)

/-- Crow's connection: a request without a route may subtract for an earlier one. -/
def crow (env : Env) : Terms where
  unmatched l := l.stale = true ∧ l.standing = 0
  settled := Ledger.Settled env

/-- How a request leaves the ledger. -/
structure Closed (env : Env) (l : Ledger) (h : Handled) (l' : Ledger) : Prop where
  same : l'.req = l.req
  settled : l'.Settled env
  goesOn : h.goesOn = true → l'.standing = 0

/-- A request that leaves nothing standing. -/
theorem Closed.even {h : Handled} {l' : Ledger} (hsame : l'.req = l.req) (hzero : l'.standing = 0) :
    Closed env l h l' :=
  ⟨hsame, .inl (by omega), fun _ => hzero⟩

/-- **A request with a route** leaves nothing standing. -/
theorem wp_handleRouted {svc : Service} {inp : Inputs} {params : List PathParam} {ep : Endpoint}
    (hreq : l.req = some req) (hstanding : l.standing = 0) (hctx : c.ctx.countedInflight = false)
    (hep : isProbePath req.url = true → ep.isOrder = false) :
    wp (books svc.env T) (handleRouted svc req inp params ep c) (Closed svc.env l) l := by
  unfold handleRouted
  rw [wp_bind]
  refine wp_mono ?_ (wp_middlewares hreq hstanding hctx)
  intro r l' hchained
  cases hchained with
  -- the middlewares have run their after handlers, and `complete_request`
  -- is told not to run them again
  | stopped c' l' completed standing same =>
      rw [if_pos completed, wp_bind]
      apply wp_complete_plain
      intro _
      exact .even same standing
  | probe c' url completed uncounted =>
      rw [if_neg (by simp [completed]), wp_bind]
      apply wp_handleRule
      -- a probe has not passed the gate, but its route is no order handler
      · intro horder
        rw [hep url] at horder
        cases horder
      intro res down
      rw [wp_bind]
      apply wp_complete
      · intro h
        simp [uncounted] at h
      intro _
      rw [uncounted]
      exact .even rfl hstanding
  | passed c' l' completed counted standing same gate =>
      rw [if_neg (by simp [completed]), wp_bind]
      apply wp_handleRule fun _ => gate
      intro res down
      rw [wp_bind]
      apply wp_complete
      · intro _
        exact .inl standing
      intro _
      rw [counted]
      -- the slot taken by the chain is given back by the after handlers
      refine .even same ?_
      show l'.standing - 1 = 0
      omega

/-- **A request on a connection** neither. -/
theorem wp_handle {svc : Service} {inp : Inputs} {params : List PathParam} {ep : Endpoint}
    (hreq : l.req = some req) (hstanding : l.standing = 0)
    (hep : isProbePath req.url = true → ep.isOrder = false) :
    wp (books svc.env T) (handle svc req inp params ep c) (Closed svc.env l) l := by
  unfold handle
  dsimp only
  -- no Host: answered 400 in front of the middlewares
  by_cases hinvalid : isInvalidRequest req = true
  · rw [if_pos hinvalid, wp_bind]
    apply wp_complete_plain
    intro _
    exact .even rfl hstanding
  rw [if_neg hinvalid]
  by_cases hupgrade : takesUpgrade req = true
  · rw [if_pos hupgrade, wp_bind]
    refine wp_mono ?_ (wp_middlewares hreq hstanding rfl)
    intro r l' hchained
    cases hchained with
    | stopped c' l' completed standing same => exact .even same standing
    | probe c' url completed uncounted => exact .even rfl hstanding
    | passed c' l' completed counted standing same gate =>
        -- nobody gives this slot back
        refine ⟨same, .inr ⟨standing, ⟨req, ?_, hupgrade⟩, gate⟩, fun h => by cases h⟩
        rw [same, hreq]
  · rw [if_neg hupgrade]
    exact wp_handleRouted hreq hstanding rfl hep

/-- Nor does its dispatch, but for a stale context. -/
theorem wp_dispatch {svc : Service} {v : Visit}
    (hT : l.stale = true → l.standing = 0 → T.unmatched l) (hreq : l.req = some v.req)
    (hstanding : l.standing = 0) (hstale : l.stale = (unrouted v.req && c.ctx.countedInflight)) :
    wp (books svc.env T) (dispatch svc c v) (Closed svc.env l) l := by
  unfold dispatch
  dsimp only
  by_cases hfound : (handleInitial router v.req c.res).1.ruleIndex = 0
  · rw [if_pos hfound]
    have hunrouted : unrouted v.req = true := by simp [unrouted_eq v.req c.res, hfound]
    unfold handleUnrouted
    rw [wp_bind]
    apply wp_complete
    · intro hcounted
      refine .inr (hT ?_ hstanding)
      rw [hstale, hunrouted]
      exact hcounted
    -- a subtraction here leaves the balance at -1, and the connection ends
    intro r
    refine ⟨?_, .inl ?_, fun h => by cases h⟩
    · unfold Ledger.released
      split <;> rfl
    · unfold Ledger.released
      split
      · show l.standing - 1 ≤ 0
        omega
      · show l.standing ≤ 0
        omega
  · rw [if_neg hfound]
    obtain ⟨ep, hep⟩ := exists_endpoint hfound
    rw [hep]
    exact wp_handle hreq hstanding fun hprobe => probe_endpoint hprobe hep

/-- **A visit**, and the next one may come. -/
theorem wp_exchange {svc : Service} {v : Visit} (hreq : l.req = none) (hstanding : l.standing = 0) :
    wp (books svc.env (crow svc.env)) (exchange svc c v)
      (fun h l' => l'.req = none ∧ (h.goesOn = true → l'.standing = 0)) l := by
  unfold exchange
  rw [wp_perform]
  refine ⟨⟨hreq, hstanding⟩, ?_⟩
  intro _
  rw [wp_bind]
  refine wp_mono ?_ (wp_dispatch (fun hstale hzero => ⟨hstale, hzero⟩) rfl rfl rfl)
  intro h l' hclosed
  rw [wp_perform]
  exact ⟨hclosed.settled, fun _ => ⟨rfl, hclosed.goesOn⟩⟩

/-- **A connection keeps the books**, whatever requests it receives. -/
theorem wp_serve (svc : Service) (vs : List Visit) :
    ∀ (c : ConnState) (l : Ledger), l.req = none → l.standing = 0 →
      wp (books svc.env (crow svc.env)) (serve svc c vs) (fun _ _ => True) l := by
  -- by induction on the requests: a connection that goes on has nothing standing
  induction vs with
  | nil =>
      intro c l _ _
      trivial
  | cons v vs ih =>
      intro c l hreq hstanding
      unfold serve
      rw [wp_bind]
      refine wp_mono ?_ (wp_exchange hreq hstanding)
      intro h l' hpost
      by_cases hgoes : h.goesOn = true
      · rw [if_pos hgoes]
        exact ih h.conn l' hpost.1 (hpost.2 hgoes)
      · rw [if_neg hgoes]
        trivial

end

end OrderApi.Server
