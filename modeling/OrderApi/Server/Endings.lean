/-
  OrderApi.Server.Endings
  ───────────────────────
  **HOW A REQUEST CAN END.**

  `Trail` follows the calls of a connection for its current request, whatever
  they return.  `Allows` says what is known at each of them: which request a
  sample measures, what let a request into an order handler, and which
  `Answer` is written in the end, with the response it consists of.  The
  specifications go through the code once (`wp_exchange`); `follows_opened` then
  holds every connection of the server to them.
-/
import OrderApi.Server.Chain
import OrderApi.Server.Workers

namespace OrderApi.Server

open OrderApi.Lib
open OrderApi.Lib.Prog
open OrderApi.Crow
open OrderApi.Model

/-! ## §1. The trail of a request. -/

/-- What a connection has done for its current or last request. -/
structure Trail where
  /-- The connection as it was when the request came, and the request. -/
  current : Option (ConnState × Request) := none
  /-- The connection has carried a HEAD. -/
  heads : Bool := false
  /-- The start time a sample is measured from. -/
  start : Option Int := none
  /-- The last reading of the clock. -/
  last : Option Int := none
  /-- What the loads of `shutting_down` returned. -/
  loads : List Bool := []
  /-- `db_ready` was loaded. -/
  probed : Bool := false
  /-- Additions to `shutdown_rejections`. -/
  rejections : Nat := 0
  /-- Operations on `in_flight_requests`. -/
  touches : Nat := 0
  /-- How the order handler ended. -/
  reply : Option Reply := none
  /-- Calls since the request came. -/
  moves : Nat := 0

/-- The fields other than the number of calls. -/
def Trail.mark : (o : Op) → Op.Res o → Trail → Trail
  | .atomic (.finished _), _, l => { l with current := none }
  | .atomic .now, (t : Int), l => { l with start := some (l.start.getD t), last := some t }
  | .atomic .loadShuttingDown, (b : Bool), l => { l with loads := l.loads ++ [b] }
  | .atomic .loadDbReady, _, l => { l with probed := true }
  | .atomic .inFlightAdd, _, l => { l with touches := l.touches + 1 }
  | .atomic .inFlightSub, _, l => { l with touches := l.touches + 1 }
  | .atomic (.count .shutdownRejections), _, l => { l with rejections := l.rejections + 1 }
  | .order _ _, (reply : Reply), l => { l with reply := some reply }
  | _, _, l => l

/-- How the trail follows a call. -/
def Trail.note : (o : Op) → Op.Res o → Trail → Trail
  | .atomic (.received conn req), _, l =>
      { current := some (conn, req)
        heads := l.heads || req.method = .head
        -- `handle_url` answers on the context the last request left
        start := if unrouted req then some conn.ctx.startTime else none }
  | o, r, l => { Trail.mark o r l with moves := l.moves + 1 }

/-- The response as `handle` finds it. -/
def arrived (c : ConnState) (req : Request) : Response :=
  (handleHeader req { c with res := (handleInitial router req c.res).2 }).res

/-- What a route leaves in the response. -/
inductive Served (svc : Service) (res : Response) (l : Trail) : Endpoint → Response → Prop where
  | healthcheck : Served svc res l .healthcheck (answerWith res (.returned (healthcheck svc.env)))
  | readiness (status : String) (ready db redis readyNow : Bool)
      (up : readyNow = true → false ∈ l.loads) :
      Served svc res l .readiness (answerWith res (.returned
        (Response.ofJson (if readyNow then 200 else 503)
          (svc.env.dump (.object [("status", .str status), ("ready", .bool ready),
            ("db_ready", .bool db), ("redis_available", .bool redis)])))))
  | metrics (text : String) :
      Served svc res l .metrics (answerWith res (.returned (metricsResponse text)))
  | staticDir (path : String) : Served svc res l .staticDir (serveStatic svc res path)
  | order (ep : Endpoint) (isOrder : ep.isOrder = true) (reply : Reply)
      (ended : l.reply = some reply) : Served svc res l ep (answerWith res reply)

/-- The response that is about to be written. -/
inductive Answer (svc : Service) (c : ConnState) (req : Request) (l : Trail) : Response → Prop where
  | unrouted (route : Server.unrouted req = true) (loads : l.loads = [])
      (probed : l.probed = false) :
      Answer svc c req l (fillError svc.env (handleInitial router req c.res).2)
  | invalid (host : isInvalidRequest req = true) (loads : l.loads = [])
      (probed : l.probed = false) : Answer svc c req l ((arrived c req).assign (.ofCode 400))
  | down (url : isProbePath req.url = false) (loads : l.loads = [true])
      (rejections : l.rejections = 1) (touches : l.touches = 0) :
      Answer svc c req l (rejection svc.env (arrived c req) "Server is shutting down" "5")
  | overloaded (url : isProbePath req.url = false) (loads : l.loads = [false]) :
      Answer svc c req l (rejection svc.env (arrived c req) "Server overloaded" "1")
  | unauthorized (url : isProbePath req.url = false) (loads : l.loads = [false]) :
      Answer svc c req l (fillError svc.env (Server.unauthorized (arrived c req)))
  | handled (ep : Endpoint) (res : Response)
      (found : router.endpoint (handleInitial router req c.res).1 = some ep)
      (gate : isProbePath req.url = false → false ∈ l.loads)
      (served : Served svc (arrived c req) l ep res) : Answer svc c req l (fillError svc.env res)

/-- What is handed to the socket. -/
inductive Ending (svc : Service) (c : ConnState) (req : Request) (l : Trail) :
    Option Response → Prop where
  | written (c' : ConnState) (answer : Answer svc c req l c'.res) :
      Ending svc c req l (some (prepareBuffers c'))
  | upgraded (upgrade : takesUpgrade req = true)
      (quiet : isProbePath req.url = true → l.loads = [] ∧ l.probed = false) :
      Ending svc c req l none

/-- A response into which nothing has been written. -/
structure Blank (res : Response) : Prop where
  body : res.body = ""
  skipBody : res.skipBody = false

/-- Requests that are through after a few calls. -/
def Trail.Swift (l : Trail) : Prop :=
  ∃ c req, l.current = some (c, req) ∧
    ((isProbePath req.url = false ∧ l.loads ≠ [] ∧ false ∉ l.loads) ∨ req.url = "/readiness")

/-- What is known at a call. -/
def Trail.Knows (svc : Service) : Op → Trail → Prop
  | .atomic (.received conn _), l => l.heads = false → Blank conn.res
  | .atomic .now, l => l.current.isSome = true
  | .atomic (.observe d), l => ∃ t₀ t, l.start = some t₀ ∧ l.last = some t ∧ d = t - t₀
  | .atomic (.finished sent), l =>
      ∃ c req, l.current = some (c, req) ∧ (l.heads = false → Blank c.res ∧ req.method ≠ .head) ∧
        Ending svc c req l sent
  | .order _ _, l =>
      ∃ c req, l.current = some (c, req) ∧ isProbePath req.url = false ∧ l.loads = [false]
  | _, _ => True

/-- When a call may be made. -/
def Trail.Allows (svc : Service) (o : Op) (l : Trail) : Prop :=
  (l.Swift → l.moves < 20) ∧ Trail.Knows svc o l

/-- The trail as a discipline. -/
def trails (svc : Service) : Discipline Op Op.Res Trail where
  pre := Trail.Allows svc
  next := Trail.note

/-! ## §2. The middlewares. -/

section
variable {svc : Service} {l : Trail} {req : Request} {c : ConnState}

/-- A call and what follows it. -/
theorem wp_atomic {β : Type} (a : Atomic) {f : a.Res → Code β} {Q : β → Trail → Prop} :
    wp (trails svc) (perform a >>= f) Q l ↔
      Trail.Allows svc (.atomic a) l ∧
        ∀ r : a.Res, wp (trails svc) (f r) Q (Trail.note (.atomic a) r l) :=
  wp_bind (D := trails svc) (perform a) f

/-- The three calls that log a request and its duration. -/
theorem wp_logged {start : Int} {Q : Unit → Trail → Prop} (hcurrent : l.current.isSome = true)
    (hstart : l.start = some start) (hmoves : l.Swift → l.moves < 17)
    (hQ : ∀ t, Q () { l with last := some t, moves := l.moves + 3 }) :
    wp (trails svc) (logged start) Q l := by
  unfold logged
  rw [wp_atomic]
  refine ⟨⟨fun h => Nat.lt_of_lt_of_le (hmoves h) (by decide), hcurrent⟩, ?_⟩
  intro (t : Int)
  rw [wp_atomic]
  -- neither call changes what makes a request swift
  have hswift : l.Swift → l.moves + 2 < 20 := fun h => by
    have := hmoves h
    omega
  refine ⟨⟨fun h => Nat.lt_of_succ_lt (hswift h), trivial⟩, ?_⟩
  intro _
  refine ⟨⟨hswift, start, t, ?_, rfl, rfl⟩, ?_⟩
  · show some (l.start.getD t) = some start
    rw [hstart]
    rfl
  · intro _
    have hlast : Trail.note (.atomic (.observe (t - start))) ()
        (Trail.note (.atomic (.count .totalRequests)) () (Trail.note (.atomic .now) t l))
          = { l with last := some t, moves := l.moves + 3 } := by
      simp [Trail.note, Trail.mark, hstart]
    show Q () (Trail.note (.atomic (.observe (t - start))) () _)
    rw [hlast]
    exact hQ t

/-- How the before handlers end for the request that found the connection in `c`. -/
inductive ChainEnd (svc : Service) (c : ConnState) (req : Request) (h : Bool) :
    Bool × ConnState → Trail → Prop where
  | stopped (c' : ConnState) (l' : Trail) (url : isProbePath req.url = false)
      (current : l'.current = some (c, req)) (heads : l'.heads = h)
      (answer : Answer svc c req l' c'.res)
      (completed : c'.res.completed = true) (skipBody : c'.res.skipBody = (arrived c req).skipBody)
      (moves : l'.moves < 20) : ChainEnd svc c req h (true, c') l'
  | through (c' : ConnState) (l' : Trail) (current : l'.current = some (c, req))
      (heads : l'.heads = h) (res : c'.res = arrived c req)
      (start : l'.start = some c'.ctx.startTime)
      (gate : isProbePath req.url = false → l'.loads = [false])
      (quiet : isProbePath req.url = true → l'.loads = [] ∧ l'.probed = false)
      (moves : l'.moves ≤ 4) : ChainEnd svc c req h (false, c') l'

/-- The chain keeps the request on the trail, and a probe has loaded nothing. -/
theorem ChainEnd.trail {h : Bool} {r : Bool × ConnState} {l' : Trail}
    (hend : ChainEnd svc c req h r l') :
    l'.current = some (c, req) ∧ l'.heads = h ∧ l'.moves < 20
      ∧ (isProbePath req.url = true → l'.loads = [] ∧ l'.probed = false) := by
  cases hend with
  | stopped c' l' url current heads answer completed skipBody moves =>
      refine ⟨current, heads, moves, ?_⟩
      intro hprobe
      rw [url] at hprobe
      cases hprobe
  | through c' l' current heads res start gate quiet moves =>
      exact ⟨current, heads, Nat.lt_of_le_of_lt moves (by decide), quiet⟩

/-- **The before handlers.** -/
theorem wp_chain {c₁ : ConnState} {h : Bool} (hres : c₁.res = arrived c req) :
    wp (trails svc) (chain svc.env req c₁) (ChainEnd svc c req h)
      { current := some (c, req), heads := h } := by
  unfold chain
  rw [wp_atomic]
  refine ⟨⟨fun _ => by simp, rfl⟩, ?_⟩
  intro (t : Int)
  by_cases hprobe : isProbePath req.url = true
  · rw [if_pos hprobe]
    refine .through _ _ rfl rfl hres rfl ?_ (fun _ => ⟨rfl, rfl⟩) (by simp [Trail.note])
    intro hbusiness
    rw [hprobe] at hbusiness
    cases hbusiness
  have hbusiness : isProbePath req.url = false := by simpa using hprobe
  rw [if_neg hprobe, wp_atomic]
  refine ⟨⟨fun _ => by simp [Trail.note], trivial⟩, ?_⟩
  intro (down : Bool)
  cases down with
  | true =>
      rw [if_pos rfl, wp_atomic]
      refine ⟨⟨fun _ => by simp [Trail.note], trivial⟩, ?_⟩
      intro _
      rw [wp_bind]
      apply wp_logged rfl rfl fun _ => by simp [Trail.note]
      intro t'
      rw [hres]
      exact .stopped _ _ hbusiness rfl rfl (.down hbusiness rfl rfl rfl)
        (by simp) (by simp) (by simp [Trail.note])
  | false =>
      rw [if_neg (by decide), wp_atomic]
      refine ⟨⟨fun _ => by simp [Trail.note], trivial⟩, ?_⟩
      intro (old : Int)
      rw [wp_atomic]
      refine ⟨⟨fun _ => by simp [Trail.note], trivial⟩, ?_⟩
      intro (limit : Int)
      by_cases hlimit : inc32 old > limit
      · rw [if_pos hlimit, wp_atomic]
        refine ⟨⟨fun _ => by simp [Trail.note], trivial⟩, ?_⟩
        intro _
        rw [wp_atomic]
        refine ⟨⟨fun _ => by simp [Trail.note], trivial⟩, ?_⟩
        intro _
        rw [wp_bind]
        apply wp_logged rfl rfl fun _ => by simp [Trail.note]
        intro t'
        rw [hres]
        exact .stopped _ _ hbusiness rfl rfl (.overloaded hbusiness rfl)
          (by simp) (by simp) (by simp [Trail.note])
      rw [if_neg hlimit]
      by_cases hauth : authorized svc.env req = true
      · rw [if_pos hauth]
        exact .through _ _ rfl rfl hres rfl (fun _ => rfl) (fun h => absurd h hprobe)
          (by simp [Trail.note])
      · rw [if_neg hauth, wp_atomic]
        refine ⟨⟨fun _ => by simp [Trail.note], trivial⟩, ?_⟩
        intro _
        rw [wp_bind]
        apply wp_logged rfl rfl fun _ => by simp [Trail.note]
        intro t'
        rw [hres]
        exact .stopped _ _ hbusiness rfl rfl (.unauthorized hbusiness rfl)
          (by simp) (by simp) (by simp [Trail.note])

/-! ## §3. The routes. -/

/-- The second trail comes from the first by at most `n` loads. -/
structure Looked (n : Nat) (l l' : Trail) : Prop where
  same : l' = { l with loads := l'.loads, probed := l'.probed, moves := l'.moves }
  loads : ∀ b ∈ l.loads, b ∈ l'.loads
  moves : l'.moves ≤ l.moves + n

/-- One stretch of quiet calls after the other. -/
theorem Looked.trans {m n : Nat} {l₁ l₂ l₃ : Trail} (h : Looked m l₁ l₂) (h' : Looked n l₂ l₃) :
    Looked (m + n) l₁ l₃ := by
  refine ⟨?_, fun b hb => h'.loads b (h.loads b hb), ?_⟩
  · rw [h'.same, h.same]
  · have := h.moves
    have := h'.moves
    omega

theorem Looked.mono {m n : Nat} {l₁ l₂ : Trail} (h : Looked m l₁ l₂) (hle : m ≤ n) :
    Looked n l₁ l₂ := by
  refine ⟨h.same, h.loads, ?_⟩
  have := h.moves
  omega

/-- A quiet call is one more. -/
theorem looked_note {a : Atomic} (ha : Quiet (.atomic a)) (r : a.Res) (l : Trail) :
    Looked 1 l (Trail.note (.atomic a) r l) := by
  cases a with
  | loadShuttingDown => exact ⟨rfl, fun b hb => List.mem_append_left _ hb, Nat.le_refl _⟩
  | loadDbReady => exact ⟨rfl, fun b hb => hb, Nat.le_refl _⟩
  | loadRedisAvailable => exact ⟨rfl, fun b hb => hb, Nat.le_refl _⟩
  | load counter => exact ⟨rfl, fun b hb => hb, Nat.le_refl _⟩
  | _ => exact ha.elim

/-- A quiet call is allowed to everybody who has moves left. -/
theorem allows_quiet {a : Atomic} (ha : Quiet (.atomic a)) (hmoves : l.Swift → l.moves < 20) :
    Trail.Allows svc (.atomic a) l := by
  refine ⟨hmoves, ?_⟩
  cases a <;> trivial

/-- One load, and what follows it. -/
theorem wp_look {β : Type} {a : Atomic} {f : a.Res → Code β} {Q : β → Trail → Prop}
    (ha : Quiet (.atomic a)) (hmoves : l.moves < 20)
    (hf : ∀ (r : a.Res) (l' : Trail), l' = Trail.note (.atomic a) r l → Looked 1 l l' →
      wp (trails svc) (f r) Q l') : wp (trails svc) (perform a >>= f) Q l := by
  rw [wp_atomic]
  refine ⟨allows_quiet ha fun _ => hmoves, ?_⟩
  intro r
  exact hf r _ rfl (looked_note ha r l)

/-- `is_ready`: ready only if the flag was down. -/
theorem wp_isReady (hmoves : l.moves + 2 ≤ 20) :
    wp (trails svc) isReady
      (fun ready l' => Looked 2 l l' ∧ (ready = true → false ∈ l'.loads)) l := by
  unfold isReady
  refine wp_look trivial (by omega) fun (db : Bool) l₁ _ h₁ => ?_
  have hle := h₁.moves
  cases db with
  | false => exact ⟨h₁.mono (by decide), fun h => by cases h⟩
  | true =>
      rw [if_pos rfl]
      refine wp_look trivial (by omega) fun (down : Bool) l₂ hl₂ h₂ => ?_
      refine ⟨h₁.trans h₂, ?_⟩
      intro hready
      -- the value negated here is the last one on the trail
      have hdown : down = false := by simpa using hready
      rw [hl₂, hdown]
      exact List.mem_append_right _ (List.mem_singleton.mpr rfl)

/-- `readiness_status`. -/
theorem wp_readinessStatus (hmoves : l.moves + 3 ≤ 20) :
    wp (trails svc) readinessStatus (fun _ l' => Looked 3 l l') l := by
  unfold readinessStatus
  refine wp_look trivial (by omega) fun (db : Bool) l₁ _ h₁ => ?_
  have hle₁ := h₁.moves
  cases db with
  | false => exact h₁.mono (by decide)
  | true =>
      rw [if_pos rfl]
      refine wp_look trivial (by omega) fun (down : Bool) l₂ _ h₂ => ?_
      have hle₂ := h₂.moves
      cases down with
      | true => exact (h₁.trans h₂).mono (by decide)
      | false =>
          rw [if_neg (by decide)]
          refine wp_look trivial (by omega) fun (redis : Bool) l₃ _ h₃ => ?_
          cases redis <;> exact (h₁.trans h₂).trans h₃

/-- The readiness probe. -/
theorem wp_readiness (res : Response) (hmoves : l.moves ≤ 4) :
    wp (trails svc) (readiness svc.env)
      (fun r l' =>
        Looked 9 l l' ∧ Served svc res l' .readiness (answerWith res (.returned r))) l := by
  unfold readiness
  rw [wp_bind]
  refine wp_mono ?_ (wp_readinessStatus (by omega))
  intro status l₁ h₁
  have hle₁ := h₁.moves
  rw [wp_bind]
  refine wp_mono ?_ (wp_isReady (by omega))
  intro ready l₂ h₂
  have hle₂ := h₂.1.moves
  refine wp_look trivial (by omega) fun (db : Bool) l₃ _ h₃ => ?_
  have hle₃ := h₃.moves
  refine wp_look trivial (by omega) fun (redis : Bool) l₄ _ h₄ => ?_
  have hle₄ := h₄.moves
  rw [wp_bind]
  refine wp_mono ?_ (wp_isReady (by omega))
  intro readyNow l₅ h₅
  exact ⟨(((h₁.trans h₂.1).trans h₃).trans h₄).trans h₅.1,
    .readiness status ready db redis readyNow h₅.2⟩

/-- A request that has loaded the flag is none of the swift ones. -/
theorem not_swift (hcurrent : l.current = some (c, req)) (hurl : req.url ≠ "/readiness")
    (hloads : isProbePath req.url = false → false ∈ l.loads) : ¬ l.Swift := by
  rintro ⟨c', req', hcurrent', h⟩
  obtain ⟨-, rfl⟩ := Prod.mk.inj (Option.some.inj (hcurrent.symm.trans hcurrent'))
  obtain ⟨hbusiness, -, hdown⟩ | hreadiness := h
  · exact hdown (hloads hbusiness)
  · exact hurl hreadiness

/-- The loads of the metrics page. -/
theorem wp_metricsText (hnot : ∀ n l', Looked n l l' → ¬ l'.Swift) :
    wp (trails svc) (metricsText svc) (fun _ l' => ∃ n, Looked n l l') l := by
  refine wp_of_calls (I := fun l' => ∃ n, Looked n l l') (metricsText_quiet svc) ?_
    ⟨0, rfl, fun b hb => hb, Nat.le_refl _⟩ (fun _ _ h => h)
  intro o ho l' hl
  obtain ⟨n, hlooked⟩ := hl
  cases o with
  | order call inp => exact ho.elim
  | atomic a =>
      refine ⟨allows_quiet ho fun hswift => absurd hswift (hnot n l' hlooked), ?_⟩
      intro r
      exact ⟨n + 1, hlooked.trans (looked_note ho r l')⟩

/-- How a route leaves response and trail. -/
structure RouteEnd (svc : Service) (req : Request) (res : Response) (l : Trail) (ep : Endpoint)
    (res' : Response) (l' : Trail) : Prop where
  current : l'.current = l.current
  heads : l'.heads = l.heads
  start : l'.start = l.start
  gate : isProbePath req.url = false → false ∈ l'.loads
  served : Served svc res l' ep res'
  moves : l'.Swift → l'.moves ≤ 13

/-- A route that only looked around. -/
theorem RouteEnd.of_looked {res res' : Response} {ep : Endpoint} {n : Nat} {l' : Trail}
    (h : Looked n l l') (hgate : isProbePath req.url = false → false ∈ l.loads)
    (hserved : Served svc res l' ep res') (hmoves : l'.Swift → l'.moves ≤ 13) :
    RouteEnd svc req res l ep res' l' := by
  refine ⟨?_, ?_, ?_, fun hurl => h.loads _ (hgate hurl), hserved, hmoves⟩
  · rw [h.same]
  · rw [h.same]
  · rw [h.same]

/-- **A route**, order handlers included. -/
theorem wp_route {ep : Endpoint} {inp : Inputs} {params : List PathParam} {res : Response}
    (hcurrent : l.current = some (c, req))
    (hfound : router.endpoint (handleInitial router req c.res).1 = some ep)
    (hgate : isProbePath req.url = false → l.loads = [false])
    (hmoves : l.moves ≤ 4) :
    wp (trails svc) (handleRule svc req inp params res ep) (RouteEnd svc req res l ep) l := by
  have hfalse : isProbePath req.url = false → false ∈ l.loads := by
    intro hurl
    rw [hgate hurl]
    exact List.mem_singleton.mpr rfl
  -- any other route than `/readiness` has no swift request
  have hslow : ep ≠ .readiness → ∀ n l', Looked n l l' → ¬ l'.Swift := by
    intro hne n l' hlooked
    refine not_swift (c := c) ?_ (fun hurl => hne (readiness_endpoint hurl hfound)) fun hurl =>
      hlooked.loads _ (hfalse hurl)
    rw [hlooked.same]
    exact hcurrent
  have hstay : Looked 0 l l := ⟨rfl, fun b hb => hb, Nat.le_refl _⟩
  have horder : ∀ call, ep.isOrder = true →
      wp (trails svc) (handleRule.order inp res call) (RouteEnd svc req res l ep) l := by
    intro call hep
    have hbusiness : isProbePath req.url = false := by
      by_contra hurl
      have hprobe : isProbePath req.url = true := by simpa using hurl
      rw [probe_endpoint hprobe hfound] at hep
      cases hep
    have hnot : ¬ l.Swift := hslow (fun h => by rw [h] at hep; cases hep) 0 l hstay
    refine ⟨⟨fun h => absurd h hnot, c, req, hcurrent, hbusiness, hgate hbusiness⟩, ?_⟩
    intro reply
    exact ⟨rfl, rfl, rfl, hfalse, .order ep hep reply rfl, fun h => absurd h hnot⟩
  cases ep with
  | healthcheck =>
      exact .of_looked hstay hfalse .healthcheck fun h => absurd h (hslow (by decide) 0 l hstay)
  | readiness =>
      unfold handleRule
      rw [wp_bind]
      refine wp_mono ?_ (wp_readiness res hmoves)
      intro r l' h
      refine .of_looked h.1 hfalse h.2 ?_
      intro _
      have := h.1.moves
      omega
  | metrics =>
      unfold handleRule
      rw [wp_bind]
      refine wp_mono ?_ (wp_metricsText (hslow (by decide)))
      intro text l' h
      obtain ⟨n, hlooked⟩ := h
      exact .of_looked hlooked hfalse (.metrics text) fun h =>
        absurd h (hslow (by decide) n l' hlooked)
  | staticDir =>
      exact .of_looked hstay hfalse (.staticDir _) fun h => absurd h (hslow (by decide) 0 l hstay)
  | createOrder => exact horder _ rfl
  | getOrder => exact horder _ rfl
  | payOrder => exact horder _ rfl
  | listOrders => exact horder _ rfl
  | deleteOrder => exact horder _ rfl

/-! ## §4. A request, a connection. -/

/-- The after handlers, then the write. -/
theorem wp_windUp {c' : ConnState} {Q : Response × ConnState → Trail → Prop}
    (hcurrent : l.current.isSome = true) (hstart : l.start = some c'.ctx.startTime)
    (hmoves : l.Swift → l.moves ≤ 13)
    (hQ : ∀ t n m, (l.Swift → m < 20) →
      Q (prepareBuffers { c' with res := fillError svc.env c'.res },
          { c' with res := (fillError svc.env c'.res).clear })
        { l with last := some t, touches := n, moves := m }) :
    wp (trails svc) (windUp svc.env c') Q l := by
  unfold windUp release
  by_cases hcounted : c'.ctx.countedInflight = true
  · rw [if_pos hcounted, wp_atomic]
    refine ⟨⟨fun h => Nat.lt_of_le_of_lt (hmoves h) (by decide), trivial⟩, ?_⟩
    intro _
    rw [wp_bind]
    refine wp_logged hcurrent hstart (fun h => ?_) fun t => ?_
    · show l.moves + 1 < 17
      have := hmoves h
      omega
    · refine hQ t (l.touches + 1) (l.moves + 1 + 3) fun h => ?_
      have := hmoves h
      omega
  · rw [if_neg hcounted, Prog.pure_bind, wp_bind]
    refine wp_logged hcurrent hstart (fun h => Nat.lt_of_le_of_lt (hmoves h) (by decide))
      fun t => ?_
    refine hQ t l.touches (l.moves + 3) fun h => ?_
    have := hmoves h
    omega

/-- The after handlers do not touch what a route left. -/
theorem Served.frame {res res' : Response} {ep : Endpoint} (h : Served svc res l ep res')
    (t : Option Int) (n m : Nat) :
    Served svc res { l with last := t, touches := n, moves := m } ep res' := by
  cases h with
  | healthcheck => exact .healthcheck
  | readiness status ready db redis readyNow up =>
      exact .readiness status ready db redis readyNow up
  | metrics text => exact .metrics text
  | staticDir path => exact .staticDir path
  | order ep isOrder reply ended => exact .order ep isOrder reply ended

/-- A routed request finds an open response. -/
theorem arrived_completed {ep : Endpoint}
    (hfound : router.endpoint (handleInitial router req c.res).1 = some ep)
    (hopen : c.res.completed = false) : (arrived c req).completed = false := by
  unfold arrived handleHeader
  rw [handleInitial_routed router (router.index_ne_zero hfound)]
  split
  · rfl
  · split <;> exact hopen

/-- A response without a body arrives without one, unless the request is a `HEAD`. -/
theorem arrived_blank (hmethod : req.method ≠ .head) (h : Blank c.res) : Blank (arrived c req) := by
  -- routed or not, the router writes no body
  have hinitial : Blank (handleInitial router req c.res).2 := by
    obtain ⟨-, hres⟩ | hunrouted := handleInitial_cases router c.res hmethod
    · rw [hres]
      exact h
    · exact ⟨hunrouted.body h.body h.skipBody, hunrouted.skipBody.trans h.skipBody⟩
  unfold arrived handleHeader
  split
  · exact ⟨rfl, hinitial.skipBody⟩
  · exact hinitial

/-- How a request leaves connection and trail. -/
structure Concluded (svc : Service) (c : ConnState) (req : Request) (heads : Bool) (h : Handled)
    (l : Trail) : Prop where
  current : l.current = some (c, req)
  same : l.heads = heads
  ending : Ending svc c req l h.sent
  moves : l.Swift → l.moves < 20
  idle : h.goesOn = true → h.conn.res.completed = false
  blank : h.goesOn = true → req.method ≠ .head → Blank c.res → Blank h.conn.res

theorem afterCompletion_completed (req : Request) (c : ConnState) :
    (afterCompletion req c).res.completed = c.res.completed := by
  unfold afterCompletion
  dsimp only
  split <;> rfl

theorem afterCompletion_blank (req : Request) {c : ConnState} (h : c.res.body = "") :
    Blank (afterCompletion req c).res := by
  unfold afterCompletion
  dsimp only
  split <;> exact ⟨h, rfl⟩

/-- **A request with a route.** -/
theorem wp_handleRouted_trail {inp : Inputs} {params : List PathParam} {ep : Endpoint}
    {c₁ : ConnState} {heads : Bool} (hres : c₁.res = arrived c req) (hctx : c₁.ctx = {})
    (hopen : c.res.completed = false)
    (hfound : router.endpoint (handleInitial router req c.res).1 = some ep) :
    wp (trails svc) (handleRouted svc req inp params ep c₁) (Concluded svc c req heads)
      { current := some (c, req), heads } := by
  have hfresh := arrived_completed hfound hopen
  unfold handleRouted
  rw [chain_eq (by rw [hres, hfresh]) hctx, wp_bind]
  refine wp_mono ?_ (wp_chain hres)
  intro r l' hend
  cases hend with
  | stopped c' l' url current same answer completed skipBody moves =>
      rw [if_pos completed, completeRequest_plain]
      refine ⟨current, same, .written c' answer, fun _ => moves, fun _ => rfl, ?_⟩
      intro _ hmethod hblank
      exact ⟨rfl, skipBody.trans (arrived_blank hmethod hblank).skipBody⟩
  | through c' l' current same res start gate quiet moves =>
      rw [if_neg (by simp [res, hfresh]), wp_bind]
      refine wp_mono ?_ (wp_route current hfound gate moves)
      intro res' l'' hroute
      rw [completeRequest_eq, wp_bind]
      refine wp_windUp (by rw [hroute.current, current]; rfl) (hroute.start.trans start)
        hroute.moves fun t n m hm => ?_
      refine ⟨hroute.current.trans current, hroute.heads.trans same, .written _ ?_, hm, ?_, ?_⟩
      · refine .handled ep res' hfound hroute.gate ?_
        rw [← res]
        exact hroute.served.frame (some t) n m
      · intro _
        exact afterCompletion_completed req _
      · intro _ _ _
        exact afterCompletion_blank req rfl

/-- **A request on a connection**: upgrade, missing `Host`, or the route. -/
theorem wp_handle_trail {inp : Inputs} {params : List PathParam} {ep : Endpoint} {c₁ : ConnState}
    {heads : Bool} (hres : c₁.res = arrived c req) (hopen : c.res.completed = false)
    (hfound : router.endpoint (handleInitial router req c.res).1 = some ep) :
    wp (trails svc) (handle svc req inp params ep c₁) (Concluded svc c req heads)
      { current := some (c, req), heads } := by
  unfold handle
  dsimp only
  by_cases hinvalid : isInvalidRequest req = true
  · rw [if_pos hinvalid, completeRequest_plain, hres]
    refine ⟨rfl, rfl, .written _ (.invalid hinvalid rfl rfl), fun _ => by simp, fun _ => rfl, ?_⟩
    intro _ hmethod hblank
    exact ⟨rfl, (arrived_blank hmethod hblank).skipBody⟩
  rw [if_neg hinvalid]
  by_cases hupgrade : takesUpgrade req = true
  · have hfresh := arrived_completed hfound hopen
    rw [if_pos hupgrade, chain_eq (by rw [hres, hfresh]) rfl, wp_bind]
    refine wp_mono ?_ (wp_chain hres)
    intro r l' hend
    obtain ⟨current, same, moves, quiet⟩ := hend.trail
    refine ⟨current, same, .upgraded hupgrade quiet, fun _ => moves, ?_, ?_⟩
    · intro h
      cases h
    · intro h
      cases h
  · rw [if_neg hupgrade]
    exact wp_handleRouted_trail hres rfl hopen hfound

/-- **Its dispatch**, with or without a route. -/
theorem wp_dispatch_trail {v : Visit} (hopen : c.res.completed = false) :
    wp (trails svc) (dispatch svc c v) (Concluded svc c v.req (l.heads || v.req.method = .head))
      (Trail.note (.atomic (.received c v.req)) () l) := by
  unfold dispatch
  dsimp only
  by_cases hfound : (handleInitial router v.req c.res).1.ruleIndex = 0
  · have hunrouted : unrouted v.req = true := by simp [unrouted_eq v.req c.res, hfound]
    rw [if_pos hfound]
    unfold handleUnrouted
    rw [completeRequest_eq, wp_bind]
    -- the start time is the one the context has from before
    have hstart : (Trail.note (.atomic (.received c v.req)) () l).start
        = some c.ctx.startTime := by
      show (if unrouted v.req = true then some c.ctx.startTime else none) = _
      rw [if_pos hunrouted]
    refine wp_windUp rfl hstart (fun _ => by simp [Trail.note]) fun t n m hm => ?_
    refine ⟨rfl, rfl, .written _ (.unrouted hunrouted rfl rfl), hm, ?_, ?_⟩
    · intro h
      cases h
    · intro h
      cases h
  · have hrouted : unrouted v.req = false := by simp [unrouted_eq v.req c.res, hfound]
    rw [if_neg hfound]
    obtain ⟨ep, hep⟩ := exists_endpoint hfound
    rw [hep]
    have hfresh : Trail.note (.atomic (.received c v.req)) () l
        = { current := some (c, v.req), heads := l.heads || v.req.method = .head } := by
      simp [Trail.note, hrouted]
    rw [hfresh]
    exact wp_handle_trail rfl hopen hep

/-- A connection between two requests: nothing is current, and while no HEAD has
    come, nothing is left in the response. -/
structure AtRest (c : ConnState) (l : Trail) : Prop where
  current : l.current = none
  idle : c.res.completed = false
  blank : l.heads = false → Blank c.res

/-- **A visit**, from the URL to the answer. -/
theorem wp_exchange_trail {v : Visit} (hrest : AtRest c l) :
    wp (trails svc) (exchange svc c v)
      (fun h l' => l'.current = none ∧ (h.goesOn = true → AtRest h.conn l')) l := by
  have hnot : ¬ l.Swift := by
    rintro ⟨c', req', hcurrent, -⟩
    rw [hrest.current] at hcurrent
    cases hcurrent
  unfold exchange
  rw [wp_atomic]
  refine ⟨⟨fun h => absurd h hnot, hrest.blank⟩, ?_⟩
  intro _
  rw [wp_bind]
  refine wp_mono ?_ (wp_dispatch_trail hrest.idle)
  intro h l' hconcluded
  -- no HEAD so far: neither before this request nor by it
  have hheads : l'.heads = false → Blank c.res ∧ v.req.method ≠ .head := by
    intro hfalse
    rw [hconcluded.same] at hfalse
    simp only [Bool.or_eq_false_iff, decide_eq_false_iff_not] at hfalse
    exact ⟨hrest.blank hfalse.1, hfalse.2⟩
  rw [wp_atomic]
  refine ⟨⟨hconcluded.moves, c, v.req, hconcluded.current, hheads, hconcluded.ending⟩, ?_⟩
  intro _
  refine ⟨rfl, fun hgoes => ⟨rfl, hconcluded.idle hgoes, ?_⟩⟩
  intro hfalse
  obtain ⟨hblank, hmethod⟩ := hheads hfalse
  exact hconcluded.blank hgoes hmethod hblank

/-- A connection does not close in the middle of a request. -/
def Closing (_ : Unit) (l : Trail) : Prop := l.current = none

/-- **A connection keeps its trail**, whatever requests it receives. -/
theorem wp_serve_trail (svc : Service) (vs : List Visit) :
    ∀ (c : ConnState) (l : Trail), AtRest c l → wp (trails svc) (serve svc c vs) Closing l := by
  induction vs with
  | nil =>
      intro c l hrest
      exact hrest.current
  | cons v vs ih =>
      intro c l hrest
      unfold serve
      rw [wp_bind]
      refine wp_mono ?_ (wp_exchange_trail hrest)
      intro h l' hpost
      by_cases hgoes : h.goesOn = true
      · rw [if_pos hgoes]
        exact ih h.conn l' (hpost.2 hgoes)
      · rw [if_neg hgoes]
        exact hpost.1

end

/-! ## §5. On the server. -/

/-- **Every connection leaves such a trail.** -/
theorem follows_opened {ι : Type} (svc : Service) (w : World) (visits : ι → List Visit) (i : ι) :
    Interp.Follows (trails svc) Closing (fun l => l = {}) ((opened svc w visits).proc i).task :=
  ⟨{}, wp_serve_trail svc (visits i) {} {} ⟨rfl, rfl, fun _ => ⟨rfl, rfl⟩⟩, rfl⟩

/-- **One step of a connection with its trail**: nothing to do, a point inside an
    order handler, its return, or an atomic operation. -/
theorem follows_step {svc : Service} {R R' : Trail → Prop} {p : Worker} {w : World} {out : Outcome}
    (h : Interp.Follows (trails svc) Closing R p.task)
    (hidle : p.task = .ret () → ((server svc.env).step out p w).2 = w → ∀ l, R l → R' l)
    (horder : ∀ call inp k x, p.task = .op (Op.order call inp) k →
      (interp svc.env).exec out (.order call inp) p.cur w
        = (x, ((server svc.env).step out p w).2) →
      ∀ l, Trail.Allows svc (.order call inp) l → R l →
        R' l ∧ ∀ reply, x = .inr reply → R' (Trail.note (.order call inp) reply l))
    (hatomic : ∀ a k, p.task = .op (Op.atomic a) k →
      ((server svc.env).step out p w).2 = (a.exec svc.env w).2 →
      ∀ l, Trail.Allows svc (.atomic a) l → R l →
        R' (Trail.note (.atomic a) (a.exec svc.env w).1 l)) :
    Interp.Follows (trails svc) Closing R' ((server svc.env).step out p w).1.task := by
  have hstepped := Interp.stepped (interp svc.env) Ledger.record EnvEvent.apply out p w
  change Interp.Stepped _ _ out p w ((server svc.env).step out p w).1
    ((server svc.env).step out p w).2 at hstepped
  refine h.stepped hstepped (fun _ => hidle) ?_ ?_
  · intro o k cur task exec l hallows hR
    cases o with
    | atomic a => cases exec
    | order call inp => exact (horder call inp k _ task exec l hallows hR).1
  · intro o k r task exec l hallows hR
    cases o with
    | atomic a =>
        obtain ⟨hr, hw⟩ := Prod.mk.inj exec
        cases hr
        exact hatomic a k task hw.symm l hallows hR
    | order call inp => exact (horder call inp k _ task exec l hallows hR).2 r rfl

/-- What is known at the call a connection is about to make. -/
theorem follows_calling {svc : Service} {R : Trail → Prop} {p : Worker} {a : Atomic}
    (h : Interp.Follows (trails svc) Closing R p.task) (hcall : calling p = some a) :
    ∃ l, Trail.Allows svc (.atomic a) l ∧ R l := by
  obtain ⟨k, htask⟩ := calling_eq_some.mp hcall
  exact h.pre htask

end OrderApi.Server
