/-
  OrderApi.Server.ErrorBodies
  ───────────────────────────
  **EVERY ERROR LEAVES AS JSON.**

  Errors are made in five places: `json_error` in the handlers and in
  `LifecycleMiddleware`, the literal of `AuthMiddleware`, the empty responses of
  the router, of the static route and of Crow's exception handler, and the 503 of
  `/readiness`.  The empty ones are filled by `ErrorHandlerMiddleware`, which runs
  on each path that leaves one:

    • `answer_json`            any answer is a 200, a 204 or JSON;
    • `errors_leave_as_json`   so is what any connection writes, in every run, as
                               long as it has carried no HEAD and the request
                               names a host.
-/
import OrderApi.Crow.JsonDump
import OrderApi.Server.Endings
import OrderApi.Server.InFlight

namespace OrderApi.Server

open OrderApi.Lib
open OrderApi.Lib.JsonText
open OrderApi.Crow
open OrderApi.Model

/-! ## §1. JSON bodies. -/

/-- The response is a JSON object and says so; except from `/readiness` it has a
    string under `error`. -/
structure JsonErrorBody (req : Request) (res : Response) : Prop where
  contentType : res.headers.named "Content-Type" = [("Content-Type", "application/json")]
  body : ∃ ms, ObjectText ms res.body.toList ∧
    (req.url ≠ "/readiness" → ∃ s t, ("error", t) ∈ ms ∧ StringText s t)

section
variable {env : Env} {req : Request}

/-- Only the body and its content type count. -/
theorem JsonErrorBody.congr {res res' : Response} (h : JsonErrorBody req res)
    (hbody : res'.body = res.body)
    (hheaders : res'.headers.named "Content-Type" = res.headers.named "Content-Type") :
    JsonErrorBody req res' := by
  refine ⟨hheaders.trans h.contentType, ?_⟩
  rw [hbody]
  exact h.body

theorem JsonErrorBody.body_ne {res : Response} (h : JsonErrorBody req res) : res.body ≠ "" := by
  obtain ⟨ms, hobject, -⟩ := h.body
  intro hempty
  rw [hempty] at hobject
  exact hobject.ne_nil rfl

theorem JsonErrorBody.finish {res : Response} (h : JsonErrorBody req res)
    (hskip : res.skipBody = false) : JsonErrorBody req res.finish := by
  obtain ⟨hbody, hheaders⟩ := Response.finish_plain hskip
  exact h.congr hbody (by rw [hheaders])

/-- A JSON object that has an error message, or comes from `/readiness`. -/
theorem json_ofJson (hdump : FlatDump env.dump) {ms : List (String × WValue)} (hne : ms ≠ [])
    (hflat : ∀ m ∈ ms, m.2.Flat)
    (herror : req.url ≠ "/readiness" → ∃ s, ("error", WValue.str s) ∈ ms) (code : Int) :
    JsonErrorBody req (Response.ofJson code (env.dump (.object ms))) := by
  obtain ⟨texts, hobject, hstrings⟩ := hdump.objectText hne hflat
  refine ⟨Response.named_setHeader _ _ _, texts, hobject, ?_⟩
  intro hurl
  obtain ⟨s, hs⟩ := herror hurl
  obtain ⟨t, ht, htext⟩ := hstrings "error" s hs
  exact ⟨s, t, ht, htext⟩

/-- `json_error` writes one. -/
theorem jsonError_json (hdump : FlatDump env.dump) (code : Int) (message : String) :
    JsonErrorBody req (jsonError env code message) := by
  apply json_ofJson hdump (List.cons_ne_nil _ _)
  · intro m hm
    rw [List.mem_singleton.mp hm]
    trivial
  · intro _
    exact ⟨message, List.mem_singleton.mpr rfl⟩

/-! ## §2. The places errors come from. -/

/-- `LifecycleMiddleware`. -/
theorem rejection_json (hdump : FlatDump env.dump) {res : Response} (hskip : res.skipBody = false)
    (message retryAfter : String) : JsonErrorBody req (rejection env res message retryAfter) := by
  unfold rejection
  refine JsonErrorBody.finish ?_ hskip
  refine (jsonError_json hdump 503 message).congr rfl ?_
  exact Response.named_setHeader_other (by decide) _ _

/-- The body of `AuthMiddleware`. -/
theorem unauthorized_text :
    ObjectText [("error", "\"Unauthorized\"".toList)]
      "\x7b\"error\": \"Unauthorized\"\x7d".toList := by
  have hvalue : StringText "Unauthorized" "\"Unauthorized\"".toList :=
    stringText_dumpString "Unauthorized"
  refine ⟨"\"error\": \"Unauthorized\"".toList, .one ?_, ?_, by decide⟩
  · refine ⟨"\"error\"".toList, "\"error\"".toList, " \"Unauthorized\"".toList,
      stringText_dumpString "error", spaced_self _, ⟨[' '], [], ?_, ?_, by decide⟩, by decide⟩
    · intro c hc
      exact .inl (List.mem_singleton.mp hc)
    · intro c hc
      cases hc
  · intro m hm
    rw [List.mem_singleton.mp hm]
    exact .string hvalue

/-- `AuthMiddleware`, on a response into which nothing has been written. -/
theorem unauthorized_json {res : Response} (h : Blank res) :
    JsonErrorBody req (unauthorized res) := by
  unfold unauthorized
  refine JsonErrorBody.finish ⟨?_, ?_⟩ h.skipBody
  · exact Response.named_setHeader _ _ _
  · refine ⟨_, ?_, fun _ => ⟨"Unauthorized", _, List.mem_singleton.mpr rfl,
      stringText_dumpString "Unauthorized"⟩⟩
    show ObjectText _ (res.body ++ _).toList
    rw [h.body, String.empty_append]
    exact unauthorized_text

/-- `ErrorHandlerMiddleware` fills an error without a body. -/
theorem fillError_json (hdump : FlatDump env.dump) {res : Response} (hcode : 400 ≤ res.code)
    (hbody : res.body = "") : JsonErrorBody req (fillError env res) := by
  unfold fillError
  rw [if_pos ⟨hcode, hbody⟩]
  have hjson : JsonErrorBody req (Response.ofJson res.code (env.dump
      (.object [("error", .str (errorMsg res.code)), ("code", .int res.code)]))) := by
    apply json_ofJson hdump (List.cons_ne_nil _ _)
    · intro m hm
      simp only [List.mem_cons, List.not_mem_nil, or_false] at hm
      obtain rfl | rfl := hm
      · trivial
      · trivial
    · intro _
      exact ⟨_, List.mem_cons_self⟩
  refine hjson.congr rfl ?_
  rw [hjson.contentType]
  exact Response.named_setHeader _ _ _

/-- It leaves any other body alone. -/
theorem JsonErrorBody.fillError {res : Response} (h : JsonErrorBody req res) :
    JsonErrorBody req (fillError env res) := by
  unfold Server.fillError
  rw [if_neg fun hempty => h.body_ne hempty.2]
  exact h

/-- An answer that is no error, or leaves as JSON. -/
def AsJson (req : Request) (res : Response) : Prop :=
  res.code = 200 ∨ res.code = 204 ∨ JsonErrorBody req res

/-- What an order handler leaves behind. -/
theorem order_asJson (hdump : FlatDump env.dump) {res : Response} (hblank : Blank res)
    {reply : Reply} (h : Ended env reply) :
    AsJson req (fillError env (answerWith res reply)) := by
  cases h with
  | success r code =>
      left
      rw [fillError_code]
      exact (Response.finish_code _).trans code
  | error code text =>
      right; right
      refine JsonErrorBody.fillError (JsonErrorBody.finish ?_ hblank.skipBody)
      exact (jsonError_json hdump code text).congr rfl rfl
  | thrown what =>
      right; right
      refine fillError_json hdump ?_ ?_
      · show 400 ≤ ((res.assign (.ofCode 500)).finish).code
        rw [Response.finish_code]
        show (400 : Int) ≤ 500
        decide
      · exact (Response.finish_plain (by exact hblank.skipBody)).1

end

/-- What any route leaves behind. -/
theorem served_asJson {svc : Service} (hdump : FlatDump svc.env.dump) {req : Request}
    {res res' : Response} {l : Trail} {ep : Endpoint} (hblank : Blank res)
    (hreply : ∀ reply, l.reply = some reply → Ended svc.env reply)
    (hurl : ep = .readiness → req.url = "/readiness") (h : Served svc res l ep res') :
    AsJson req (fillError svc.env res') := by
  cases h with
  | healthcheck =>
      left
      rw [fillError_code]
      exact Response.finish_code _
  | readiness status ready db redis readyNow up =>
      cases readyNow with
      | true =>
          left
          rw [fillError_code]
          exact Response.finish_code _
      | false =>
          right; right
          refine JsonErrorBody.fillError (JsonErrorBody.finish ?_ hblank.skipBody)
          refine JsonErrorBody.congr (json_ofJson hdump (List.cons_ne_nil _ _) ?_ ?_ 503) rfl rfl
          · intro m hm
            simp only [List.mem_cons, List.not_mem_nil, or_false] at hm
            obtain rfl | rfl | rfl | rfl := hm <;> trivial
          · intro hother
            exact absurd (hurl rfl) hother
  | metrics text =>
      left
      rw [fillError_code]
      exact Response.finish_code _
  | staticDir path =>
      unfold serveStatic
      split
      · left
        rw [fillError_code]
        exact Response.finish_code _
      · right; right
        refine fillError_json hdump ?_ ?_
        · rw [Response.finish_code]
          show (400 : Int) ≤ 404
          decide
        · exact (Response.finish_plain (by exact hblank.skipBody)).1.trans hblank.body
  | order ep isOrder reply ended => exact order_asJson hdump hblank (hreply reply ended)

/-- **Any answer is a 200, a 204 or JSON**, whichever way the request took. -/
theorem answer_json {svc : Service} (hdump : FlatDump svc.env.dump) {c : ConnState} {req : Request}
    {l : Trail} {res : Response} (hblank : Blank c.res) (hmethod : req.method ≠ .head)
    (hhost : req.headers.has "host" = true)
    (hreply : ∀ reply, l.reply = some reply → Ended svc.env reply) (h : Answer svc c req l res) :
    AsJson req res := by
  have harrived := arrived_blank hmethod hblank
  cases h with
  | unrouted route loads probed =>
      obtain ⟨hrouted, -⟩ | hunrouted := handleInitial_cases router c.res hmethod
      · rw [unrouted_eq req c.res] at route
        exact absurd (of_decide_eq_true route) hrouted
      · obtain hcode | hcode := hunrouted.code
        · right; left
          rw [fillError_code, hcode]
        · right; right
          exact fillError_json hdump hcode (hunrouted.body hblank.body hblank.skipBody)
  | invalid host loads probed =>
      unfold isInvalidRequest at host
      rw [hhost] at host
      simp at host
  | down url loads rejections touches =>
      exact .inr (.inr (rejection_json hdump harrived.skipBody _ _))
  | overloaded url loads => exact .inr (.inr (rejection_json hdump harrived.skipBody _ _))
  | unauthorized url loads => exact .inr (.inr (unauthorized_json harrived).fillError)
  | handled ep res found gate served =>
      refine served_asJson hdump harrived hreply ?_ served
      intro hep
      rw [hep] at found
      exact readiness_url found

/-! ## §3. What is written. -/

/-- `prepare_buffers` keeps an error that has a body. -/
theorem JsonErrorBody.written {req : Request} {c : ConnState} (h : JsonErrorBody req c.res) :
    JsonErrorBody req (prepareBuffers c) :=
  h.congr (prepareBuffers_body h.body_ne) (prepareBuffers_named (by decide) (by decide))

/-- What is written to the socket has it still. -/
theorem AsJson.written {req : Request} {c : ConnState} (h : AsJson req c.res)
    (hcode : 400 ≤ (prepareBuffers c).code) : JsonErrorBody req (prepareBuffers c) := by
  obtain h200 | h204 | hjson := h
  · have hsame : (prepareBuffers c).code = 200 := by
      rw [prepareBuffers_code (by rw [h200]; decide), h200]
    omega
  · have hsame : (prepareBuffers c).code = 204 := by
      rw [prepareBuffers_code (by rw [h204]; decide), h204]
    omega
  · exact hjson.written

/-- What a connection is about to write to its socket. -/
def writing (p : Worker) : Option Response :=
  match calling p with
  | some (.finished sent) => sent
  | _ => none

/-- A response is on its way out when the connection is to finish its request. -/
theorem writing_eq_some {p : Worker} {sent : Response} (h : writing p = some sent) :
    calling p = some (.finished (some sent)) := by
  unfold writing at h
  split at h
  · rename_i sent' hcall
    rw [hcall, h]
  · cases h

/-! ## §4. Whom a connection serves. -/

/-- The request a connection received last, and whether it ever received a HEAD. -/
structure Caller where
  req : Option Request := none
  heads : Bool := false

/-- What is noted of an atomic operation. -/
def Caller.noteCall (x : Caller) : Atomic → Caller
  | .received _ req => { req := some req, heads := x.heads || req.method = .head }
  | _ => x

section
variable {ι : Type} [DecidableEq ι]

/-- What is noted of an event. -/
def noteCallers (s : Pool ι World Worker) : Event ι Outcome EnvEvent → (ι → Caller) → ι → Caller
  | .proc i _, h => (calling (s.proc i)).elim h fun a => Function.update h i ((h i).noteCall a)
  | .env _, h => h

/-- The callers after a run. -/
def callers (env : Env) (s : Pool ι World Worker) (evs : List (Event ι Outcome EnvEvent)) :
    ι → Caller :=
  (server env).watch noteCallers s evs fun _ => {}

end

/-- A trail tells of the caller, and its handler ended as handlers do. -/
structure Tells (env : Env) (x : Caller) (l : Trail) : Prop where
  req : ∀ c req, l.current = some (c, req) → x.req = some req
  heads : l.heads = x.heads
  reply : ∀ reply, l.reply = some reply → Ended env reply

/-- A call is noted by both. -/
theorem tells_call {env : Env} {x : Caller} {l : Trail} {w : World} (a : Atomic)
    (h : Tells env x l) :
    Tells env (x.noteCall a) (Trail.note (.atomic a) (a.exec env w).1 l) := by
  cases a with
  | received conn req =>
      refine ⟨?_, ?_, ?_⟩
      · intro c req' hcurrent
        cases hcurrent
        rfl
      · show (l.heads || _) = (x.heads || _)
        rw [h.heads]
      · intro reply hreply
        cases hreply
  | finished sent =>
      refine ⟨?_, h.heads, h.reply⟩
      intro c req hcurrent
      cases hcurrent
  | count t => cases t <;> exact ⟨h.req, h.heads, h.reply⟩
  | _ => exact ⟨h.req, h.heads, h.reply⟩

/-- The order handler of a worker has not ended badly. -/
def CurEndsWell (env : Env) (p : Worker) : Prop := ∀ pc, p.cur = some pc → pc.EndsWell env

theorem curEndsWell_getD {env : Env} {p : Worker} (h : CurEndsWell env p) (call : OrderCall)
    (inp : Inputs) : (p.cur.getD (.enter call inp)).EndsWell env := by
  cases hcur : p.cur with
  | none => trivial
  | some pc => exact h pc hcur

/-- A handler that has returned has ended as handlers do. -/
theorem order_ended {env : Env} {out : Outcome} {call : OrderCall} {inp : Inputs} {p : Worker}
    {w w' : World} {x : Option Pc ⊕ Reply} (h : CurEndsWell env p)
    (hexec : (interp env).exec out (.order call inp) p.cur w = (x, w')) :
    (∀ pc, x = .inl (some pc) → pc.EndsWell env) ∧ ∀ reply, x = .inr reply → Ended env reply := by
  obtain ⟨pc, hstep, hx⟩ := order_exec_step hexec
  have hpc := endsWell_step env out (curEndsWell_getD h call inp) w
  rw [hstep] at hpc
  refine ⟨?_, ?_⟩
  · intro pc' hpc'
    obtain hin | ⟨reply, -, hout⟩ := hx
    · rw [hin] at hpc'
      cases hpc'
      exact hpc
    · rw [hout] at hpc'
      cases hpc'
  · intro reply hreply
    obtain hin | ⟨reply', hdone, hout⟩ := hx
    · rw [hin] at hreply
      cases hreply
    · rw [hout] at hreply
      cases hreply
      rw [hdone] at hpc
      exact hpc

/-- A step keeps that. -/
theorem curEndsWell_step {env : Env} {out : Outcome} {p : Worker} {w : World}
    (h : CurEndsWell env p) : CurEndsWell env ((server env).step out p w).1 := by
  cases server_turned env out p w with
  | idle task proc world =>
      rw [proc]
      exact h
  | inside call inp k cur task exec proc =>
      rw [proc]
      intro pc hcur
      have hpc : cur = some pc := hcur
      rw [hpc] at exec
      exact (order_ended h exec).1 pc rfl
  | answered call inp k reply task exec proc =>
      rw [proc]
      intro pc hcur
      cases hcur
  | called a k task proc world =>
      rw [proc]
      intro pc hcur
      cases hcur

/-! ## §5. In every run. -/

section
variable {ι : Type} [DecidableEq ι]

/-- What holds of connections and callers at every moment. -/
structure Attended (svc : Service) (s : Pool ι World Worker) (h : ι → Caller) : Prop where
  follows : ∀ i, Interp.Follows (trails svc) Closing (Tells svc.env (h i)) (s.proc i).task
  cur : ∀ i, CurEndsWell svc.env (s.proc i)

/-- What the others noted stays. -/
theorem noteCallers_other {s : Pool ι World Worker} {i j : ι} (hne : j ≠ i) (out : Outcome)
    (h : ι → Caller) : noteCallers s (.proc i out) h j = h j := by
  show (calling (s.proc i)).elim h (fun a => Function.update h i ((h i).noteCall a)) j = h j
  cases calling (s.proc i) with
  | none => rfl
  | some a => exact Function.update_of_ne hne _ _

theorem noteCallers_silent {s : Pool ι World Worker} {i : ι} (hcall : calling (s.proc i) = none)
    (out : Outcome) (h : ι → Caller) : noteCallers s (.proc i out) h i = h i := by
  show (calling (s.proc i)).elim h _ i = h i
  rw [hcall]
  rfl

/-- A call is noted. -/
theorem noteCallers_calling {s : Pool ι World Worker} {i : ι} {a : Atomic}
    (hcall : calling (s.proc i) = some a) (out : Outcome) (h : ι → Caller) :
    noteCallers s (.proc i out) h i = (h i).noteCall a := by
  show (calling (s.proc i)).elim h (fun a => Function.update h i ((h i).noteCall a)) i = _
  rw [hcall]
  exact Function.update_self i _ _

/-- After a step the connection is still told of rightly. -/
theorem follows_attended {svc : Service} {s : Pool ι World Worker} {h : ι → Caller} {i : ι}
    {out : Outcome} (ha : Attended svc s h) :
    Interp.Follows (trails svc) Closing (Tells svc.env (noteCallers s (.proc i out) h i))
      ((server svc.env).step out (s.proc i) s.world).1.task := by
  refine follows_step (ha.follows i) ?_ ?_ ?_
  · intro htask _ l hl
    rw [noteCallers_silent (calling_ret htask)]
    exact hl
  · intro call inp k x htask hexec l _ hl
    rw [noteCallers_silent (calling_order htask)]
    refine ⟨hl, fun reply hx => ⟨hl.req, hl.heads, ?_⟩⟩
    intro reply' hreply'
    cases hreply'
    exact (order_ended (ha.cur i) hexec).2 reply hx
  · intro a k htask _ l _ hl
    rw [noteCallers_calling (calling_eq_some.mpr ⟨k, htask⟩)]
    exact tells_call a hl

/-- **One event keeps the notes right.** -/
theorem attended_fire {svc : Service} {s : Pool ι World Worker} {h : ι → Caller}
    (ha : Attended svc s h) (e : Event ι Outcome EnvEvent) :
    Attended svc ((server svc.env).fire s e) (noteCallers s e h) := by
  cases e with
  | env x => exact ⟨ha.follows, ha.cur⟩
  | proc i out =>
      refine ⟨?_, ?_⟩
      · intro j
        by_cases hij : j = i
        · subst hij
          rw [Machine.fire_proc_self]
          exact follows_attended ha
        · rw [Machine.fire_proc_other _ _ hij, noteCallers_other hij]
          exact ha.follows j
      · intro j
        exact (server svc.env).fire_local (fun _ _ _ h => curEndsWell_step h) (ha.cur j) _

/-- **They are right in every run.** -/
theorem attended_run (svc : Service) (w : World) (visits : ι → List Visit)
    (evs : List (Event ι Outcome EnvEvent)) :
    Attended svc ((server svc.env).run (opened svc w visits) evs)
      (callers svc.env (opened svc w visits) evs) := by
  refine (server svc.env).watch_inv_all (I := Attended svc) ?_ evs (opened svc w visits)
    (fun _ => ({} : Caller)) ⟨?_, ?_⟩
  · intro s e h ha
    exact attended_fire ha e
  · intro i
    refine (follows_opened svc w visits i).mono fun l hl => ?_
    rw [hl]
    refine ⟨?_, rfl, ?_⟩
    · intro c req hcurrent
      cases hcurrent
    · intro reply hreply
      cases hreply
  · intro i pc hcur
    cases hcur

/-- **Every error leaves as JSON**: in every interleaving of any connections, a
    connection that has received no HEAD and is about to write a status of 400 or
    more to a request with a host writes a non-empty JSON object under
    `application/json`, with a string under `error` unless the request was for
    `/readiness`. -/
theorem errors_leave_as_json (svc : Service) (hdump : FlatDump svc.env.dump) (w : World)
    (visits : ι → List Visit) (evs : List (Event ι Outcome EnvEvent)) (i : ι) (req : Request)
    (sent : Response)
    (hreq : (callers svc.env (opened svc w visits) evs i).req = some req)
    (hheads : (callers svc.env (opened svc w visits) evs i).heads = false)
    (hhost : req.headers.has "host" = true)
    (hsent : writing (((server svc.env).run (opened svc w visits) evs).proc i) = some sent)
    (hcode : 400 ≤ sent.code) : JsonErrorBody req sent := by
  have ha := attended_run svc w visits evs
  obtain ⟨l, hallows, hl⟩ := follows_calling (ha.follows i) (writing_eq_some hsent)
  obtain ⟨c, req', hcurrent, hblank, hending⟩ := hallows.2
  -- the trail is that of the request that was noted
  have hsame : req' = req := Option.some.inj ((hl.req c req' hcurrent).symm.trans hreq)
  rw [hsame] at hblank hending
  obtain ⟨hblank, hmethod⟩ := hblank (hl.heads.trans hheads)
  cases hending with
  | written c' answer =>
      have hjson := answer_json hdump hblank hmethod hhost hl.reply answer
      exact hjson.written hcode

end

/-- The answer to `GET /nowhere`. -/
def nowhereSent : Response where
  code := 404
  body := "\x7b\"error\":\"Not Found\",\"code\":404\x7d"
  headers := [("Content-Type", "application/json"), ("Content-Length", "32")]
  completed := true

/-- A URL that nobody serves. -/
theorem errors_leave_as_json_nowhere :
    writing (((server sampleEnv).run
        (opened sampleService {} fun _ : Fin 1 => [⟨unroutedRequest, {}⟩])
        (schedule (turns [0, 0, 0, 0]))).proc 0) = some nowhereSent
      ∧ JsonErrorBody unroutedRequest nowhereSent :=
  ⟨by decide +kernel,
    errors_leave_as_json sampleService (fun ms _ => ⟨_, ms, .refl ms, rfl⟩) {}
      (fun _ : Fin 1 => [⟨unroutedRequest, {}⟩]) (schedule (turns [0, 0, 0, 0])) 0 unroutedRequest
      nowhereSent (by decide +kernel) (by decide +kernel) (by decide) (by decide +kernel) (by decide)⟩

end OrderApi.Server
