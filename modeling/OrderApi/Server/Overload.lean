/-
  OrderApi.Server.Overload
  ────────────────────────
  **WHO FILLS THE SERVICE.**

  A request is turned away with "Server overloaded" when its `fetch_add` finds
  the counter at the limit.  The counter has more in it than the requests being
  served: a request over the limit is in it until it takes its addition back, and
  a request with a wrong key is in it until `AuthMiddleware`, which comes after
  `LifecycleMiddleware`, has answered and the after handler has run.

    • `overload_only_when_full`   if no such request has its addition standing
                              whenever somebody adds at the limit, whoever is
                              turned away finds the service full of requests with
                              the right key;
    • `wrong_key_overloads`, `rollback_overloads`   runs in which one of them is
                              all there is, and a request with the key gets a 503.
-/
import OrderApi.Server.InFlight

namespace OrderApi.Server

open OrderApi.Lib
open OrderApi.Lib.Prog
open OrderApi.Crow
open OrderApi.Model

/-! ## §1. A request through the chain. -/

/-- A request with a fresh context through the middlewares of the application: the
    before handlers, and unless one of them answers, the after handlers. -/
def gatedRequest (env : Env) (req : Request) : Code Unit := do
  perform (.received {} req)
  let r ← middlewareCallHelper (middlewares env) req {}
  if r.1 then perform (.finished (some r.2.res))
  else do
    -- the handler runs here, for as long as it takes
    let c ← afterHandlersCallHelper (middlewares env) req r.2
    perform (.finished (some c.res))

/-- **A request through the whole chain keeps the books.** -/
theorem wp_gatedRequest (env : Env) (req : Request) :
    wp (books env strict) (gatedRequest env req) (fun _ _ => True) {} := by
  unfold gatedRequest
  rw [wp_perform]
  refine ⟨⟨rfl, rfl⟩, ?_⟩
  intro _
  rw [wp_bind]
  refine wp_mono ?_ (wp_middlewares rfl rfl rfl)
  intro r l hchained
  cases hchained with
  | stopped c l completed standing same =>
      rw [if_pos rfl]
      exact ⟨standing, fun _ => trivial⟩
  | probe c url completed uncounted =>
      rw [if_neg Bool.false_ne_true, wp_bind]
      apply wp_afterHandlers
      · intro hcounted
        rw [uncounted] at hcounted
        cases hcounted
      · intro c'
        rw [uncounted]
        exact ⟨rfl, fun _ => trivial⟩
  | passed c l completed counted standing same gate =>
      rw [if_neg Bool.false_ne_true, wp_bind]
      apply wp_afterHandlers
      · exact fun _ => .inl standing
      · intro c'
        rw [counted]
        refine ⟨?_, fun _ => trivial⟩
        show l.standing - 1 = 0
        omega

/-! ## §2. Who is answered so. -/

/-- The answer of `LifecycleMiddleware` to a request over the limit. -/
def overloaded (env : Env) : Response := rejection env {} "Server overloaded" "1"

/-- The addition of the request went over the limit it then loaded. -/
def Ledger.OverTheLimit (l : Ledger) : Prop :=
  ∃ current limit, l.current = some current ∧ l.limit = some limit ∧ limit < current

/-- Whoever is answered so was over the limit. -/
def Ledger.Deserves (env : Env) : Op → Ledger → Prop
  | .atomic (.finished sent), l => sent = some (overloaded env) → l.OverTheLimit
  | _, _ => True

/-- The answers as a discipline. -/
def verdicts (env : Env) : Discipline Op Op.Res Ledger where
  pre := Ledger.Deserves env
  next := Ledger.record

/-- A rejection says what it is and when to come back. -/
theorem rejection_headers (env : Env) (message retryAfter : String) :
    (rejection env {} message retryAfter).headers
      = [("Content-Type", "application/json"), ("Retry-After", retryAfter)] := by
  have hother : ciEq "Content-Type" "Retry-After" = false := by decide
  simp [rejection, jsonError, Response.ofJson, Response.assign, Response.setHeader,
    Response.finish, hother]

/-- The two rejections say different things. -/
theorem shutdown_ne_overloaded (env : Env) :
    rejection env {} "Server is shutting down" "5" ≠ overloaded env := by
  intro h
  have hheaders := congrArg Response.headers h
  rw [overloaded, rejection_headers, rejection_headers] at hheaders
  revert hheaders
  decide

theorem code_ne_overloaded {env : Env} {res : Response} (h : res.code ≠ 503) :
    res ≠ overloaded env := by
  intro heq
  rw [heq] at h
  exact h (rejection_code env _ _ _)

section
variable {env : Env} {l : Ledger} {req : Request} {c : ConnState}

theorem wp_verdict {β : Type} (a : Atomic) {f : a.Res → Code β} {Q : β → Ledger → Prop} :
    wp (verdicts env) (perform a >>= f) Q l ↔
      Ledger.Deserves env (.atomic a) l ∧
        ∀ r : a.Res, wp (verdicts env) (f r) Q (Ledger.record (.atomic a) r l) :=
  wp_bind (D := verdicts env) (perform a) f

/-- `LifecycleMiddleware::before_handle` leaves the response alone, or completes it;
    with this answer only over the limit. -/
theorem verdict_lifecycle_before (hres : c.res = {}) :
    wp (verdicts env) ((lifecycleMiddleware env).beforeHandle req c)
      (fun c' l' => c'.res = {} ∨ (c'.res.completed = true
        ∧ (c'.res = overloaded env → l'.OverTheLimit))) l := by
  unfold lifecycleMiddleware
  dsimp only
  by_cases hprobe : isProbePath req.url = true
  · rw [if_pos hprobe]
    exact .inl hres
  · rw [if_neg hprobe, wp_verdict]
    refine ⟨trivial, ?_⟩
    intro down
    by_cases hdown : down = true
    · rw [if_pos hdown, wp_verdict]
      refine ⟨trivial, ?_⟩
      intro _
      refine .inr ⟨rejection_completed _ _ _ _, ?_⟩
      intro h
      rw [hres] at h
      exact absurd h (shutdown_ne_overloaded env)
    · rw [if_neg hdown, wp_verdict]
      refine ⟨trivial, ?_⟩
      intro (old : Int)
      rw [wp_verdict]
      refine ⟨trivial, ?_⟩
      intro (limit : Int)
      by_cases hlimit : inc32 old > limit
      · rw [if_pos hlimit, wp_verdict]
        refine ⟨trivial, ?_⟩
        intro _
        rw [wp_verdict]
        refine ⟨trivial, ?_⟩
        intro _
        exact .inr ⟨rejection_completed _ _ _ _, fun _ => ⟨inc32 old, limit, rfl, rfl, by omega⟩⟩
      · rw [if_neg hlimit]
        exact .inl hres

/-- `LifecycleMiddleware::after_handle` leaves the response and the verdict alone. -/
theorem verdict_lifecycle_after {Q : ConnState → Ledger → Prop}
    (hQ : ∀ l', (l.OverTheLimit → l'.OverTheLimit) → Q c l') :
    wp (verdicts env) ((lifecycleMiddleware env).afterHandle req c) Q l := by
  unfold lifecycleMiddleware
  dsimp only
  by_cases hcounted : c.ctx.countedInflight = true
  · rw [if_pos hcounted, wp_verdict]
    refine ⟨trivial, ?_⟩
    intro _
    exact hQ _ fun h => h
  · rw [if_neg hcounted]
    exact hQ l fun h => h

/-- Logging behind the request. -/
theorem verdict_logging_after {Q : ConnState → Ledger → Prop} (hQ : Q c l) :
    wp (verdicts env) (loggingMiddleware.afterHandle req c) Q l := by
  unfold loggingMiddleware
  dsimp only
  rw [wp_verdict]
  refine ⟨trivial, ?_⟩
  intro _
  rw [wp_verdict]
  refine ⟨trivial, ?_⟩
  intro _
  rw [wp_verdict]
  exact ⟨trivial, fun _ => hQ⟩

/-- And before it. -/
theorem verdict_logging_before {Q : ConnState → Ledger → Prop}
    (hQ : ∀ t, Q { c with ctx.startTime := t } l) :
    wp (verdicts env) (loggingMiddleware.beforeHandle req c) Q l := by
  unfold loggingMiddleware
  dsimp only
  rw [wp_verdict]
  exact ⟨trivial, hQ⟩

/-- What the chain makes of a request, by its answer. -/
def Judged (env : Env) (r : Bool × ConnState) (l : Ledger) : Prop :=
  (r.1 = true → r.2.res = overloaded env → l.OverTheLimit) ∧ (r.1 = false → r.2.res = {})

/-- **Behind the lifecycle check** nobody answers that way again. -/
theorem verdict_lifecycle_chain (hres : c.res = {}) :
    wp (verdicts env)
      (middlewareCallHelper
        [lifecycleMiddleware env, errorHandlerMiddleware env, authMiddleware env] req c)
      (Judged env) l := by
  unfold middlewareCallHelper
  rw [wp_bind]
  refine wp_mono ?_ (verdict_lifecycle_before hres)
  intro c' l' hbefore
  obtain hres' | ⟨completed, hover⟩ := hbefore
  · have hopen : c'.res.completed = false := by rw [hres']
    rw [if_neg (by rw [hopen]; exact Bool.false_ne_true)]
    by_cases hpass : isProbePath req.url = true ∨ authorized env req = true
    · rw [auth_chain_passes hopen hpass]
      exact ⟨fun h => absurd h Bool.false_ne_true, fun _ => hres'⟩
    · obtain ⟨hurl, hauth⟩ := not_or.mp hpass
      rw [auth_chain_stops hopen (Bool.eq_false_of_not_eq_true hurl)
        (Bool.eq_false_of_not_eq_true hauth), Prog.pure_bind, if_pos rfl, wp_bind]
      apply verdict_lifecycle_after
      intro l'' _
      -- a 401, which the error handler does not touch
      refine ⟨fun _ h => absurd h (code_ne_overloaded ?_),
        fun h => absurd h.symm Bool.false_ne_true⟩
      show (fillError env (unauthorized c'.res)).code ≠ 503
      rw [fillError_code, unauthorized_code]
      decide
  · rw [if_pos completed, wp_bind]
    apply verdict_lifecycle_after
    intro l'' hkeeps
    exact ⟨fun _ h => hkeeps (hover h), fun h => absurd h.symm Bool.false_ne_true⟩

/-- The whole chain. -/
theorem verdict_middlewares (hres : c.res = {}) :
    wp (verdicts env) (middlewareCallHelper (middlewares env) req c) (Judged env) l := by
  unfold middlewares middlewareCallHelper
  rw [wp_bind]
  apply verdict_logging_before
  intro t
  have hopen : c.res.completed = false := by rw [hres]
  rw [if_neg (by rw [hopen]; exact Bool.false_ne_true), wp_bind]
  refine wp_mono ?_ (verdict_lifecycle_chain hres)
  intro r l' hjudged
  by_cases hstopped : r.1 = true
  · rw [if_pos hstopped, wp_bind]
    apply verdict_logging_after
    exact ⟨fun _ => hjudged.1 hstopped, fun h => absurd h.symm Bool.false_ne_true⟩
  · rw [if_neg hstopped]
    exact ⟨fun h => absurd h Bool.false_ne_true,
      fun _ => hjudged.2 (Bool.eq_false_of_not_eq_true hstopped)⟩

/-- **Only a request over the limit is answered so.** -/
theorem verdict_gatedRequest (env : Env) (req : Request) :
    wp (verdicts env) (gatedRequest env req) (fun _ _ => True) {} := by
  unfold gatedRequest
  rw [wp_verdict]
  refine ⟨trivial, ?_⟩
  intro _
  rw [wp_bind]
  refine wp_mono ?_ (verdict_middlewares rfl)
  intro r l hjudged
  by_cases hstopped : r.1 = true
  · rw [if_pos hstopped]
    exact ⟨fun h => hjudged.1 hstopped (Option.some.inj h), fun _ => trivial⟩
  · rw [if_neg hstopped, wp_bind]
    have hres : r.2.res = {} := hjudged.2 (Bool.eq_false_of_not_eq_true hstopped)
    unfold middlewares afterHandlersCallHelper afterHandlersCallHelper
    rw [wp_bind, wp_bind]
    show wp _ ((lifecycleMiddleware env).afterHandle req
      { r.2 with res := fillError env r.2.res }) _ l
    apply verdict_lifecycle_after
    intro l' _
    apply verdict_logging_after
    refine ⟨fun h => absurd (Option.some.inj h) (code_ne_overloaded ?_), fun _ => trivial⟩
    show (fillError env r.2.res).code ≠ 503
    rw [fillError_code, hres]
    decide

end

/-! ## §3. Over all interleavings. -/

/-- Requests none of which has arrived yet, over a world. -/
def knocking {ι : Type} (env : Env) (w : World) (reqs : ι → Request) : Pool ι World Worker :=
  { world := w, proc := fun i => ⟨{}, gatedRequest env (reqs i), none⟩ }

/-- Admitted with the right key and not yet released. -/
def Ledger.admittedWithKey (env : Env) (l : Ledger) : Bool :=
  l.admitted env && l.req.any (authorized env)

/-- On the way to a rejection with its addition standing: over the limit, or admitted
    with a wrong key. -/
def Ledger.beingRejected (env : Env) (l : Ledger) : Bool :=
  l.overLimit env || (l.admitted env && !l.req.any (authorized env))

/-- The worker makes its `fetch_add` on `in_flight_requests` next. -/
def adds (p : Worker) : Bool :=
  match calling p with
  | some .inFlightAdd => true
  | _ => false

/-- An addition is a call. -/
theorem adds_iff {p : Worker} : adds p = true ↔ calling p = some .inFlightAdd := by
  unfold adds
  constructor
  · intro h
    split at h
    · assumption
    · cases h
  · intro h
    rw [h]

/-- What stands is a request admitted with the key or one that is being rejected. -/
theorem standing_split {env : Env} {l : Ledger} (h : l.Strict) :
    l.standing = (l.admittedWithKey env).toInt + (l.beingRejected env).toInt := by
  have heither : l.admitted env = true → l.overLimit env = false := by
    intro hadmitted
    simp only [Ledger.admitted, Ledger.overLimit, Bool.and_eq_true, Bool.and_eq_false_iff,
      decide_eq_true_eq] at hadmitted ⊢
    obtain ⟨-, hwithin⟩ := hadmitted
    refine .inr ?_
    cases hcurrent : l.current with
    | none => rfl
    | some current =>
        rw [hcurrent] at hwithin
        simp only [Option.any_some, decide_eq_true_eq, decide_eq_false_iff_not] at hwithin ⊢
        omega
  have hsum : l.standing = (l.admitted env).toInt + (l.overLimit env).toInt := standing_eq h
  rw [hsum]
  unfold Ledger.admittedWithKey Ledger.beingRejected
  cases hadmitted : l.admitted env with
  | false => cases l.overLimit env <;> rfl
  | true =>
      rw [heither hadmitted]
      cases l.req.any (authorized env) <;> rfl

/-- The requests keep the books before they come. -/
theorem inOrder_knocking {ι : Type} (env : Env) (w : World) (reqs : ι → Request) :
    InOrder env strict (knocking env w reqs) :=
  fun i => wp_gatedRequest env (reqs i)

/-- And nothing is booked yet. -/
theorem booked_knocking {ι : Type} [Fintype ι] (env : Env) {w : World}
    (hw : w.metrics.inFlightRequests = 0) (reqs : ι → Request) :
    Booked env (knocking env w reqs) := by
  refine ⟨inOrder_knocking env w reqs, ?_, fun _ => ⟨fun _ => rfl, .inl rfl⟩⟩
  show w.metrics.inFlightRequests = ∑ _ : ι, (0 : Int)
  rw [hw, Finset.sum_const_zero]

section
variable {env : Env} {ι : Type} [DecidableEq ι]

/-- The limit a request has loaded is the one that is stored. -/
theorem limit_run {s : Pool ι World Worker} (hin : InOrder env strict s)
    (h : ∀ i, (s.proc i).ghost.limit = none) (evs : List (Event ι Outcome EnvEvent)) (i : ι)
    {limit : Int} (hlimit : (((server env).run s evs).proc i).ghost.limit = some limit) :
    limit = env.maxInflightRequests := by
  have hinv : (((server env).run s evs).proc i).ghost.limit = none
      ∨ (((server env).run s evs).proc i).ghost.limit = some env.maxInflightRequests := by
    refine ledger_inv_all
      (P := fun l => l.limit = none ∨ l.limit = some env.maxInflightRequests) ?_ hin
      (fun j => .inl (h j)) evs i
    intro a l w _ hl
    cases a with
    | received conn req => exact .inl rfl
    | loadMaxInflight => exact .inr rfl
    | _ => exact hl
  rw [hlimit] at hinv
  obtain hnone | hsome := hinv
  · cases hnone
  · exact Option.some.inj hsome

/-- What a request has as `current_inflight` it got from a `fetch_add` of its own. -/
theorem ownAdd {s : Pool ι World Worker} (hstart : ∀ i, (s.proc i).ghost.current = none)
    (evs : List (Event ι Outcome EnvEvent)) (i : ι) {current : Int}
    (hcurrent : (((server env).run s evs).proc i).ghost.current = some current) :
    ∃ pre out post, evs = pre ++ .proc i out :: post
      ∧ adds (((server env).run s pre).proc i) = true
      ∧ current = inc32 ((server env).run s pre).world.metrics.inFlightRequests := by
  have hnot : ¬ (s.proc i).ghost.current = some current := by
    rw [hstart i]
    intro hnone
    cases hnone
  -- some step of its own wrote it, and only `fetch_add` writes it
  obtain ⟨pre, out, post, hevs, hbefore, hafter⟩ := Machine.run_established (server env)
    (P := fun p : Worker => p.ghost.current = some current) hnot hcurrent
  refine ⟨pre, out, post, hevs, ?_⟩
  cases server_moved env out (((server env).run s pre).proc i) ((server env).run s pre).world with
  | silent ghost inFlight =>
      rw [ghost] at hafter
      exact absurd hafter hbefore
  | called a k task ghost world =>
      rw [ghost] at hafter
      cases a with
      | inFlightAdd =>
          exact ⟨adds_iff.mpr (calling_eq_some.mpr ⟨k, task⟩), (Option.some.inj hafter).symm⟩
      | received conn req => cases hafter
      | _ => exact absurd hafter hbefore

variable [Fintype ι]

/-- Whoever is answered so has made an addition that found the counter at the limit. -/
theorem overloaded_added (env : Env) {w : World} (hw : w.metrics.inFlightRequests = 0)
    (reqs : ι → Request) {evs : List (Event ι Outcome EnvEvent)}
    (hfew : (server env).RunOk FewInProgress (knocking env w reqs) evs) (i : ι)
    (hanswer : calling (((server env).run (knocking env w reqs) evs).proc i)
      = some (.finished (some (overloaded env)))) :
    ∃ pre out post, evs = pre ++ .proc i out :: post
      ∧ adds (((server env).run (knocking env w reqs) pre).proc i) = true
      ∧ env.maxInflightRequests
        ≤ ((server env).run (knocking env w reqs) pre).world.metrics.inFlightRequests := by
  -- the verdict: it was over the limit it loaded
  have hverdict : (((server env).run (knocking env w reqs) evs).proc i).ghost.OverTheLimit := by
    obtain ⟨k, htask⟩ := calling_eq_some.mp hanswer
    have hwp := Interp.run_wp (interp env) (verdicts env) EnvEvent.apply evs (knocking env w reqs)
      (fun j => verdict_gatedRequest env (reqs j)) i
    change wp (verdicts env) (((server env).run (knocking env w reqs) evs).proc i).task _
      (((server env).run (knocking env w reqs) evs).proc i).ghost at hwp
    rw [htask] at hwp
    exact hwp.1 rfl
  obtain ⟨current, limit, hcurrent, hlimit, hover⟩ := hverdict
  have hmax : limit = env.maxInflightRequests :=
    limit_run (inOrder_knocking env w reqs) (fun _ => rfl) evs i hlimit
  obtain ⟨pre, out, post, hevs, hadds, hcount⟩ := ownAdd (fun _ => rfl) evs i hcurrent
  refine ⟨pre, out, post, hevs, hadds, ?_⟩
  -- at that moment the counter does not wrap
  rw [hevs] at hfew
  obtain ⟨hbefore, hthere, -⟩ := (Machine.runOk_append _ _ pre _).mp hfew
  have hfits := (booked_run (booked_knocking env hw reqs) hbefore).noWrap hthere
  have hexact := inc32_exact (noWrap_add.mp (hfits _ (adds_iff.mp hadds)))
  omega

/-- How many requests other than that of `i` are admitted with the right key. -/
def othersServed (env : Env) (s : Pool ι World Worker) (i : ι) : Nat :=
  (Finset.univ.filter fun j => j ≠ i ∧ (s.proc j).ghost.admittedWithKey env = true).card

/-- How many are being rejected with their addition standing. -/
def othersRejected (env : Env) (s : Pool ι World Worker) (i : ι) : Nat :=
  (Finset.univ.filter fun j => j ≠ i ∧ (s.proc j).ghost.beingRejected env = true).card

/-- If the step is an addition and the requests with the key leave room for it, so do
    they together with the requests that are being rejected. -/
def RoomLeft (env : Env) (s : Pool ι World Worker) : Event ι Outcome EnvEvent → Prop
  | .proc i _ =>
      adds (s.proc i) = true → (othersServed env s i : Int) < env.maxInflightRequests →
        (othersServed env s i + othersRejected env s i : Int) < env.maxInflightRequests
  | .env _ => True

instance (env : Env) (s : Pool ι World Worker) :
    (e : Event ι Outcome EnvEvent) → Decidable (RoomLeft env s e)
  | .proc _ _ => inferInstanceAs (Decidable (_ → _ → _ < _))
  | .env _ => isTrue trivial

/-- A request about to add finds those served and those being rejected. -/
theorem inFlight_at_add (env : Env) {w : World} (hw : w.metrics.inFlightRequests = 0)
    (reqs : ι → Request) {evs : List (Event ι Outcome EnvEvent)}
    (hfew : (server env).RunOk FewInProgress (knocking env w reqs) evs) {i : ι}
    (hadds : adds (((server env).run (knocking env w reqs) evs).proc i) = true) :
    ((server env).run (knocking env w reqs) evs).world.metrics.inFlightRequests
      = othersServed env ((server env).run (knocking env w reqs) evs) i
        + othersRejected env ((server env).run (knocking env w reqs) evs) i := by
  obtain ⟨hin, hbalanced, hstrict⟩ := booked_run (booked_knocking env hw reqs) hfew
  have hown : (((server env).run (knocking env w reqs) evs).proc i).ghost.standing = 0 :=
    (hin.allows_calling (adds_iff.mp hadds)).1
  unfold othersServed othersRejected
  rw [hbalanced, Finset.natCast_card_filter, Finset.natCast_card_filter, ← Finset.sum_add_distrib]
  refine Finset.sum_congr rfl fun j _ => ?_
  by_cases hij : j = i
  · rw [hij, hown, if_neg fun h => h.1 rfl, if_neg fun h => h.1 rfl]
    rfl
  · rw [standing_split (hstrict j)]
    cases (((server env).run (knocking env w reqs) evs).proc j).ghost.admittedWithKey env <;>
      cases (((server env).run (knocking env w reqs) evs).proc j).ghost.beingRejected env <;>
      simp [hij]

/-- **Overload means full**, in every interleaving of any number of requests (never as
    many in progress as an `int` cannot count) in which no request that is being rejected
    takes up room the others leave: a request
    answered "Server overloaded" made its `fetch_add` at a moment at which at least
    `max_inflight_requests` others were admitted with the right key and not finished.
    An addition that does not meet the condition goes over the limit although fewer
    are. -/
theorem overload_only_when_full (env : Env) (w : World) (hw : w.metrics.inFlightRequests = 0)
    (reqs : ι → Request) (evs : List (Event ι Outcome EnvEvent))
    (hfew : (server env).RunOk FewInProgress (knocking env w reqs) evs) :
    ((server env).RunOk (RoomLeft env) (knocking env w reqs) evs →
      ∀ i, calling (((server env).run (knocking env w reqs) evs).proc i)
          = some (.finished (some (overloaded env))) →
        ∃ pre out post, evs = pre ++ .proc i out :: post
          ∧ adds (((server env).run (knocking env w reqs) pre).proc i) = true
          ∧ env.maxInflightRequests
            ≤ othersServed env ((server env).run (knocking env w reqs) pre) i)
      ∧ (∀ i out, ¬ RoomLeft env ((server env).run (knocking env w reqs) evs) (.proc i out) →
          env.maxInflightRequests
              < ((server env).run (knocking env w reqs) evs).world.metrics.inFlightRequests + 1
            ∧ (othersServed env ((server env).run (knocking env w reqs) evs) i : Int)
              < env.maxInflightRequests) := by
  constructor
  · intro hok i hanswer
    obtain ⟨pre, out, post, hevs, hadds, hfull⟩ := overloaded_added env hw reqs hfew i hanswer
    refine ⟨pre, out, post, hevs, hadds, ?_⟩
    -- back to the moment of its addition
    rw [hevs] at hok hfew
    obtain ⟨-, hroom, -⟩ := (Machine.runOk_append _ _ pre _).mp hok
    obtain ⟨hbefore, -⟩ := (Machine.runOk_append _ _ pre _).mp hfew
    rw [inFlight_at_add env hw reqs hbefore hadds] at hfull
    by_contra hless
    have := hroom hadds (by omega)
    omega
  · intro i out hroom
    unfold RoomLeft at hroom
    push Not at hroom
    obtain ⟨hadds, hless, hfull⟩ := hroom
    have hcount := inFlight_at_add env hw reqs hfew hadds
    exact ⟨by omega, hless⟩

end

/-- The first request has the slot when the second one comes, is turned away and has
    its answer ready. -/
def fullSchedule : List (Event (Fin 2) Outcome EnvEvent) :=
  schedule (turns (List.replicate 5 0 ++ List.replicate 10 1))

/-- The second of two requests for one slot. -/
theorem overload_only_when_full_two_requests :
    ∃ pre out post, fullSchedule = pre ++ .proc 1 out :: post
      ∧ adds (((server oneSlot).run (knocking oneSlot {} fun _ => listRequest) pre).proc 1) = true
      ∧ oneSlot.maxInflightRequests
        ≤ othersServed oneSlot
          ((server oneSlot).run (knocking oneSlot {} fun _ => listRequest) pre) 1 :=
  (overload_only_when_full oneSlot {} rfl (fun _ => listRequest) fullSchedule
    (by decide +kernel)).1 (by decide +kernel) 1 (by rfl)

/-- `GET /order/list` with a wrong key. -/
def wrongKeyRequest : Request :=
  { listRequest with headers := [("Host", "localhost"), ("Authorization", "0000000")] }

/-- One request has a wrong key, the other one the right key. -/
def intruders (i : Fin 2) : Request := if i.val = 0 then wrongKeyRequest else listRequest

/-- The first one has added to the counter when the second one comes. -/
def intruderSchedule : List (Event (Fin 2) Outcome EnvEvent) :=
  schedule (turns (List.replicate 4 0 ++ List.replicate 10 1))

/-- A service with one slot, and nobody in it but a request with a wrong key: the
    request with the key is answered "Server overloaded". -/
theorem wrong_key_overloads :
    calling (((server oneSlot).run (knocking oneSlot {} intruders) intruderSchedule).proc 1)
        = some (.finished (some (overloaded oneSlot)))
      ∧ ¬ ∃ pre out post, intruderSchedule = pre ++ .proc 1 out :: post
        ∧ adds (((server oneSlot).run (knocking oneSlot {} intruders) pre).proc 1) = true
        ∧ oneSlot.maxInflightRequests
          ≤ othersServed oneSlot ((server oneSlot).run (knocking oneSlot {} intruders) pre) 1 := by
  refine ⟨by rfl, ?_⟩
  -- at no moment of the run is there another request with the key
  have hnone : ∀ n < 15, othersServed oneSlot
      ((server oneSlot).run (knocking oneSlot {} intruders) (intruderSchedule.take n)) 1 = 0 := by
    decide +kernel
  rintro ⟨pre, out, post, hevs, -, hfull⟩
  have hlength : pre.length < 15 := by
    have := congrArg List.length hevs
    simp [intruderSchedule, schedule, turns] at this
    omega
  have hpre : intruderSchedule.take pre.length = pre := by
    rw [hevs, List.take_left]
  have hzero := hnone pre.length hlength
  rw [hpre] at hzero
  rw [hzero] at hfull
  exact absurd hfull (by decide)

/-- The first request is admitted, the second one is over the limit and has not taken
    its addition back when the first one is through and the third one comes. -/
def rollbackSchedule : List (Event (Fin 3) Outcome EnvEvent) :=
  schedule (turns (List.replicate 5 0 ++ List.replicate 4 1 ++ [0] ++ List.replicate 10 2))

/-- A request that is being turned away gets another one turned away, with nobody
    served at the moment of its addition. -/
theorem rollback_overloads :
    let start := knocking oneSlot {} fun _ : Fin 3 => listRequest
    calling (((server oneSlot).run start rollbackSchedule).proc 2)
        = some (.finished (some (overloaded oneSlot)))
      ∧ adds (((server oneSlot).run start (rollbackSchedule.take 13)).proc 2) = true
      ∧ othersServed oneSlot ((server oneSlot).run start (rollbackSchedule.take 13)) 2 = 0 :=
  ⟨by rfl, by decide +kernel, by decide +kernel⟩

end OrderApi.Server
