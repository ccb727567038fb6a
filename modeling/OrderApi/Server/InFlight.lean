/-
  OrderApi.Server.InFlight
  ────────────────────────
  **THE LIMIT ON REQUESTS IN FLIGHT.**

  What `LifecycleMiddleware` is for: never more than `max_inflight_requests`
  requests admitted at a time, every slot given back once.

    • `in_flight_cap`       the middleware by itself, called once before and once
                            after each request with a fresh context: the limit
                            is a cap, over all interleavings;
    • `no_double_release`   under Crow's connection, as long as no request without
                            a route meets a context that still says "counted";
    • `no_slot_leak`        under Crow's connection, as long as no request that
                            goes into the upgrade branch is given a slot.

  Both conditions are needed: the concrete runs after the theorems drive the
  counter to -1 and leave it at 1 on an idle server.  Nor may the counter wrap: the
  middleware by itself does not get that far with the worker threads there are, under
  Crow's connection it is one more condition.
-/
import OrderApi.Server.Workers
import Mathlib.Algebra.BigOperators.Ring.Finset
import Mathlib.Algebra.Order.BigOperators.Group.Finset

namespace OrderApi.Server

open OrderApi.Lib
open OrderApi.Lib.Prog
open OrderApi.Crow
open OrderApi.Model

/-! ## §1. Counting requests. -/

/-- Admitted by `before_handle` and not yet released by `after_handle`: the own
    addition stands and was within the limit. -/
def Ledger.admitted (env : Env) (l : Ledger) : Bool :=
  l.standing = 1 && l.current.any (· ≤ env.maxInflightRequests)

/-- Over the limit, between the addition and the subtraction that takes it back. -/
def Ledger.overLimit (env : Env) (l : Ledger) : Bool :=
  l.standing = 1 && l.current.any (env.maxInflightRequests < ·)

/-- A request is in progress, and it is not a probe. -/
def Ledger.servesBusiness (l : Ledger) : Bool := l.req.any fun req => !isProbePath req.url

section
variable {ι : Type} [Fintype ι] (f : Ledger → Bool) (s : Pool ι World Worker)

/-- The number of connections whose ledger satisfies `f`. -/
def howMany : Nat := (Finset.univ.filter fun i => f (s.proc i).ghost = true).card

theorem howMany_eq_sum : (howMany f s : Int) = ∑ i, (f (s.proc i).ghost).toInt := by
  unfold howMany
  rw [Finset.natCast_card_filter]
  refine Finset.sum_congr rfl fun i _ => ?_
  cases f (s.proc i).ghost <;> rfl

end

theorem toInt_nonneg (b : Bool) : 0 ≤ b.toInt := by
  cases b <;> decide

/-! ## §2. The middleware by itself. -/

/-- A request as a framework handles it that gives each one a fresh context and
    calls `before_handle` once and `after_handle` once. -/
def lifecycleRequest (env : Env) (req : Request) : Code Unit := do
  perform (.received {} req)
  let c ← (lifecycleMiddleware env).beforeHandle req {}
  let _ ← (lifecycleMiddleware env).afterHandle req c
  perform (.finished none)

/-- Nothing is left when such a request is over. -/
def strict : Terms where
  unmatched _ := False
  settled l := l.standing = 0

/-- A request is in progress. -/
def Ledger.inProgress (l : Ledger) : Bool := l.req.isSome

/-- There are fewer requests in progress than an `int` can count.  Each of them has a worker
    thread to itself, and Crow's `concurrency_` is a `std::uint16_t`. -/
def FewInProgress {ι : Type} [Fintype ι] (s : Pool ι World Worker)
    (_ : Event ι Outcome EnvEvent) : Prop :=
  howMany Ledger.inProgress s < 2 ^ 31

instance {ι : Type} [Fintype ι] (s : Pool ι World Worker) (e : Event ι Outcome EnvEvent) :
    Decidable (FewInProgress s e) :=
  inferInstanceAs (Decidable (_ < _))

/-- **A request by itself keeps the books**: it subtracts what it added. -/
theorem wp_lifecycleRequest (env : Env) (req : Request) :
    wp (books env strict) (lifecycleRequest env req) (fun _ _ => True) {} := by
  unfold lifecycleRequest
  rw [wp_perform]
  refine ⟨⟨rfl, rfl⟩, ?_⟩
  intro _
  rw [wp_bind]
  refine wp_mono ?_ (wp_lifecycle_before rfl rfl rfl)
  intro c l hchecked
  rw [wp_bind]
  -- in each case the flag says whether something stands
  have hflag : l.standing = c.ctx.countedInflight.toInt := by
    cases hchecked with
    | probe url => rfl
    | rejected c l completed uncounted standing same => rw [standing, uncounted]; rfl
    | admitted c l url res counted standing same up limit => rw [standing, counted]; rfl
  apply wp_lifecycle_after
  · intro hcounted
    refine .inl ?_
    rw [hflag, hcounted]
    rfl
  · refine ⟨?_, fun _ => trivial⟩
    show (l.released c.ctx.countedInflight).standing = 0
    unfold Ledger.released
    cases hcounted : c.ctx.countedInflight with
    | false =>
        show l.standing = 0
        rw [hflag, hcounted]
        rfl
    | true =>
        show l.standing - 1 = 0
        rw [hflag, hcounted]
        rfl

/-- Requests none of which has arrived yet, over a world. -/
def arriving {ι : Type} (env : Env) (w : World) (reqs : ι → Request) : Pool ι World Worker :=
  { world := w, proc := fun i => ⟨{}, lifecycleRequest env (reqs i), none⟩ }

/-- What holds of the ledger of such a request. -/
structure Ledger.Strict (l : Ledger) : Prop where
  idle : l.req = none → l.standing = 0
  standing : l.standing = 0 ∨ (l.standing = 1 ∧ ∃ current, l.current = some current)

section
variable {env : Env}

/-- Within the middleware no subtraction is unmatched. -/
theorem strict_call (a : Atomic) (l : Ledger) (w : World)
    (h : Ledger.Allows env strict (.atomic a) l) (hl : l.Strict) :
    (Ledger.record (.atomic a) (a.exec env w).1 l).Strict := by
  cases a with
  | received conn req => exact ⟨fun _ => rfl, .inl rfl⟩
  | finished sent =>
      have hzero : l.standing = 0 := h
      exact ⟨fun _ => hzero, .inl hzero⟩
  | inFlightAdd =>
      obtain ⟨hzero, req, hreq, -⟩ := h
      have hone : l.standing + 1 = 1 := by omega
      refine ⟨fun hnone => ?_, .inr ⟨hone, _, rfl⟩⟩
      have hreq' : l.req = none := hnone
      rw [hreq] at hreq'
      cases hreq'
  | inFlightSub =>
      have hone : l.standing = 1 := h.resolve_right id
      have hzero : l.standing - 1 = 0 := by omega
      exact ⟨fun _ => hzero, .inl hzero⟩
  | _ => exact ⟨hl.idle, hl.standing⟩

/-- What stands is an admitted request or one over the limit. -/
theorem standing_eq {l : Ledger} (h : l.Strict) :
    l.standing = (l.admitted env).toInt + (l.overLimit env).toInt := by
  unfold Ledger.admitted Ledger.overLimit
  obtain hzero | ⟨hone, current, hcurrent⟩ := h.standing
  · simp [hzero]
  · by_cases hle : current ≤ env.maxInflightRequests
    · have hge : ¬ env.maxInflightRequests < current := by omega
      simp [hone, hcurrent, hle, hge]
    -- the addition stands, and its request is about to take it back
    · have hlt : env.maxInflightRequests < current := by omega
      simp [hone, hcurrent, hle, hlt]

/-- Only a request in progress has something standing. -/
theorem standing_bounds {l : Ledger} (h : l.Strict) :
    0 ≤ l.standing ∧ l.standing ≤ l.inProgress.toInt := by
  obtain hzero | ⟨hone, -⟩ := h.standing
  · exact ⟨by omega, hzero ▸ toInt_nonneg _⟩
  · refine ⟨by omega, ?_⟩
    unfold Ledger.inProgress
    cases hreq : l.req with
    | none =>
        have hzero := h.idle hreq
        omega
    | some req => exact Int.le_of_eq hone

/-- A call admits only by an addition within the limit. -/
theorem admitted_call (a : Atomic) (l : Ledger) (w : World)
    (h : Ledger.Allows env strict (.atomic a) l) (hfits : NoWrap a l w) :
    ((Ledger.record (.atomic a) (a.exec env w).1 l).admitted env).toInt ≤ (l.admitted env).toInt
      ∨ (((Ledger.record (.atomic a) (a.exec env w).1 l).admitted env).toInt
          = (l.admitted env).toInt + 1
        ∧ w.metrics.inFlightRequests + 1 ≤ env.maxInflightRequests) := by
  cases a with
  | received conn req => exact .inl (toInt_nonneg _)
  | inFlightAdd =>
      have hzero : l.standing = 0 := h.1
      have hadd := inc32_exact (noWrap_add.mp hfits)
      by_cases hle : w.metrics.inFlightRequests + 1 ≤ env.maxInflightRequests
      · refine .inr ⟨?_, hle⟩
        simp [Ledger.record, Ledger.admitted, Atomic.exec, hadd, hzero, hle]
      · refine .inl ?_
        simp [Ledger.record, Ledger.admitted, Atomic.exec, hadd, hle, hzero]
  | inFlightSub =>
      have hone : l.standing = 1 := h.resolve_right id
      refine .inl ?_
      have hno : (Ledger.record (.atomic .inFlightSub) (Atomic.exec env .inFlightSub w).1
          l).admitted env = false := by
        simp [Ledger.record, Ledger.admitted, hone]
      rw [hno]
      exact toInt_nonneg _
  | _ => exact .inl (Int.le_refl _)

variable {ι : Type} [Fintype ι]

/-- The books are kept, and the counter is what the ledgers say. -/
structure Booked (env : Env) (s : Pool ι World Worker) : Prop where
  inOrder : InOrder env strict s
  balanced : Balanced s
  ledgers : ∀ i, (s.proc i).ghost.Strict

/-- And the admitted requests fit the limit. -/
structure WithinCap (env : Env) (s : Pool ι World Worker) : Prop extends Booked env s where
  cap : (howMany (Ledger.admitted env) s : Int) ≤ env.maxInflightRequests

/-- The counter counts the admitted requests and those over the limit. -/
theorem Booked.inFlight {s : Pool ι World Worker} (h : Booked env s) :
    s.world.metrics.inFlightRequests
      = howMany (Ledger.admitted env) s + howMany (Ledger.overLimit env) s := by
  rw [h.balanced, howMany_eq_sum, howMany_eq_sum, ← Finset.sum_add_distrib]
  exact Finset.sum_congr rfl fun i _ => standing_eq (h.ledgers i)

/-- With few requests in progress the counter does not wrap: whoever adds has nothing
    standing yet, and whoever subtracts has. -/
theorem Booked.noWrap {s : Pool ι World Worker} (h : Booked env s) {e : Event ι Outcome EnvEvent}
    (hfew : FewInProgress s e) : AtCalls NoWrap s e := by
  cases e with
  | env x => trivial
  | proc i out =>
      intro a hcall
      have hallows := h.inOrder.allows_calling hcall
      have hnonneg : ∀ j ∈ Finset.univ, 0 ≤ (s.proc j).ghost.standing :=
        fun j _ => (standing_bounds (h.ledgers j)).1
      have hle : ∀ j ∈ Finset.univ, (s.proc j).ghost.standing ≤ (s.proc j).ghost.inProgress.toInt :=
        fun j _ => (standing_bounds (h.ledgers j)).2
      have hcount : (∑ j, (s.proc j).ghost.inProgress.toInt) < 2 ^ 31 := by
        rw [← howMany_eq_sum Ledger.inProgress]
        exact_mod_cast hfew
      have hsum : s.world.metrics.inFlightRequests = ∑ j, (s.proc j).ghost.standing := h.balanced
      have hpos := Finset.sum_nonneg hnonneg
      cases a with
      | inFlightAdd =>
          obtain ⟨hzero, req, hreq, -⟩ := hallows
          have hlt : (s.proc i).ghost.standing < (s.proc i).ghost.inProgress.toInt := by
            rw [hzero, Ledger.inProgress, hreq]
            exact Int.one_pos
          have hless := Finset.sum_lt_sum hle ⟨i, Finset.mem_univ i, hlt⟩
          exact noWrap_add.mpr ⟨by omega, by omega⟩
      | inFlightSub =>
          have hone : (s.proc i).ghost.standing = 1 := hallows.resolve_right id
          have hown := Finset.single_le_sum hnonneg (Finset.mem_univ i)
          have htotal := Finset.sum_le_sum hle
          exact noWrap_sub.mpr ⟨by omega, by omega⟩
      | _ => rfl

variable [DecidableEq ι]

/-- **One event keeps the books**, while the gauge does not wrap. -/
theorem booked_fire {s : Pool ι World Worker} (h : Booked env s) {e : Event ι Outcome EnvEvent}
    (hfew : FewInProgress s e) : Booked env ((server env).fire s e) where
  inOrder := inOrder_fire h.inOrder e
  balanced := balanced_fire h.inOrder h.balanced (h.noWrap hfew)
  ledgers := ledger_inv_all (P := Ledger.Strict) strict_call h.inOrder h.ledgers [e]

/-- **So does a whole run.** -/
theorem booked_run {s : Pool ι World Worker} (h : Booked env s)
    {evs : List (Event ι Outcome EnvEvent)} (hfew : (server env).RunOk FewInProgress s evs) :
    Booked env ((server env).run s evs) :=
  Machine.run_inv (I := Booked env) (server env) (fun _ _ hs he => booked_fire hs he) evs s h hfew

/-- An addition that is admitted finds room. -/
theorem cap_fire {s : Pool ι World Worker} (h : WithinCap env s) {i : ι} {out : Outcome}
    (hfits : AtCalls NoWrap s (.proc i out)) :
    (howMany (Ledger.admitted env) ((server env).fire s (.proc i out)) : Int)
      ≤ env.maxInflightRequests := by
  -- by the sum, the counter is at least the number of admitted requests
  have hcap := h.cap
  have hsum := h.inFlight
  rw [howMany_eq_sum] at hcap ⊢
  rw [howMany_eq_sum] at hsum
  show (∑ j, ((Function.update s.proc i _ j).ghost.admitted env).toInt) ≤ _
  rw [sum_proc_update (fun p : Worker => (p.ghost.admitted env).toInt)]
  cases server_moved env out (s.proc i) s.world with
  | silent ghost inFlight =>
      rw [ghost]
      omega
  | called a k task ghost world =>
      rw [ghost]
      -- an addition that admits saw at least the requests admitted before
      obtain hle | ⟨heq, hlimit⟩ := admitted_call a _ s.world (h.inOrder.allows task)
        (hfits a (calling_eq_some.mpr ⟨k, task⟩))
      · omega
      · omega

/-- **One event keeps within the limit.** -/
theorem withinCap_fire {s : Pool ι World Worker} (h : WithinCap env s)
    {e : Event ι Outcome EnvEvent} (hfew : FewInProgress s e) :
    WithinCap env ((server env).fire s e) := by
  refine ⟨booked_fire h.toBooked hfew, ?_⟩
  cases e with
  | env x => exact h.cap
  | proc i out => exact cap_fire h (h.noWrap hfew)

/-- **The in-flight limit is a cap.**  Over any interleaving of the atomic
    operations of any number of requests, of which never as many are in progress as an
    `int` cannot count: the requests admitted and not released are at most
    `max_inflight_requests`; the counter is their number plus that of the requests over
    the limit which have not taken their addition back; and it is 0 when no request is
    in progress. -/
theorem in_flight_cap (env : Env) (hmax : 1 ≤ env.maxInflightRequests) (w : World)
    (hw : w.metrics.inFlightRequests = 0) (reqs : ι → Request)
    (evs : List (Event ι Outcome EnvEvent))
    (hfew : (server env).RunOk FewInProgress (arriving env w reqs) evs) :
    let s := (server env).run (arriving env w reqs) evs
    (howMany (Ledger.admitted env) s : Int) ≤ env.maxInflightRequests
      ∧ s.world.metrics.inFlightRequests
          = howMany (Ledger.admitted env) s + howMany (Ledger.overLimit env) s
      ∧ ((∀ i, (s.proc i).ghost.req = none) → s.world.metrics.inFlightRequests = 0) := by
  intro s
  -- at the start no request has arrived and no ledger has an entry
  have hnone : howMany (Ledger.admitted env) (arriving env w reqs) = 0 := by
    unfold howMany
    rw [Finset.card_eq_zero, Finset.filter_eq_empty_iff]
    intro i _
    show ¬ Ledger.admitted env {} = true
    simp [Ledger.admitted]
  have hstart : WithinCap env (arriving env w reqs) := by
    refine ⟨⟨fun i => wp_lifecycleRequest env (reqs i), ?_, fun i => ⟨fun _ => rfl, .inl rfl⟩⟩, ?_⟩
    · show w.metrics.inFlightRequests = ∑ i : ι, (0 : Int)
      rw [hw, Finset.sum_const_zero]
    · rw [hnone]
      omega
  have hs : WithinCap env s :=
    Machine.run_inv (I := WithinCap env) (server env) (fun _ _ hs he => withinCap_fire hs he)
      evs _ hstart hfew
  refine ⟨hs.cap, hs.inFlight, ?_⟩
  intro hidle
  rw [hs.balanced]
  exact Finset.sum_eq_zero fun i _ => (hs.ledgers i).idle (hidle i)

end

/-- `GET /order/list` with the key. -/
def listRequest : Request where
  method := .get
  url := "/order/list"
  urlNoNul := by decide
  headers := [("Host", "localhost"), ("Authorization", "1234567")]

/-- A service with one slot. -/
def oneSlot : Env := { sampleEnv with maxInflightRequests := 1 }

/-- Three requests add before any of them compares: one is admitted, and the
    counter stands at 3 until the other two take their additions back. -/
theorem in_flight_cap_overshoot :
    let s := (server oneSlot).run (arriving oneSlot {} fun _ : Fin 3 => listRequest)
      (schedule (turns [0, 0, 0, 1, 1, 1, 2, 2, 2]))
    (howMany (Ledger.admitted oneSlot) s : Int) ≤ 1 ∧ howMany (Ledger.overLimit oneSlot) s = 2
      ∧ s.world.metrics.inFlightRequests = 3 := by
  refine ⟨(in_flight_cap oneSlot (by decide) {} rfl _ _ (by decide +kernel)).1, ?_, ?_⟩
  · decide +kernel
  · decide +kernel

/-! ## §3. No slot is released twice. -/

/-- A request without a route arrives on a connection whose context still says
    "counted". -/
def meetsStaleContext : Atomic → Bool
  | .received conn req => unrouted req && conn.ctx.countedInflight
  | _ => false

/-- The call is not such an arrival. -/
def FreshContext (a : Atomic) (_ : Ledger) (_ : World) : Prop := meetsStaleContext a = false

instance (a : Atomic) (l : Ledger) (w : World) : Decidable (FreshContext a l w) :=
  inferInstanceAs (Decidable (_ = _))

/-- What holds of a ledger while that is so. -/
structure Ledger.Fresh (l : Ledger) : Prop where
  routed : l.stale = false
  standing : 0 ≤ l.standing ∧ l.standing ≤ 1

/-- A subtraction in a fresh context takes back an addition. -/
theorem fresh_sub {env : Env} {l : Ledger} (hl : l.Fresh)
    (h : Ledger.Allows env (crow env) (.atomic .inFlightSub) l) : l.standing = 1 := by
  -- an unmatched subtraction needs a context left over from another request
  obtain hone | ⟨hstale, -⟩ := h
  · exact hone
  · rw [hl.routed] at hstale
    cases hstale

/-- **A call keeps the ledger fresh**, when it brings no stale context. -/
theorem fresh_call {env : Env} (a : Atomic) (l : Ledger) (w : World)
    (h : Ledger.Allows env (crow env) (.atomic a) l) (hok : FreshContext a l w) (hl : l.Fresh) :
    (Ledger.record (.atomic a) (a.exec env w).1 l).Fresh := by
  cases a with
  | received conn req => exact ⟨hok, Int.le_refl 0, Int.zero_le_ofNat 1⟩
  | inFlightAdd =>
      have hzero : l.standing = 0 := h.1
      refine ⟨hl.routed, ?_⟩
      show 0 ≤ l.standing + 1 ∧ l.standing + 1 ≤ 1
      omega
  | inFlightSub =>
      have hone := fresh_sub hl h
      refine ⟨hl.routed, ?_⟩
      show 0 ≤ l.standing - 1 ∧ l.standing - 1 ≤ 1
      omega
  | _ => exact ⟨hl.routed, hl.standing⟩

/-- A request is in progress, admitted and not yet released. -/
def Ledger.holdsSlot (env : Env) (l : Ledger) : Bool := l.req.isSome && l.admitted env

/-- A slot that is held has its addition standing. -/
theorem holdsSlot_le_standing {env : Env} {l : Ledger} (hl : l.Fresh) :
    (l.holdsSlot env).toInt ≤ l.standing := by
  have hnonneg := hl.standing.1
  cases hslot : l.holdsSlot env with
  | false => exact hnonneg
  | true =>
      have hone : l.standing = 1 := by
        simp only [Ledger.holdsSlot, Ledger.admitted, Bool.and_eq_true, decide_eq_true_eq] at hslot
        exact hslot.2.1
      rw [hone]
      rfl

section
variable {ι : Type} [Fintype ι] [DecidableEq ι]

/-- **No slot is released twice**, in every interleaving of any connections in
    which no request without a route meets a context that still says "counted", and
    the counter does not wrap: a subtraction is only ever made by a request whose own
    addition stands, so the counter is at least the number of requests that hold a
    slot, and never negative. -/
theorem no_double_release (svc : Service) (w : World) (hw : w.metrics.inFlightRequests = 0)
    (visits : ι → List Visit) (evs : List (Event ι Outcome EnvEvent))
    (hok : (server svc.env).RunOk (AtCalls FreshContext) (opened svc w visits) evs)
    (hfits : (server svc.env).RunOk (AtCalls NoWrap) (opened svc w visits) evs) :
    let s := (server svc.env).run (opened svc w visits) evs
    (∀ i, calling (s.proc i) = some .inFlightSub → (s.proc i).ghost.standing = 1)
      ∧ (howMany (Ledger.holdsSlot svc.env) s : Int) ≤ s.world.metrics.inFlightRequests
      ∧ 0 ≤ s.world.metrics.inFlightRequests := by
  intro s
  have hin := inOrder_opened svc w visits
  have hfresh : ∀ i, (s.proc i).ghost.Fresh :=
    ledger_inv fresh_call hin (fun i => ⟨rfl, Int.le_refl 0, Int.zero_le_ofNat 1⟩) hok
  have hsum : Balanced s := in_flight_eq_standing hin (balanced_opened svc hw visits) hfits
  have hslots : (howMany (Ledger.holdsSlot svc.env) s : Int)
      ≤ s.world.metrics.inFlightRequests := by
    rw [howMany_eq_sum, hsum]
    exact Finset.sum_le_sum fun i _ => holdsSlot_le_standing (hfresh i)
  refine ⟨?_, hslots, by omega⟩
  intro i hcall
  exact fresh_sub (hfresh i) ((inOrder_run hin evs).allows_calling hcall)

end

/-- `GET /nowhere`. -/
def unroutedRequest : Request where
  method := .get
  url := "/nowhere"
  urlNoNul := by decide
  headers := [("Host", "localhost")]

/-- Two connections: one asks for `/nowhere`, the other for the list. -/
def mixedVisits (i : Fin 2) : List Visit :=
  if i = 0 then [⟨unroutedRequest, {}⟩] else [⟨listRequest, {}⟩]

/-- They move until the list request is in its handler. -/
def mixedSchedule : List (Event (Fin 2) Outcome EnvEvent) :=
  schedule (turns [0, 0, 1, 1, 1, 1, 1, 1, 0, 0, 0, 0])

/-- The answer to `/nowhere` leaves the slot of the list request alone. -/
theorem no_double_release_two_connections :
    let s := (server sampleService.env).run (opened sampleService {} mixedVisits) mixedSchedule
    howMany (Ledger.holdsSlot sampleService.env) s = 1
      ∧ (howMany (Ledger.holdsSlot sampleService.env) s : Int) ≤ s.world.metrics.inFlightRequests :=
  ⟨by decide +kernel,
    (no_double_release sampleService {} rfl mixedVisits mixedSchedule (by decide +kernel)
      (by decide +kernel)).2.1⟩

/-- A list request, and then `/nowhere` on the same connection: the after handlers
    find the context of the list request and subtract a second time. -/
theorem unrouted_request_releases_again :
    ((server sampleEnv).run
      (opened sampleService {} fun _ : Fin 1 => [⟨listRequest, {}⟩, ⟨unroutedRequest, {}⟩])
      (schedule (turns (List.replicate 25 0)))).world.metrics.inFlightRequests = -1 := by
  decide +kernel

/-! ## §4. No slot leaks. -/

/-- A request that `handle` takes into its upgrade branch and that has the key
    adds to the counter, and the limit leaves room for it. -/
def takesUpgradeSlot (env : Env) : Atomic → Ledger → World → Bool
  | .inFlightAdd, l, w =>
      l.req.any (fun req => takesUpgrade req && authorized env req)
        && inc32 w.metrics.inFlightRequests ≤ env.maxInflightRequests
  | _, _, _ => false

/-- The call is not such an addition. -/
def NoUpgradeSlot (env : Env) (a : Atomic) (l : Ledger) (w : World) : Prop :=
  takesUpgradeSlot env a l w = false

instance (env : Env) (a : Atomic) (l : Ledger) (w : World) : Decidable (NoUpgradeSlot env a l w) :=
  inferInstanceAs (Decidable (_ = _))

/-- What holds of a ledger while that is so. -/
structure Ledger.LeakFree (env : Env) (l : Ledger) : Prop where
  limit : l.limit = none ∨ l.limit = some env.maxInflightRequests
  /-- An upgrade that was counted was over the limit. -/
  upgrade : ∀ req current, l.req = some req → takesUpgrade req = true → authorized env req = true →
    l.current = some current → env.maxInflightRequests < current
  standing : l.standing ≤ l.servesBusiness.toInt

/-- A request that is settled has nothing standing. -/
theorem LeakFree.settled {env : Env} {l : Ledger} (hl : l.LeakFree env) (h : l.Settled env) :
    l.standing ≤ 0 := by
  obtain hle | ⟨-, ⟨req, hreq, hupgrade⟩, hgate⟩ := h
  · exact hle
  · obtain ⟨req', hreq', -, -, hwithin, hauth⟩ := hgate
    have hsame : req' = req := Option.some.inj (hreq'.symm.trans hreq)
    rw [hsame] at hauth
    obtain ⟨current, hcurrent, hle⟩ := hwithin.le hl.limit
    -- the gate wants the count within the limit, an upgrade only adds beyond it
    have hover := hl.upgrade req current hreq hupgrade hauth hcurrent
    omega

/-- **A call leaves nothing behind**, when it is no upgrade with a slot. -/
theorem leakFree_call {env : Env} (a : Atomic) (l : Ledger) (w : World)
    (h : Ledger.Allows env (crow env) (.atomic a) l) (hok : NoUpgradeSlot env a l w)
    (hl : l.LeakFree env) : (Ledger.record (.atomic a) (a.exec env w).1 l).LeakFree env := by
  cases a with
  | received conn req =>
      refine ⟨.inl rfl, ?_, toInt_nonneg _⟩
      intro req' current _ _ _ hcurrent
      cases hcurrent
  | finished sent =>
      have hle : l.standing ≤ 0 := LeakFree.settled hl h
      refine ⟨hl.limit, ?_, hle⟩
      intro req current hreq
      cases hreq
  | loadMaxInflight => exact ⟨.inr rfl, hl.upgrade, hl.standing⟩
  | inFlightAdd =>
      obtain ⟨hzero, req, hreq, hbusiness⟩ := h
      refine ⟨hl.limit, ?_, ?_⟩
      -- an upgrade with the key adds only where there is no room for it
      · intro req' current hreq' hupgrade hauth hcurrent
        have hcount : current = inc32 w.metrics.inFlightRequests := (Option.some.inj hcurrent).symm
        have hroom : takesUpgradeSlot env .inFlightAdd l w = false := hok
        have hreq'' : l.req = some req' := hreq'
        simp only [takesUpgradeSlot, hreq'', Option.any_some, hupgrade, hauth, Bool.and_self,
          Bool.true_and, decide_eq_false_iff_not] at hroom
        omega
      · show l.standing + 1 ≤ (l.req.any fun req => !isProbePath req.url).toInt
        rw [hzero, hreq, Option.any_some, hbusiness]
        decide
  | inFlightSub =>
      refine ⟨hl.limit, hl.upgrade, ?_⟩
      have hle := hl.standing
      show l.standing - 1 ≤ l.servesBusiness.toInt
      omega
  | _ => exact ⟨hl.limit, hl.upgrade, hl.standing⟩

/-- Between two requests nothing stands. -/
theorem standing_of_idle {env : Env} {l : Ledger} (hl : l.LeakFree env) (hreq : l.req = none) :
    l.standing ≤ 0 := by
  have hle := hl.standing
  unfold Ledger.servesBusiness at hle
  rw [hreq] at hle
  exact hle

section
variable {ι : Type} [Fintype ι] [DecidableEq ι]

/-- **No slot leaks**, in every interleaving of any connections in which no
    request with the key is given a slot and taken into the upgrade branch, and the
    counter does not wrap: when the framework is through with a request, what it
    added has been taken back; the counter is at most the number of business requests
    in progress; and a request that comes when nothing else is in progress is within
    the limit. -/
theorem no_slot_leak (svc : Service) (hmax : 1 ≤ svc.env.maxInflightRequests) (w : World)
    (hw : w.metrics.inFlightRequests = 0) (visits : ι → List Visit)
    (evs : List (Event ι Outcome EnvEvent))
    (hok : (server svc.env).RunOk (AtCalls (NoUpgradeSlot svc.env)) (opened svc w visits) evs)
    (hfits : (server svc.env).RunOk (AtCalls NoWrap) (opened svc w visits) evs) :
    let s := (server svc.env).run (opened svc w visits) evs
    (∀ i sent, calling (s.proc i) = some (.finished sent) → (s.proc i).ghost.standing ≤ 0)
      ∧ s.world.metrics.inFlightRequests ≤ howMany Ledger.servesBusiness s
      ∧ (∀ i, calling (s.proc i) = some .inFlightAdd → (∀ j, j ≠ i → (s.proc j).ghost.req = none) →
          s.world.metrics.inFlightRequests + 1 ≤ svc.env.maxInflightRequests) := by
  intro s
  have hin := inOrder_opened svc w visits
  have hfree : ∀ i, (s.proc i).ghost.LeakFree svc.env := by
    refine ledger_inv leakFree_call hin (fun i => ⟨.inl rfl, ?_, Int.le_refl 0⟩) hok
    intro req current hreq
    cases hreq
  have hsum : Balanced s := in_flight_eq_standing hin (balanced_opened svc hw visits) hfits
  have hallows := inOrder_run hin evs
  refine ⟨?_, ?_, ?_⟩
  · intro i sent hcall
    exact LeakFree.settled (hfree i) (hallows.allows_calling hcall)
  · rw [howMany_eq_sum, hsum]
    exact Finset.sum_le_sum fun i _ => (hfree i).standing
  -- the ledgers of the others have at most nothing standing, and so has its own
  · intro i hcall hidle
    have hzero : (s.proc i).ghost.standing = 0 := (hallows.allows_calling hcall).1
    have hle : s.world.metrics.inFlightRequests ≤ 0 := by
      rw [hsum]
      refine Finset.sum_nonpos fun j _ => ?_
      by_cases hji : j = i
      · rw [hji, hzero]
      · exact standing_of_idle (hfree j) (hidle j hji)
    omega

end

/-- `GET /order/list` with the key, asking for an upgrade to WebSocket. -/
def upgradeRequest : Request where
  method := .get
  url := "/order/list"
  urlNoNul := by decide
  headers := [("Host", "localhost"), ("Authorization", "1234567"), ("Upgrade", "websocket"),
    ("Connection", "Upgrade")]
  upgrade := true

/-- The service with one slot. -/
def oneSlotService : Service := { sampleService with env := oneSlot }

/-- Two connections: one asks for the list, the other for an upgrade. -/
def upgradeVisits (i : Fin 2) : List Visit :=
  if i = 0 then [⟨listRequest, {}⟩] else [⟨upgradeRequest, {}⟩]

/-- The upgrade comes while the list request has the slot. -/
def upgradeSchedule : List (Event (Fin 2) Outcome EnvEvent) :=
  schedule (turns [0, 0, 0, 0, 0, 0, 1, 1, 1, 1, 1, 1, 1, 1, 1, 1, 1, 1])

/-- An upgrade that is turned away for lack of a slot leaves nothing standing. -/
theorem no_slot_leak_upgrade_over_limit :
    let s := (server oneSlotService.env).run (opened oneSlotService {} upgradeVisits)
      upgradeSchedule
    howMany Ledger.servesBusiness s = 1
      ∧ s.world.metrics.inFlightRequests ≤ howMany Ledger.servesBusiness s :=
  ⟨by decide +kernel,
    (no_slot_leak oneSlotService (by decide) {} rfl upgradeVisits upgradeSchedule
      (by decide +kernel) (by decide +kernel)).2.1⟩

/-- The upgrade by itself: nothing is in progress any more, and the counter stays
    at 1. -/
theorem upgrade_keeps_its_slot :
    let s := (server sampleEnv).run
      (opened sampleService {} fun _ : Fin 1 => [⟨upgradeRequest, {}⟩])
      (schedule (turns (List.replicate 10 0)))
    howMany Ledger.servesBusiness s = 0 ∧ s.world.metrics.inFlightRequests = 1 := by
  decide +kernel

end OrderApi.Server
