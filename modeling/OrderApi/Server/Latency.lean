/-
  OrderApi.Server.Latency
  ───────────────────────
  **WHOSE TIME A LATENCY SAMPLE MEASURES.**

  `LoggingMiddleware` keeps the start time of a request in the context of the
  connection.  `handle` makes a new context and `before_handle` sets the start
  time; `handle_url` does neither for a request without a route, yet runs the
  after handlers.  A bystander notes when each connection received its request
  and what was passed to `observe_request_duration_ms`:

    • `samples_own_request`   no sample is longer than the time since its own
                              request was received, as long as no request
                              without a route comes later than the start time
                              the connection still has;
    • `unrouted_sample`       a request without a route after a minute of
                              silence: its sample is that minute.
-/
import OrderApi.Server.Endings
import OrderApi.Server.InFlight

namespace OrderApi.Server

open OrderApi.Lib
open OrderApi.Crow
open OrderApi.Model

/-! ## §1. The bystander's notes. -/

/-- A call of `observe_request_duration_ms`. -/
structure Sample where
  duration : Int
  /-- When the connection received the request it is serving. -/
  received : Option Int
  /-- When the call was made. -/
  observed : Int
  deriving DecidableEq

/-- The sample is no longer than the time since its own request was received. -/
def Sample.Own (x : Sample) : Prop := ∃ t, x.received = some t ∧ x.duration ≤ x.observed - t

/-- When each connection received its current request, and all samples so far. -/
structure Timing (ι : Type) where
  received : ι → Option Int := fun _ => none
  samples : List Sample := []

section
variable {ι : Type} [DecidableEq ι]

/-- What the bystander notes of an atomic operation at a moment. -/
def Timing.noteCall (clock : Int) (i : ι) (h : Timing ι) : Atomic → Timing ι
  | .received _ _ => { h with received := Function.update h.received i (some clock) }
  | .observe d => { h with samples := h.samples ++ [⟨d, h.received i, clock⟩] }
  | _ => h

/-- What the bystander notes of an event. -/
def Timing.note (s : Pool ι World Worker) : Event ι Outcome EnvEvent → Timing ι → Timing ι
  | .proc i _, h => (calling (s.proc i)).elim h (h.noteCall s.world.clock i)
  | .env _, h => h

/-- The notes after a run. -/
def timing (env : Env) (s : Pool ι World Worker) (evs : List (Event ι Outcome EnvEvent)) :
    Timing ι :=
  (server env).watch Timing.note s evs {}

end

/-- A request without a route comes later than the start time in the context of
    its connection. -/
def lateUnrouted : Atomic → World → Bool
  | .received conn req, w => unrouted req && conn.ctx.startTime < w.clock
  | _, _ => false

/-- The call does not receive such a request. -/
def Timely (a : Atomic) (_ : Ledger) (w : World) : Prop := lateUnrouted a w = false

instance (a : Atomic) (l : Ledger) (w : World) : Decidable (Timely a l w) :=
  inferInstanceAs (Decidable (_ = _))

/-! ## §2. What a trail knows of the time. -/

/-- The readings of the clock on a trail are past, and the start time is not
    before the request was received. -/
structure Clocked (clock : Int) (received : Option Int) (l : Trail) : Prop where
  last : ∀ t, l.last = some t → t ≤ clock
  start : ∀ t₀, l.start = some t₀ → ∃ t, received = some t ∧ t ≤ t₀
  current : l.current.isSome = true → ∃ t, received = some t ∧ t ≤ clock

/-- What is past stays past. -/
theorem Clocked.later {clock clock' : Int} {received : Option Int} {l : Trail}
    (h : Clocked clock received l) (hle : clock ≤ clock') : Clocked clock' received l := by
  refine ⟨fun t ht => Int.le_trans (h.last t ht) hle, h.start, ?_⟩
  intro hcurrent
  obtain ⟨t, hreceived, ht⟩ := h.current hcurrent
  exact ⟨t, hreceived, Int.le_trans ht hle⟩

/-- The moment of receipt after an operation. -/
def receipt (clock : Int) (received : Option Int) : Atomic → Option Int
  | .received _ _ => some clock
  | _ => received

/-- A call is clocked: it reads the time of now. -/
theorem clocked_call {svc : Service} {a : Atomic} {l : Trail} {ledger : Ledger} {w : World}
    {received : Option Int} (hallows : Trail.Allows svc (.atomic a) l)
    (htimely : Timely a ledger w) (h : Clocked w.clock received l) :
    Clocked w.clock (receipt w.clock received a)
      (Trail.note (.atomic a) (a.exec svc.env w).1 l) := by
  cases a with
  | received conn req =>
      refine ⟨?_, ?_, fun _ => ⟨w.clock, rfl, Int.le_refl _⟩⟩
      · intro t ht
        cases ht
      intro t₀ ht₀
      refine ⟨w.clock, rfl, ?_⟩
      -- only a request without a route has a start time already
      have hstart : (if unrouted req = true then some conn.ctx.startTime else none) = some t₀ := ht₀
      by_cases hunrouted : unrouted req = true
      · rw [if_pos hunrouted] at hstart
        rw [← Option.some.inj hstart]
        have hearly : (unrouted req && conn.ctx.startTime < w.clock) = false := htimely
        rw [hunrouted] at hearly
        simpa using hearly
      · rw [if_neg hunrouted] at hstart
        cases hstart
  | finished sent => exact ⟨h.last, h.start, fun hcurrent => by cases hcurrent⟩
  | now =>
      refine ⟨?_, ?_, h.current⟩
      · intro t ht
        exact Int.le_of_eq (Option.some.inj ht).symm
      · intro t₀ ht₀
        have hstart : l.start.getD w.clock = t₀ := Option.some.inj ht₀
        cases hl : l.start with
        | some t₁ =>
            rw [hl] at hstart
            rw [← hstart]
            exact h.start t₁ hl
        | none =>
            rw [hl] at hstart
            rw [← hstart]
            exact h.current hallows.2
  | count t => cases t <;> exact ⟨h.last, h.start, h.current⟩
  | _ => exact ⟨h.last, h.start, h.current⟩

/-- A sample is measured from a start time that is not before the receipt. -/
theorem own_of_clocked {svc : Service} {d clock : Int} {l : Trail} {received : Option Int}
    (hallows : Trail.Allows svc (.atomic (.observe d)) l) (h : Clocked clock received l) :
    Sample.Own ⟨d, received, clock⟩ := by
  obtain ⟨t₀, t, hstart, hlast, rfl⟩ := hallows.2
  obtain ⟨r, hreceived, hr⟩ := h.start t₀ hstart
  have hpast := h.last t hlast
  refine ⟨r, hreceived, ?_⟩
  show t - t₀ ≤ clock - r
  omega

/-! ## §3. In every run. -/

/-- `request_duration_ms_total` and `request_duration_ms_max` consist of the samples. -/
structure Tallied (m₀ : Metrics) (samples : List Sample) (m : Metrics) : Prop where
  total : m.requestDurationMsTotal = m₀.requestDurationMsTotal + (samples.map Sample.duration).sum
  max : m.requestDurationMsMax
    = (samples.map Sample.duration).foldl Max.max m₀.requestDurationMsMax

/-- The samples are not in any other counter. -/
theorem Tallied.outer {m₀ m m' : Metrics} {samples : List Sample} (h : Tallied m₀ samples m)
    (houter : outerMetrics m' = outerMetrics m) : Tallied m₀ samples m' := by
  refine ⟨?_, ?_⟩
  · rw [← h.total]
    show (outerMetrics m').requestDurationMsTotal = (outerMetrics m).requestDurationMsTotal
    rw [houter]
  · rw [← h.max]
    show (outerMetrics m').requestDurationMsMax = (outerMetrics m).requestDurationMsMax
    rw [houter]

section
variable {ι : Type} [DecidableEq ι]

/-- A sample goes into the total and the maximum. -/
theorem tallied_call {env : Env} {m₀ : Metrics} {h : Timing ι} {w : World} (a : Atomic) (i : ι)
    (ht : Tallied m₀ h.samples w.metrics) :
    Tallied m₀ (h.noteCall w.clock i a).samples (a.exec env w).2.metrics := by
  cases a with
  | observe d =>
      refine ⟨?_, ?_⟩
      · show w.metrics.requestDurationMsTotal + d
          = _ + ((h.samples ++ [_]).map Sample.duration).sum
        rw [ht.total]
        simp
        omega
      · show Max.max w.metrics.requestDurationMsMax d
          = ((h.samples ++ [_]).map Sample.duration).foldl Max.max _
        rw [ht.max]
        simp
  | count t => cases t <;> exact ⟨ht.total, ht.max⟩
  | _ => exact ⟨ht.total, ht.max⟩

/-- What holds of connections, clock and notes at every moment. -/
structure Timed (svc : Service) (m₀ : Metrics) (s : Pool ι World Worker) (h : Timing ι) : Prop where
  follows : ∀ i, Interp.Follows (trails svc) Closing (Clocked s.world.clock (h.received i))
    (s.proc i).task
  own : ∀ x ∈ h.samples, x.Own
  tallied : Tallied m₀ h.samples s.world.metrics

theorem noteCall_received_self (clock : Int) (i : ι) (h : Timing ι) (a : Atomic) :
    (h.noteCall clock i a).received i = receipt clock (h.received i) a := by
  cases a with
  | received conn req => exact Function.update_self i _ _
  | _ => rfl

theorem noteCall_received_other (clock : Int) {i j : ι} (hne : j ≠ i) (h : Timing ι) (a : Atomic) :
    (h.noteCall clock i a).received j = h.received j := by
  cases a with
  | received conn req => exact Function.update_of_ne hne _ _
  | _ => rfl

/-- A call is noted. -/
theorem note_calling {s : Pool ι World Worker} {i : ι} {a : Atomic}
    (hcall : calling (s.proc i) = some a) (out : Outcome) (h : Timing ι) :
    Timing.note s (.proc i out) h = h.noteCall s.world.clock i a := by
  show (calling (s.proc i)).elim h _ = _
  rw [hcall]
  rfl

theorem note_silent {s : Pool ι World Worker} {i : ι} (hcall : calling (s.proc i) = none)
    (out : Outcome) (h : Timing ι) : Timing.note s (.proc i out) h = h := by
  show (calling (s.proc i)).elim h _ = _
  rw [hcall]
  rfl

theorem note_other {s : Pool ι World Worker} {i j : ι} (hne : j ≠ i) (out : Outcome)
    (h : Timing ι) : (Timing.note s (.proc i out) h).received j = h.received j := by
  cases hcall : calling (s.proc i) with
  | none => rw [note_silent hcall]
  | some a => rw [note_calling hcall, noteCall_received_other _ hne]

/-- The connection that moves, with what is noted of its move. -/
theorem follows_timed {svc : Service} {s : Pool ι World Worker} {h : Timing ι} {i : ι}
    {out : Outcome}
    (hi : Interp.Follows (trails svc) Closing (Clocked s.world.clock (h.received i))
      (s.proc i).task)
    (hok : AtCalls Timely s (.proc i out)) :
    Interp.Follows (trails svc) Closing
      (Clocked s.world.clock ((Timing.note s (.proc i out) h).received i))
      ((server svc.env).step out (s.proc i) s.world).1.task := by
  refine follows_step hi ?_ ?_ ?_
  · intro htask _ l hl
    rw [note_silent (calling_ret htask)]
    exact hl
  · intro call inp k x htask _ l _ hl
    rw [note_silent (calling_order htask)]
    exact ⟨hl, fun reply _ => ⟨hl.last, hl.start, hl.current⟩⟩
  · intro a k htask _ l hallows hl
    have hcall : calling (s.proc i) = some a := calling_eq_some.mpr ⟨k, htask⟩
    rw [note_calling hcall, noteCall_received_self]
    exact clocked_call hallows (hok a hcall) hl

/-- Time goes on, and what is past stays past. -/
theorem timed_env {svc : Service} {m₀ : Metrics} {s : Pool ι World Worker} {h : Timing ι}
    (x : EnvEvent) (ht : Timed svc m₀ s h) :
    Timed svc m₀ ((server svc.env).fire s (.env x)) h := by
  have hle : s.world.clock ≤ (x.apply s.world).clock := by
    cases x with
    | tick ms =>
        show s.world.clock ≤ s.world.clock + ms
        omega
    | _ => exact Int.le_refl _
  have hmetrics : (x.apply s.world).metrics = s.world.metrics := by cases x <;> rfl
  refine ⟨fun i => (ht.follows i).mono fun l hl => hl.later hle, ht.own, ?_⟩
  show Tallied m₀ h.samples (x.apply s.world).metrics
  rw [hmetrics]
  exact ht.tallied

/-- **A step takes its sample from its own request**, when it is timely. -/
theorem timed_proc {svc : Service} {m₀ : Metrics} {s : Pool ι World Worker} {h : Timing ι} {i : ι}
    {out : Outcome} (ht : Timed svc m₀ s h) (hok : AtCalls Timely s (.proc i out)) :
    Timed svc m₀ ((server svc.env).fire s (.proc i out)) (Timing.note s (.proc i out) h) := by
  have hclock : ((server svc.env).fire s (.proc i out)).world.clock = s.world.clock :=
    server_clock svc.env out (s.proc i) s.world
  refine ⟨?_, ?_, ?_⟩
  · intro j
    rw [hclock]
    by_cases hij : j = i
    · subst hij
      rw [Machine.fire_proc_self]
      exact follows_timed (ht.follows j) hok
    · rw [Machine.fire_proc_other _ _ hij, note_other hij]
      exact ht.follows j
  · cases hcall : calling (s.proc i) with
    | none =>
        rw [note_silent hcall]
        exact ht.own
    | some a =>
        rw [note_calling hcall]
        cases a with
        | observe d =>
            intro x hx
            obtain hold | hnew := List.mem_append.mp hx
            · exact ht.own x hold
            · -- the new sample is the one of the connection that moves
              rw [List.mem_singleton.mp hnew]
              obtain ⟨l, hallows, hl⟩ := follows_calling (ht.follows i) hcall
              exact own_of_clocked hallows hl
        | _ => exact ht.own
  · rw [Machine.fire_proc_world]
    cases hcall : calling (s.proc i) with
    | none =>
        rw [note_silent hcall]
        refine ht.tallied.outer ?_
        exact server_not_calling (g := fun w => outerMetrics w.metrics)
          (fun pc => step_outerMetrics svc.env out pc s.world) hcall
    | some a =>
        rw [note_calling hcall, server_calling hcall]
        exact tallied_call a i ht.tallied

/-- **Each latency sample belongs to its own request**, in every interleaving of
    any connections in which no request without a route comes later than the
    start time its connection has from before: no sample is longer than the time
    since the connection received that request, and the total and the maximum
    are those of the samples. -/
theorem samples_own_request (svc : Service) (w : World) (visits : ι → List Visit)
    (evs : List (Event ι Outcome EnvEvent))
    (hok : (server svc.env).RunOk (AtCalls Timely) (opened svc w visits) evs) :
    let m := ((server svc.env).run (opened svc w visits) evs).world.metrics
    let samples := (timing svc.env (opened svc w visits) evs).samples
    (∀ x ∈ samples, x.Own)
      ∧ m.requestDurationMsTotal
          = w.metrics.requestDurationMsTotal + (samples.map Sample.duration).sum
      ∧ m.requestDurationMsMax
          = (samples.map Sample.duration).foldl max w.metrics.requestDurationMsMax := by
  intro m samples
  have htimed : Timed svc w.metrics ((server svc.env).run (opened svc w visits) evs)
      (timing svc.env (opened svc w visits) evs) := by
    refine (server svc.env).watch_inv ?_ evs (opened svc w visits) ({} : Timing ι) ?_ hok
    · intro s e h ht hcalls
      cases e with
      | env x => exact timed_env x ht
      | proc i out => exact timed_proc ht hcalls
    · refine ⟨?_, ?_, ?_⟩
      · intro i
        refine (follows_opened svc w visits i).mono fun l hl => ?_
        rw [hl]
        refine ⟨?_, ?_, ?_⟩
        · intro t ht
          cases ht
        · intro t₀ ht₀
          cases ht₀
        · intro hcurrent
          cases hcurrent
      · intro x hx
        cases hx
      · exact ⟨(Int.add_zero _).symm, rfl⟩
  exact ⟨htimed.own, htimed.tallied.total, htimed.tallied.max⟩

end

/-- A list request during which 7 ms pass, and `/nowhere` on another connection in
    the moment in which that one's list request started. -/
def timelySchedule : List (Event (Fin 2) Outcome EnvEvent) :=
  schedule (turns (List.replicate 25 1)) ++ schedule (turns [0, 0, 0]) ++ [.env (.tick 7)]
    ++ schedule (turns (List.replicate 15 0))

/-- Connections for that schedule. -/
def timelyVisits (i : Fin 2) : List Visit :=
  if i.val = 0 then [⟨listRequest, {}⟩] else [⟨listRequest, {}⟩, ⟨unroutedRequest, {}⟩]

/-- Three samples, of two connections. -/
theorem samples_own_request_timely :
    (timing sampleEnv (opened sampleService { clock := 5 } timelyVisits)
        timelySchedule).samples.length = 3
      ∧ ∀ x ∈ (timing sampleEnv (opened sampleService { clock := 5 } timelyVisits)
          timelySchedule).samples, x.Own :=
  ⟨by decide +kernel,
    (samples_own_request sampleService { clock := 5 } timelyVisits timelySchedule
      (by decide +kernel)).1⟩

/-- A list request, then three seconds of silence, after which the connection is still
    open, then `/nowhere`. -/
def silentSchedule : List (Event (Fin 1) Outcome EnvEvent) :=
  schedule (turns (List.replicate 13 0)) ++ [.env (.tick 3000)]
    ++ schedule (turns (List.replicate 8 0))

/-- On one connection, the sample of `/nowhere` is the three seconds before the request
    was received. -/
theorem unrouted_sample :
    ¬ ∀ x ∈ (timing sampleEnv (opened sampleService { clock := 5 }
        fun _ : Fin 1 => [⟨listRequest, {}⟩, ⟨unroutedRequest, {}⟩]) silentSchedule).samples,
      x.Own := by
  intro h
  obtain ⟨t, hreceived, hle⟩ := h ⟨3000, some 3005, 3005⟩ (by decide +kernel)
  cases hreceived
  revert hle
  decide

end OrderApi.Server
