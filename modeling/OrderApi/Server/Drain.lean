/-
  OrderApi.Server.Drain
  ─────────────────────
  **THE DRAIN.**

  The worker threads beside the thread `signal_watcher` of `main` and the signal
  handler.  A bystander keeps a docket for each connection: what was done for
  its current request, and what `shutting_down` was when the request looked at
  it first.

    • `flag_stays`, `stops_in_order`  the flag and `app.stop()`;
    • `rejected_after_shutdown`     business requests checked after the flag was
                                    set;
    • `unready_after_shutdown`      `/readiness` after the flag was set;
    • `writers_gone`                the requests that may write only get fewer.

  `drain_safety` puts them together.
-/
import OrderApi.Server.Endings
import OrderApi.Server.Gate
import OrderApi.Server.InFlight

namespace OrderApi.Server

open OrderApi.Lib
open OrderApi.Crow
open OrderApi.Model

/-! ## §1. The signal watcher. -/

/-- Where `signal_watcher` stands. -/
inductive Watcher where
  /-- At `while (!stop_watcher.load(...))`. -/
  | loop
  /-- At `if (shutdown_signal_received.load(...))`. -/
  | poll
  /-- At `sleep_for(100ms)`. -/
  | pause
  /-- At `if (!shutting_down.exchange(true, ...))`. -/
  | exchange
  /-- At `sleep_for(shutdown_drain_ms)`. -/
  | drain
  /-- At `app.stop()`. -/
  | stop
  | done
  deriving DecidableEq

/-- What the threads of the process share. -/
structure Shared where
  world : World
  /-- `shutdown_signal_received`. -/
  signalReceived : Bool := false
  /-- `stop_watcher`. -/
  stopWatcher : Bool := false
  watcher : Watcher := .loop
  /-- Calls of `app.stop()`. -/
  stops : Nat := 0

/-- One step of `signal_watcher`.  A sleep may last any time. -/
def Shared.watch (s : Shared) : Shared :=
  match s.watcher with
  | .loop => { s with watcher := if s.stopWatcher then .done else .poll }
  | .poll => { s with watcher := if s.signalReceived then .exchange else .pause }
  | .pause => { s with watcher := .loop }
  | .exchange =>
      { s with
        world := { s.world with shuttingDown := true }
        watcher := if s.world.shuttingDown then .done else .drain }
  | .drain => { s with watcher := .stop }
  | .stop => { s with stops := s.stops + 1, watcher := .done }
  | .done => s

/-- What moves besides the workers: Redis drops a key, time passes, a signal is
    handled, `app.run()` returns, the watcher makes a step. -/
inductive Aside where
  | drop (key : String)
  | tick (ms : Nat)
  | signal
  | runReturns
  | watch

/-- One such move. -/
def Aside.apply : Aside → Shared → Shared
  | .drop key, s => { s with world := EnvEvent.apply (.drop key) s.world }
  | .tick ms, s => { s with world := EnvEvent.apply (.tick ms) s.world }
  | .signal, s => { s with signalReceived := true }
  | .runReturns, s => { s with stopWatcher := true }
  | .watch, s => s.watch

/-- The process: worker threads, signal watcher, signal handler. -/
def process (env : Env) : Machine Shared Worker Outcome Aside where
  step out p s :=
    (((server env).step out p s.world).1, { s with world := ((server env).step out p s.world).2 })
  env := Aside.apply

/-- The process when `app.run()` is called. -/
def started {ι : Type} (svc : Service) (w : World) (visits : ι → List Visit) :
    Pool ι Shared Worker :=
  { world := { world := w }, proc := (opened svc w visits).proc }

/-! ## §2. The dockets. -/

/-- What was done for the current request of a connection. -/
structure Docket where
  req : Option Request := none
  /-- `shutting_down` when the request loaded it first; a business request does so
      at the start of `LifecycleMiddleware::before_handle`. -/
  checkedDown : Option Bool := none
  /-- `shutting_down` when the request first loaded it or `db_ready`; the handler
      of `/readiness` starts with that. -/
  startedDown : Option Bool := none
  /-- Additions to `shutdown_rejections`. -/
  rejections : Nat := 0
  /-- Operations on `in_flight_requests`. -/
  touches : Nat := 0
  /-- Steps inside order handlers. -/
  orders : Nat := 0
  /-- Steps of the connection since the request came. -/
  moves : Nat := 0

/-- The fields other than the number of steps. -/
def Docket.mark (down : Bool) : Op → Docket → Docket
  | .atomic (.finished _), d => { d with req := none }
  | .atomic .loadShuttingDown, d =>
      { d with
        checkedDown := some (d.checkedDown.getD down)
        startedDown := some (d.startedDown.getD down) }
  | .atomic .loadDbReady, d => { d with startedDown := some (d.startedDown.getD down) }
  | .atomic .inFlightAdd, d => { d with touches := d.touches + 1 }
  | .atomic .inFlightSub, d => { d with touches := d.touches + 1 }
  | .atomic (.count .shutdownRejections), d => { d with rejections := d.rejections + 1 }
  | .order _ _, d => { d with orders := d.orders + 1 }
  | _, d => d

/-- What is entered for a step in an operation, with `shutting_down` as it is. -/
def Docket.enter (down : Bool) : Op → Docket → Docket
  | .atomic (.received _ req), _ => { req := some req }
  | o, d => { Docket.mark down o d with moves := d.moves + 1 }

/-- The operation a worker is in or about to call. -/
def inside (p : Worker) : Option Op :=
  match p.task with
  | .op o _ => some o
  | .ret _ => none

section
variable {ι : Type} [DecidableEq ι]

/-- What is entered for an event. -/
def enterEvent (s : Pool ι Shared Worker) : Event ι Outcome Aside → (ι → Docket) → ι → Docket
  | .proc i _, d =>
      (inside (s.proc i)).elim d fun o =>
        Function.update d i (Docket.enter s.world.world.shuttingDown o (d i))
  | .env _, d => d

/-- The dockets after a run. -/
def dockets (env : Env) (s : Pool ι Shared Worker) (evs : List (Event ι Outcome Aside)) :
    ι → Docket :=
  (process env).watch enterEvent s evs fun _ => {}

end

/-! ## §3. Docket and trail. -/

/-- The docket of a connection goes with its trail, while `shutting_down` is `down`. -/
structure Agrees (down : Bool) (d : Docket) (l : Trail) : Prop where
  req : d.req = l.current.map Prod.snd
  rejections : d.rejections = l.rejections
  touches : d.touches = l.touches
  moves : d.orders = 0 → d.moves = l.moves
  unchecked : d.checkedDown = none ↔ l.loads = []
  unstarted : d.startedDown = none ↔ l.loads = [] ∧ l.probed = false
  checked : d.checkedDown = some true → down = true ∧ false ∉ l.loads
  started : d.startedDown = some true → down = true ∧ false ∉ l.loads
  orders : 0 < d.orders → false ∈ l.loads

/-- The flag may be set in between. -/
theorem Agrees.later {down down' : Bool} {d : Docket} {l : Trail} (h : Agrees down d l)
    (hle : down = true → down' = true) : Agrees down' d l :=
  { h with
    checked := fun hd => ⟨hle (h.checked hd).1, (h.checked hd).2⟩
    started := fun hd => ⟨hle (h.started hd).1, (h.started hd).2⟩ }

/-- A request that looks for the first time, or has looked before with the flag
    set, has seen it set only. -/
theorem saw_set {down : Bool} {o : Option Bool} {loads : List Bool} (hnone : o = none → loads = [])
    (hsome : o = some true → down = true ∧ false ∉ loads) (h : some (o.getD down) = some true) :
    down = true ∧ false ∉ loads := by
  cases o with
  | none =>
      rw [hnone rfl]
      exact ⟨Option.some.inj h, List.not_mem_nil⟩
  | some b => exact hsome h

/-- A call is noted alike on both. -/
theorem agrees_call {svc : Service} {w : World} {a : Atomic} {d : Docket} {l : Trail}
    (h : Agrees w.shuttingDown d l) :
    Agrees w.shuttingDown (Docket.enter w.shuttingDown (.atomic a) d)
      (Trail.note (.atomic a) (a.exec svc.env w).1 l) := by
  have hmoves : d.orders = 0 → d.moves + 1 = l.moves + 1 := by
    intro h0
    rw [h.moves h0]
  cases a with
  | received conn req =>
      refine ⟨rfl, rfl, rfl, fun _ => rfl, ⟨fun _ => rfl, fun _ => rfl⟩,
        ⟨fun _ => ⟨rfl, rfl⟩, fun _ => rfl⟩, ?_, ?_, ?_⟩
      · intro hd
        cases hd
      · intro hd
        cases hd
      · intro hd
        exact absurd hd (Nat.lt_irrefl 0)
  | finished sent => exact { h with req := rfl, moves := hmoves }
  | loadShuttingDown =>
      -- the value loaded is the flag as it is
      have hsaw : w.shuttingDown = true ∧ false ∉ l.loads →
          w.shuttingDown = true ∧ false ∉ l.loads ++ [w.shuttingDown] := by
        rintro ⟨hdown, hloads⟩
        rw [hdown]
        exact ⟨rfl, by simp [hloads]⟩
      refine { h with
        moves := hmoves, unchecked := ?_, unstarted := ?_, checked := ?_, started := ?_,
        orders := ?_ }
      · simp [Docket.enter, Docket.mark, Trail.note, Trail.mark]
      · simp [Docket.enter, Docket.mark, Trail.note, Trail.mark]
      · intro hd
        exact hsaw (saw_set h.unchecked.mp h.checked hd)
      · intro hd
        exact hsaw (saw_set (fun ho => (h.unstarted.mp ho).1) h.started hd)
      · intro hd
        exact List.mem_append_left _ (h.orders hd)
  | loadDbReady =>
      refine { h with moves := hmoves, unstarted := ?_, started := ?_ }
      · simp [Docket.enter, Docket.mark, Trail.note, Trail.mark]
      · intro hd
        exact saw_set (fun ho => (h.unstarted.mp ho).1) h.started hd
  | inFlightAdd => exact { h with touches := congrArg (· + 1) h.touches, moves := hmoves }
  | inFlightSub => exact { h with touches := congrArg (· + 1) h.touches, moves := hmoves }
  | count t =>
      cases t with
      | shutdownRejections =>
          exact { h with rejections := congrArg (· + 1) h.rejections, moves := hmoves }
      | _ => exact { h with moves := hmoves }
  | _ => exact { h with moves := hmoves }

/-- Only a request that was checked before the flag was set gets into an order
    handler. -/
theorem checked_up {svc : Service} {down : Bool} {call : OrderCall} {inp : Inputs} {d : Docket}
    {l : Trail} (hallows : Trail.Allows svc (.order call inp) l) (h : Agrees down d l) :
    ∃ req, d.req = some req ∧ isProbePath req.url = false ∧ d.checkedDown = some false := by
  obtain ⟨c, req, hcurrent, hbusiness, hloads⟩ := hallows.2
  refine ⟨req, by rw [h.req, hcurrent]; rfl, hbusiness, ?_⟩
  cases hd : d.checkedDown with
  | none =>
      rw [h.unchecked.mp hd] at hloads
      cases hloads
  | some b =>
      cases b with
      | false => rfl
      | true =>
          refine absurd ?_ (h.checked hd).2
          rw [hloads]
          exact List.mem_singleton.mpr rfl

/-- A call of an order handler is noted alike on both. -/
theorem agrees_order {svc : Service} {down : Bool} {call : OrderCall} {inp : Inputs} {d : Docket}
    {l : Trail} (hallows : Trail.Allows svc (.order call inp) l) (h : Agrees down d l) :
    Agrees down (Docket.enter down (.order call inp) d) l ∧
      ∀ reply, Agrees down (Docket.enter down (.order call inp) d)
        (Trail.note (.order call inp) reply l) := by
  obtain ⟨c, req, -, -, hloads⟩ := hallows.2
  have hagrees : Agrees down (Docket.enter down (.order call inp) d) l :=
    { h with
      moves := fun h0 => absurd h0 (Nat.succ_ne_zero _)
      orders := fun _ => by rw [hloads]; exact List.mem_singleton.mpr rfl }
  exact ⟨hagrees, fun reply => { hagrees with moves := fun h0 => absurd h0 (Nat.succ_ne_zero _) }⟩

/-! ## §4. In every run. -/

/-- No worker touches the flag. -/
theorem server_shuttingDown (env : Env) (out : Outcome) (p : Worker) (w : World) :
    ((server env).step out p w).2.shuttingDown = w.shuttingDown :=
  server_frame (g := World.shuttingDown) (fun a => by cases a <;> rfl)
    (fun pc => step_frame env out (g := World.shuttingDown) (fun _ _ _ _ => rfl)
      (fun _ _ _ _ => rfl) pc w) p

/-- Nobody clears the flag. -/
theorem aside_shuttingDown (x : Aside) (s : Shared) (h : s.world.shuttingDown = true) :
    (x.apply s).world.shuttingDown = true := by
  cases x with
  | watch =>
      show s.watch.world.shuttingDown = true
      unfold Shared.watch
      split
      all_goals first | exact h | rfl
  | _ => exact h

section
variable {ι : Type} [DecidableEq ι]

/-- A step at a call notes the call. -/
theorem enterEvent_inside {s : Pool ι Shared Worker} {i : ι} {o : Op}
    {k : Op.Res o → Code Unit} (htask : (s.proc i).task = .op o k) (out : Outcome)
    (d : ι → Docket) :
    enterEvent s (.proc i out) d
      = Function.update d i (Docket.enter s.world.world.shuttingDown o (d i)) := by
  show (inside (s.proc i)).elim d _ = _
  unfold inside
  rw [htask]
  rfl

/-- A connection that is through notes nothing. -/
theorem enterEvent_idle {s : Pool ι Shared Worker} {i : ι} (htask : (s.proc i).task = .ret ())
    (out : Outcome) (d : ι → Docket) : enterEvent s (.proc i out) d = d := by
  show (inside (s.proc i)).elim d _ = _
  unfold inside
  rw [htask]
  rfl

/-- The others note nothing. -/
theorem enterEvent_other {s : Pool ι Shared Worker} {i j : ι} (hne : j ≠ i) (out : Outcome)
    (d : ι → Docket) : enterEvent s (.proc i out) d j = d j := by
  show (inside (s.proc i)).elim d _ j = _
  cases inside (s.proc i) with
  | none => rfl
  | some o => exact Function.update_of_ne hne _ _

/-- Every connection has its trail, and its docket goes with it. -/
def Docketed (svc : Service) (s : Pool ι Shared Worker) (d : ι → Docket) : Prop :=
  ∀ i, Interp.Follows (trails svc) Closing (Agrees s.world.world.shuttingDown (d i)) (s.proc i).task

variable {svc : Service}

/-- The connection that moves. -/
theorem docketed_self {s : Pool ι Shared Worker} {d : ι → Docket} (h : Docketed svc s d) (i : ι)
    (out : Outcome) :
    Interp.Follows (trails svc) Closing
      (Agrees s.world.world.shuttingDown (enterEvent s (.proc i out) d i))
      ((server svc.env).step out (s.proc i) s.world.world).1.task := by
  refine follows_step (h i) ?_ ?_ ?_
  · intro htask _ l hl
    rw [enterEvent_idle htask]
    exact hl
  · intro call inp k x htask _ l hallows hl
    rw [enterEvent_inside htask, Function.update_self]
    obtain ⟨hinside, hreturned⟩ := agrees_order hallows hl
    exact ⟨hinside, fun reply _ => hreturned reply⟩
  · intro a k htask _ l _ hl
    rw [enterEvent_inside htask, Function.update_self]
    exact agrees_call hl

/-- **One event keeps docket and trail together.** -/
theorem docketed_fire {s : Pool ι Shared Worker} {d : ι → Docket} (h : Docketed svc s d)
    (e : Event ι Outcome Aside) : Docketed svc ((process svc.env).fire s e) (enterEvent s e d) := by
  intro j
  cases e with
  | env x => exact (h j).mono fun l hl => hl.later (aside_shuttingDown x s.world)
  | proc i out =>
      have hflag : ((process svc.env).fire s (.proc i out)).world.world.shuttingDown
          = s.world.world.shuttingDown :=
        server_shuttingDown svc.env out (s.proc i) s.world.world
      rw [hflag]
      by_cases hij : j = i
      · subst hij
        rw [Machine.fire_proc_self]
        exact docketed_self h j out
      · rw [Machine.fire_proc_other _ _ hij, enterEvent_other hij]
        exact h j

/-- **They stay together in every run.** -/
theorem docketed_run (w : World) (visits : ι → List Visit) (evs : List (Event ι Outcome Aside)) :
    Docketed svc ((process svc.env).run (started svc w visits) evs)
      (dockets svc.env (started svc w visits) evs) := by
  refine (process svc.env).watch_inv_all (I := Docketed svc) (fun s e d h => docketed_fire h e) evs
    (started svc w visits) (fun _ => {}) ?_
  intro i
  refine (follows_opened svc w visits i).mono fun l hl => ?_
  rw [hl]
  refine ⟨rfl, rfl, rfl, fun _ => rfl, ⟨fun _ => rfl, fun _ => rfl⟩,
    ⟨fun _ => ⟨rfl, rfl⟩, fun _ => rfl⟩, ?_, ?_, ?_⟩
  · intro hd
    cases hd
  · intro hd
    cases hd
  · intro hd
    exact absurd hd (Nat.lt_irrefl 0)

/-! ## §5. The flag and `app.stop()`. -/

/-- Nobody takes the flag back. -/
theorem flag_stays (env : Env) {s : Pool ι Shared Worker} (h : s.world.world.shuttingDown = true)
    (evs : List (Event ι Outcome Aside)) :
    ((process env).run s evs).world.world.shuttingDown = true := by
  refine (process env).run_inv_all (I := fun s => s.world.world.shuttingDown = true) ?_ evs s h
  intro s e hs
  cases e with
  | env x => exact aside_shuttingDown x s.world hs
  | proc i out => exact (server_shuttingDown env out (s.proc i) s.world.world).trans hs

/-- `app.stop()` was called by a watcher that is through, and a watcher on its way
    to the call has set the flag. -/
structure StopsInOrder (s : Shared) : Prop where
  once : s.stops = 0 ∨ (s.stops = 1 ∧ s.watcher = .done)
  set : s.watcher = .drain ∨ s.watcher = .stop → s.world.shuttingDown = true

/-- The watcher sets the flag before it stops the application. -/
theorem stopsInOrder_watch {s : Shared} (h : StopsInOrder s) : StopsInOrder s.watch := by
  have hzero : s.watcher ≠ .done → s.stops = 0 := by
    intro hne
    exact h.once.resolve_right fun hdone => hne hdone.2
  -- everywhere but at `drain` and `stop` nothing is to show of the flag
  have hquiet : ∀ p : Watcher, p ≠ .drain → p ≠ .stop → s.watcher ≠ .done →
      StopsInOrder { s with watcher := p } := by
    intro p hdrain hstop hne
    refine ⟨.inl (hzero hne), ?_⟩
    rintro (hp | hp)
    · exact absurd hp hdrain
    · exact absurd hp hstop
  unfold Shared.watch
  split
  · rename_i hw
    have hne : s.watcher ≠ .done := by simp [hw]
    split <;> exact hquiet _ (by decide) (by decide) hne
  · rename_i hw
    have hne : s.watcher ≠ .done := by simp [hw]
    split <;> exact hquiet _ (by decide) (by decide) hne
  · rename_i hw
    exact hquiet _ (by decide) (by decide) (by simp [hw])
  · rename_i hw
    exact ⟨.inl (hzero (by simp [hw])), fun _ => rfl⟩
  · rename_i hw
    exact ⟨.inl (hzero (by simp [hw])), fun _ => h.set (.inl hw)⟩
  · rename_i hw
    refine ⟨.inr ⟨?_, rfl⟩, fun _ => h.set (.inr hw)⟩
    show s.stops + 1 = 1
    rw [hzero (by simp [hw])]
  · exact h

/-- No other step sets either. -/
theorem stopsInOrder_fire {env : Env} {s : Pool ι Shared Worker} (h : StopsInOrder s.world)
    (e : Event ι Outcome Aside) : StopsInOrder ((process env).fire s e).world := by
  cases e with
  | proc i out =>
      refine ⟨h.once, fun hw => ?_⟩
      exact (server_shuttingDown env out (s.proc i) s.world.world).trans (h.set hw)
  | env x =>
      cases x with
      | watch => exact stopsInOrder_watch h
      | _ => exact ⟨h.once, h.set⟩

/-- **The application is not stopped before the flag is set**, in any run. -/
theorem stops_in_order (svc : Service) (w : World) (visits : ι → List Visit)
    (evs : List (Event ι Outcome Aside)) :
    StopsInOrder ((process svc.env).run (started svc w visits) evs).world := by
  refine (process svc.env).run_inv_all (I := fun s => StopsInOrder s.world)
    (fun s e h => stopsInOrder_fire h e) evs (started svc w visits) ⟨.inl rfl, ?_⟩
  rintro (hw | hw) <;> cases hw

/-- A call of `app.stop()` comes after the flag was set. -/
theorem stop_after_flag {env : Env} {s : Pool ι Shared Worker} (h : StopsInOrder s.world)
    {e : Event ι Outcome Aside} (hstop : ((process env).fire s e).world.stops ≠ s.world.stops) :
    s.world.world.shuttingDown = true := by
  cases e with
  | proc i out => exact absurd rfl hstop
  | env x =>
      cases x with
      | watch =>
          have hwatch : s.world.watch.stops ≠ s.world.stops := hstop
          unfold Shared.watch at hwatch
          split at hwatch
          case h_6 hw => exact h.set (.inr hw)
          all_goals exact absurd rfl hwatch
      | _ => exact absurd rfl hstop

/-! ## §6. After the flag was set. -/

omit [DecidableEq ι]

/-- A request on a docket is under way. -/
theorem docket_open {s : Pool ι Shared Worker} {d : ι → Docket} (h : Docketed svc s d) {i : ι}
    {req : Request} (hreq : (d i).req = some req) : ∃ o k, (s.proc i).task = .op o k := by
  cases htask : (s.proc i).task with
  | op o k => exact ⟨o, k, rfl⟩
  | ret u =>
      obtain ⟨l, hclosing, hl⟩ := (h i).post htask
      have hnone : l.current = none := hclosing
      rw [hl.req, hnone] at hreq
      cases hreq

/-- A business request that was checked with the flag set, or a request for
    `/readiness` that looked at the state first with the flag set. -/
def Docket.Late (d : Docket) (req : Request) : Prop :=
  (isProbePath req.url = false ∧ d.checkedDown = some true)
    ∨ (req.url = "/readiness" ∧ d.startedDown = some true)

/-- Such a request has seen the flag set only, so it was in no order handler. -/
theorem Docket.Late.seen {down : Bool} {d : Docket} {req : Request} {l : Trail} (h : d.Late req)
    (hl : Agrees down d l) : false ∉ l.loads ∧ d.orders = 0 := by
  have hseen : false ∉ l.loads := by
    obtain ⟨-, hd⟩ | ⟨-, hd⟩ := h
    · exact (hl.checked hd).2
    · exact (hl.started hd).2
  refine ⟨hseen, ?_⟩
  by_contra hne
  exact hseen (hl.orders (Nat.pos_of_ne_zero hne))

/-- It is through after 20 steps of its connection. -/
theorem late_moves {s : Pool ι Shared Worker} {d : ι → Docket} (h : Docketed svc s d) {i : ι}
    {req : Request} (hreq : (d i).req = some req) (hlate : (d i).Late req) : (d i).moves < 20 := by
  obtain ⟨o, k, htask⟩ := docket_open h hreq
  obtain ⟨l, hallows, hl⟩ := (h i).pre htask
  obtain ⟨hseen, horders⟩ := hlate.seen hl
  rw [hl.req] at hreq
  obtain ⟨⟨c, req'⟩, hcurrent, rfl⟩ := Option.map_eq_some_iff.mp hreq
  rw [hl.moves horders]
  refine hallows.1 ⟨c, req', hcurrent, ?_⟩
  obtain ⟨hbusiness, hd⟩ | ⟨hurl, -⟩ := hlate
  · refine .inl ⟨hbusiness, ?_, hseen⟩
    intro hnil
    rw [hl.unchecked.mpr hnil] at hd
    cases hd
  · exact .inr hurl

/-- How the request on a docket ends. -/
theorem docket_ending {s : Pool ι Shared Worker} {d : ι → Docket} (h : Docketed svc s d) {i : ι}
    {req : Request} (hreq : (d i).req = some req) {sent : Option Response}
    (hcall : calling (s.proc i) = some (.finished sent)) :
    ∃ c l, Agrees s.world.world.shuttingDown (d i) l ∧ Ending svc c req l sent := by
  obtain ⟨l, hallows, hl⟩ := follows_calling (h i) hcall
  obtain ⟨c, req', hcurrent, -, hending⟩ := hallows.2
  rw [hl.req, hcurrent] at hreq
  have hsame : req' = req := Option.some.inj hreq
  rw [← hsame]
  exact ⟨c, l, hl, hending⟩

/-- A 503 goes out as one. -/
theorem sent_503 {c : ConnState} (h : c.res.code = 503) : (prepareBuffers c).code = 503 := by
  rw [prepareBuffers_code (by rw [h]; decide), h]

/-- **A business request checked after the flag was set**: 503, one rejection, and
    nothing else. -/
theorem rejected_after_shutdown {s : Pool ι Shared Worker} {d : ι → Docket} (h : Docketed svc s d)
    {i : ι} {req : Request} (hreq : (d i).req = some req) (hbusiness : isProbePath req.url = false)
    (hupgrade : takesUpgrade req = false) (hdown : (d i).checkedDown = some true)
    {sent : Option Response} (hcall : calling (s.proc i) = some (.finished sent)) :
    (∃ r, sent = some r ∧ r.code = 503) ∧ (d i).rejections = 1 ∧ (d i).touches = 0
      ∧ (d i).orders = 0 := by
  obtain ⟨c, l, hl, hending⟩ := docket_ending h hreq hcall
  have hlate : (d i).Late req := .inl ⟨hbusiness, hdown⟩
  obtain ⟨hseen, horders⟩ := hlate.seen hl
  have hloads : l.loads ≠ [] := by
    intro hnil
    rw [hl.unchecked.mpr hnil] at hdown
    cases hdown
  -- every other ending has not loaded the flag, or has seen it clear
  have hclear : l.loads = [false] → False := by
    intro hfalse
    rw [hfalse] at hseen
    exact hseen (List.mem_singleton.mpr rfl)
  cases hending with
  | upgraded upgrade quiet =>
      rw [upgrade] at hupgrade
      cases hupgrade
  | written c' answer =>
      generalize hres : c'.res = res at answer
      cases answer with
      | unrouted route loads probed => exact absurd loads hloads
      | invalid host loads probed => exact absurd loads hloads
      | overloaded url loads => exact (hclear loads).elim
      | unauthorized url loads => exact (hclear loads).elim
      | handled ep res found gate served => exact absurd (gate hbusiness) hseen
      | down url loads rejections touches =>
          refine ⟨⟨_, rfl, sent_503 ?_⟩, hl.rejections.trans rejections, hl.touches.trans touches,
            horders⟩
          rw [hres, rejection_code]

/-- **`/readiness` after the flag was set**: 503. -/
theorem unready_after_shutdown {s : Pool ι Shared Worker} {d : ι → Docket} (h : Docketed svc s d)
    {i : ι} {req : Request} (hreq : (d i).req = some req) (hurl : req.url = "/readiness")
    (hdown : (d i).startedDown = some true)
    {sent : Option Response} (hcall : calling (s.proc i) = some (.finished sent)) :
    ∃ r, sent = some r ∧ r.code = 503 := by
  obtain ⟨c, l, hl, hending⟩ := docket_ending h hreq hcall
  have hlate : (d i).Late req := .inr ⟨hurl, hdown⟩
  obtain ⟨hseen, -⟩ := hlate.seen hl
  have hprobe : isProbePath req.url = true := by
    rw [hurl]
    decide
  have hlooked : ¬ (l.loads = [] ∧ l.probed = false) := by
    intro hnone
    rw [hl.unstarted.mpr hnone] at hdown
    cases hdown
  have hbusiness : isProbePath req.url = false → False := by
    intro hfalse
    rw [hprobe] at hfalse
    cases hfalse
  cases hending with
  | upgraded upgrade quiet => exact absurd (quiet hprobe) hlooked
  | written c' answer =>
      refine ⟨_, rfl, sent_503 ?_⟩
      generalize hres : c'.res = res at answer
      cases answer with
      | unrouted route loads probed => exact absurd ⟨loads, probed⟩ hlooked
      | invalid host loads probed => exact absurd ⟨loads, probed⟩ hlooked
      | down url loads rejections touches => exact (hbusiness url).elim
      | overloaded url loads => exact (hbusiness url).elim
      | unauthorized url loads => exact (hbusiness url).elim
      | handled ep res' found gate served =>
          -- the handler answers 200 only after a load that returned false
          rw [readiness_endpoint hurl found] at served
          cases served with
          | readiness status ready db redis readyNow up =>
              have hnot : readyNow = false := by
                cases readyNow with
                | false => rfl
                | true => exact absurd (up rfl) hseen
              rw [fillError_code, hnot]
              exact Response.finish_code _
          | order ep isOrder reply ended => cases isOrder

/-! ## §7. The writers. -/

/-- A business request that was checked before the flag was set and has not
    finished. -/
def Docket.Early (d : Docket) : Prop :=
  ∃ req, d.req = some req ∧ isProbePath req.url = false ∧ d.checkedDown = some false

/-- With the flag set, no request gets early. -/
theorem not_early_enter {d : Docket} (h : ¬ d.Early) (o : Op) :
    ¬ (Docket.enter true o d).Early := by
  rintro ⟨req, hreq, hurl, hup⟩
  cases o with
  | order call inp => exact h ⟨req, hreq, hurl, hup⟩
  | atomic a =>
      cases a with
      | received conn req => cases hup
      | finished sent => cases hreq
      | loadShuttingDown =>
          have hfirst : d.checkedDown.getD true = false := Option.some.inj hup
          cases hd : d.checkedDown with
          | none =>
              rw [hd] at hfirst
              cases hfirst
          | some b =>
              rw [hd] at hfirst
              exact h ⟨req, hreq, hurl, hd.trans (congrArg some hfirst)⟩
      | count t => cases t <;> exact h ⟨req, hreq, hurl, hup⟩
      | _ => exact h ⟨req, hreq, hurl, hup⟩

/-- The flag is set, every early request has finished, and the table is `t`. -/
structure Quiescent (svc : Service) (t : Table) (s : Pool ι Shared Worker) (d : ι → Docket) :
    Prop where
  docketed : Docketed svc s d
  flag : s.world.world.shuttingDown = true
  finished : ∀ i, ¬ (d i).Early
  table : s.world.world.table = t

/-- From then on no step of a worker changes the order data. -/
theorem quiescent_orderData {t : Table} {s : Pool ι Shared Worker} {d : ι → Docket}
    (h : Quiescent svc t s d) (i : ι) (out : Outcome) :
    orderData ((server svc.env).step out (s.proc i) s.world.world).2
      = orderData s.world.world := by
  apply step_orderData
  intro call inp k htask
  obtain ⟨l, hallows, hl⟩ := (h.docketed i).pre htask
  exact h.finished i (checked_up hallows hl)

/-- **At rest, an event writes no row**: whoever comes now finds the flag. -/
theorem quiescent_fire [DecidableEq ι] {t : Table} {s : Pool ι Shared Worker} {d : ι → Docket}
    (h : Quiescent svc t s d) (e : Event ι Outcome Aside) :
    Quiescent svc t ((process svc.env).fire s e) (enterEvent s e d) := by
  have hflag : ((process svc.env).fire s e).world.world.shuttingDown = true :=
    flag_stays svc.env h.flag [e]
  refine ⟨docketed_fire h.docketed e, hflag, ?_, ?_⟩
  · intro j
    cases e with
    | env x => exact h.finished j
    | proc i out =>
        by_cases hij : j = i
        · subst hij
          cases htask : (s.proc j).task with
          | ret u =>
              rw [enterEvent_idle htask]
              exact h.finished j
          | op o k =>
              rw [enterEvent_inside htask, Function.update_self, h.flag]
              exact not_early_enter (h.finished j) o
        · rw [enterEvent_other hij]
          exact h.finished j
  · rw [← h.table]
    cases e with
    | proc i out => exact congrArg OrderData.table (quiescent_orderData h i out)
    | env x =>
        cases x with
        | watch =>
            show s.world.watch.world.table = s.world.world.table
            unfold Shared.watch
            split <;> rfl
        | _ => rfl

/-- **The writers only get fewer**: once the flag is set and every early request
    has finished, the table stays as it is, and no step of a worker changes the
    cache. -/
theorem writers_gone [DecidableEq ι] {s : Pool ι Shared Worker} {d : ι → Docket}
    (h : Docketed svc s d) (hflag : s.world.world.shuttingDown = true)
    (hfinished : ∀ i, ¬ (d i).Early) (evs : List (Event ι Outcome Aside)) :
    ((process svc.env).run s evs).world.world.table = s.world.world.table
      ∧ ∀ i out,
        ((process svc.env).fire ((process svc.env).run s evs) (.proc i out)).world.world.cache
          = ((process svc.env).run s evs).world.world.cache := by
  have hrun := (process svc.env).watch_inv_all (I := Quiescent svc s.world.world.table)
    (fun s e d hq => quiescent_fire hq e) evs s d ⟨h, hflag, hfinished, rfl⟩
  refine ⟨hrun.table, ?_⟩
  intro i out
  exact congrArg OrderData.cache (quiescent_orderData hrun i out)

end

/-- **Drain safety**, in every interleaving of the signal watcher, the signal
    handler and any connections with any requests, from the state `s` that any
    run leads to:

      • the flag stays set, `app.stop()` is called at most once, and only with
        the flag set;
      • a business request that goes into the chain with the flag set (and does
        not ask for an upgrade) always has a next step, ends within 20 of them,
        and ends with a 503, after one addition to `shutdown_rejections` and no
        operation on `in_flight_requests` and in no order handler;
      • a request for `/readiness` whose handler starts with the flag set ends
        within as many steps, and with a 503;
      • once the business requests checked before the flag was set have
        finished, the table stays as it is and no worker changes the cache. -/
theorem drain_safety {ι : Type} [DecidableEq ι] (svc : Service) (w : World)
    (visits : ι → List Visit) (evs : List (Event ι Outcome Aside)) :
    let s := (process svc.env).run (started svc w visits) evs
    let d := dockets svc.env (started svc w visits) evs
    (s.world.world.shuttingDown = true →
        ∀ evs', ((process svc.env).run s evs').world.world.shuttingDown = true)
      ∧ s.world.stops ≤ 1
      ∧ (∀ e, ((process svc.env).fire s e).world.stops ≠ s.world.stops →
          s.world.world.shuttingDown = true)
      ∧ (∀ i req, (d i).req = some req → isProbePath req.url = false → takesUpgrade req = false →
          (d i).checkedDown = some true →
            (∃ o k, (s.proc i).task = .op o k) ∧ (d i).moves < 20 ∧
            ∀ sent, calling (s.proc i) = some (.finished sent) →
              (∃ r, sent = some r ∧ r.code = 503) ∧ (d i).rejections = 1 ∧ (d i).touches = 0 ∧
                (d i).orders = 0)
      ∧ (∀ i req, (d i).req = some req → req.url = "/readiness" → (d i).startedDown = some true →
            (∃ o k, (s.proc i).task = .op o k) ∧ (d i).moves < 20 ∧
            ∀ sent, calling (s.proc i) = some (.finished sent) →
              ∃ r, sent = some r ∧ r.code = 503)
      ∧ (s.world.world.shuttingDown = true → (∀ i, ¬ (d i).Early) → ∀ evs',
          ((process svc.env).run s evs').world.world.table = s.world.world.table
            ∧ ∀ i out,
              ((process svc.env).fire ((process svc.env).run s evs') (.proc i out)).world.world.cache
                = ((process svc.env).run s evs').world.world.cache) := by
  intro s d
  have hd : Docketed svc s d := docketed_run w visits evs
  have hstops : StopsInOrder s.world := stops_in_order svc w visits evs
  refine ⟨fun hflag evs' => flag_stays svc.env hflag evs', ?_, ?_, ?_, ?_, ?_⟩
  · obtain hzero | ⟨hone, -⟩ := hstops.once
    · omega
    · omega
  · intro e hstop
    exact stop_after_flag hstops hstop
  · intro i req hreq hbusiness hupgrade hdown
    refine ⟨docket_open hd hreq, late_moves hd hreq (.inl ⟨hbusiness, hdown⟩), ?_⟩
    intro sent hcall
    exact rejected_after_shutdown hd hreq hbusiness hupgrade hdown hcall
  · intro i req hreq hurl hdown
    refine ⟨docket_open hd hreq, late_moves hd hreq (.inr ⟨hurl, hdown⟩), ?_⟩
    intro sent hcall
    exact unready_after_shutdown hd hreq hurl hdown hcall
  · intro hflag hfinished evs'
    exact writers_gone hd hflag hfinished evs'

/-- A list request is checked, the signal comes and the watcher sets the flag,
    another list request comes, and both go on in turn. -/
def drainSchedule : List (Event (Fin 2) Outcome Aside) :=
  (turns [0, 0, 0]).map (.proc · .ok) ++ [.env .signal, .env .watch, .env .watch, .env .watch]
    ++ (turns [1, 0, 1, 0, 1, 0, 1, 1, 1, 1]).map (.proc · .ok)

example :
    let s := (process sampleEnv).run (started sampleService {} fun _ => [⟨listRequest, {}⟩])
      drainSchedule
    let d := dockets sampleEnv (started sampleService {} fun _ => [⟨listRequest, {}⟩]) drainSchedule
    s.world.watcher = .drain ∧ (d 0).checkedDown = some false ∧ (d 1).checkedDown = some true
      ∧ (d 1).rejections = 1 := by
  decide +kernel

end OrderApi.Server
