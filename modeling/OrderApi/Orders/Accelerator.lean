/-
  OrderApi.Orders.Accelerator
  ───────────────────────────
  **REDIS IS ONLY AN ACCELERATOR.**

  Two runs of the same requests, one at a time, over two Redis servers that have
  nothing in common: one may be missing altogether, hold anything, lose anything
  and fail when it likes.  No write path asks the cache, so call by call the two
  runs stay at the same program point over worlds that differ in Redis and its
  counters (`advance_same`).  Only `get_order` goes its own way, and it writes
  nothing but counters.

  Among these is `sqlite_errors`: a reading that misses the cache falls back to
  SQLite, where it can fail, and a reading that hits does not.
-/
import OrderApi.Orders.Solo

namespace OrderApi.Orders

open OrderApi.Lib
open OrderApi.Crow
open OrderApi.Model

/-! ## §1. Worlds that differ in Redis. -/

/-- The counters that do not depend on Redis; with `strict` also
    `sqlite_errors`. -/
def maskMetrics (strict : Bool) (m : Metrics) : Metrics :=
  { m with
    cacheHits := 0
    cacheMisses := 0
    redisErrors := 0
    sqliteErrors := if strict then m.sqliteErrors else 0 }

/-- Two worlds that differ at most in Redis: its contents, its availability and
    its counters. -/
structure SameButRedis (strict : Bool) (w w' : World) : Prop where
  table : w.table = w'.table
  changes : w.changes = w'.changes
  metrics : maskMetrics strict w.metrics = maskMetrics strict w'.metrics
  shuttingDown : w.shuttingDown = w'.shuttingDown
  dbReady : w.dbReady = w'.dbReady
  clock : w.clock = w'.clock

section
variable {strict : Bool} {w v u : World}

theorem SameButRedis.refl (w : World) : SameButRedis strict w w := ⟨rfl, rfl, rfl, rfl, rfl, rfl⟩

theorem SameButRedis.symm (h : SameButRedis strict w v) : SameButRedis strict v w :=
  ⟨h.table.symm, h.changes.symm, h.metrics.symm, h.shuttingDown.symm, h.dbReady.symm, h.clock.symm⟩

theorem SameButRedis.trans (h : SameButRedis strict w v) (h' : SameButRedis strict v u) :
    SameButRedis strict w u :=
  ⟨h.table.trans h'.table, h.changes.trans h'.changes, h.metrics.trans h'.metrics,
    h.shuttingDown.trans h'.shuttingDown, h.dbReady.trans h'.dbReady, h.clock.trans h'.clock⟩

theorem SameButRedis.created (h : SameButRedis strict w v) :
    w.metrics.ordersCreated = v.metrics.ordersCreated := by
  show (maskMetrics strict w.metrics).ordersCreated = (maskMetrics strict v.metrics).ordersCreated
  rw [h.metrics]

theorem SameButRedis.paid (h : SameButRedis strict w v) :
    w.metrics.ordersPaid = v.metrics.ordersPaid := by
  show (maskMetrics strict w.metrics).ordersPaid = (maskMetrics strict v.metrics).ordersPaid
  rw [h.metrics]

/-- A change of the cache alone. -/
theorem same_cache (w : World) (c : Cache) : SameButRedis strict w { w with cache := c } :=
  ⟨rfl, rfl, rfl, rfl, rfl, rfl⟩

/-- A write to Redis, however it ends. -/
theorem same_redisWrite (env : Env) (out : Outcome) {command : World → World} {w : World}
    (h : SameButRedis strict w (command w)) :
    SameButRedis strict w (redisWrite env out command w) := by
  have hsuccess : ∀ v, SameButRedis strict w v → SameButRedis strict w (recordRedisSuccess v) :=
    fun v hv => ⟨hv.table, hv.changes, hv.metrics, hv.shuttingDown, hv.dbReady, hv.clock⟩
  have hfailure : ∀ v, SameButRedis strict w v → SameButRedis strict w (recordRedisFailure v) :=
    fun v hv => ⟨hv.table, hv.changes, hv.metrics, hv.shuttingDown, hv.dbReady, hv.clock⟩
  unfold redisWrite
  split
  · cases out with
    | ok => exact hsuccess _ h
    | fail applied =>
        cases applied with
        | true => exact hfailure _ h
        | false => exact hfailure _ (.refl w)
  · exact hfailure _ (.refl w)

/-- A question to Redis. -/
theorem same_tryGetCachedOrder (env : Env) (out : Outcome) (o : String) (w : World) :
    SameButRedis strict w (tryGetCachedOrder env out o w).2 := by
  unfold tryGetCachedOrder
  split
  · cases out with
    | ok =>
        dsimp only
        split <;> exact ⟨rfl, rfl, rfl, rfl, rfl, rfl⟩
    | fail applied => exact ⟨rfl, rfl, rfl, rfl, rfl, rfl⟩
  · exact ⟨rfl, rfl, rfl, rfl, rfl, rfl⟩

/-- A failure of SQLite is counted in both worlds. -/
theorem same_recordSqliteFailure (h : SameButRedis strict w v) :
    SameButRedis strict (recordSqliteFailure w) (recordSqliteFailure v) := by
  refine ⟨h.table, h.changes, ?_, h.shuttingDown, h.dbReady, h.clock⟩
  have hm := congrArg (fun m : Metrics =>
    { m with sqliteErrors := if strict then inc32 m.sqliteErrors else 0 }) h.metrics
  cases strict <;> exact hm

end

/-- A write that fails leaves no row count in both. -/
theorem same_writeFailed (h : SameButRedis strict w v) :
    SameButRedis strict w.writeFailed v.writeFailed :=
  ⟨h.table, rfl, h.metrics, h.shuttingDown, h.dbReady, h.clock⟩

/-! ## §2. Call by call. -/

section
variable {env : Env} {strict : Bool} {w v : World}

/-- A request that does not read through the cache. -/
def notGet : Pc → Bool
  | .enter (.getOrder _) _ => false
  | .getCache _ => false
  | .getPrepare _ => false
  | .getStep _ => false
  | _ => true

variable (env) in
/-- **One call of each run**: from the same point over worlds that differ in
    Redis, to the same point over worlds that differ in Redis. -/
theorem step_same (b : Bool) {pc : Pc} (hpc : notGet pc = true) {out out' : Outcome}
    (hout : callsRedis pc = false → out = out') (h : SameButRedis strict w v) :
    (step env out pc w).1 = (step { env with redis := b } out' pc v).1
      ∧ SameButRedis strict (step env out pc w).2 (step { env with redis := b } out' pc v).2 := by
  have hprepare : ∀ next, out = out' →
      (prepare env out next w).1 = (prepare { env with redis := b } out' next v).1
        ∧ SameButRedis strict (prepare env out next w).2
          (prepare { env with redis := b } out' next v).2 := by
    rintro next rfl
    cases out with
    | ok => exact ⟨rfl, h⟩
    | fail applied => exact ⟨rfl, same_recordSqliteFailure h⟩
  -- the three calls to Redis: whatever they do, the handler goes on
  have hwrite : ∀ c c' : World → World,
      (∀ w, SameButRedis strict w (c w)) → (∀ w, SameButRedis strict w (c' w)) →
      SameButRedis strict (redisWrite env out c w)
        (redisWrite { env with redis := b } out' c' v) := by
    intro c c' hc hc'
    exact ((same_redisWrite env out (hc w)).symm.trans h).trans
      (same_redisWrite { env with redis := b } out' (hc' v))
  cases pc with
  | enter call inp =>
      cases call with
      | getOrder o => cases hpc
      | _ => exact ⟨rfl, h⟩
  | getCache o => cases hpc
  | getPrepare o => cases hpc
  | getStep o => cases hpc
  | insertPrepare o a c => exact hprepare _ (hout rfl)
  | payPrepare o n => exact hprepare _ (hout rfl)
  | updatePrepare o a c n => exact hprepare _ (hout rfl)
  | listPrepare q => exact hprepare _ (hout rfl)
  | deletePrepare o => exact hprepare _ (hout rfl)
  | insertStep o a c =>
      obtain rfl := hout rfl
      simp only [step, h.table]
      split
      · refine ⟨rfl, rfl, rfl, ?_, h.shuttingDown, h.dbReady, h.clock⟩
        exact congrArg (fun m : Metrics => { m with ordersCreated := inc32 m.ordersCreated })
          h.metrics
      · exact ⟨rfl, same_recordSqliteFailure (same_writeFailed h)⟩
  | payStep o n =>
      obtain rfl := hout rfl
      simp only [step, h.table]
      split
      · split <;> exact ⟨rfl, h⟩
      · exact ⟨rfl, h⟩
  | updateStep o a c n =>
      obtain rfl := hout rfl
      simp only [step, h.table]
      split
      · refine ⟨rfl, rfl, rfl, ?_, h.shuttingDown, h.dbReady, h.clock⟩
        exact congrArg (fun m : Metrics => { m with ordersPaid := inc32 m.ordersPaid }) h.metrics
      · exact ⟨rfl, same_recordSqliteFailure (same_writeFailed h)⟩
  | listStep q cursor arr =>
      obtain rfl := hout rfl
      simp only [step, h.table]
      split <;> exact ⟨rfl, h⟩
  | deleteStep o =>
      obtain rfl := hout rfl
      simp only [step, h.table]
      split
      · exact ⟨rfl, rfl, rfl, h.metrics, h.shuttingDown, h.dbReady, h.clock⟩
      · exact ⟨rfl, same_writeFailed h⟩
  | deleteChanges o =>
      simp only [step, h.changes]
      split <;> exact ⟨rfl, h⟩
  | createCache o a c =>
      exact ⟨rfl, hwrite _ _ (fun w => same_cache w _) (fun w => same_cache w _)⟩
  | payInvalidate o a c n =>
      exact ⟨rfl, hwrite _ _ (fun w => same_cache w _) (fun w => same_cache w _)⟩
  | deleteInvalidate o =>
      exact ⟨rfl, hwrite _ _ (fun w => same_cache w _) (fun w => same_cache w _)⟩
  | done reply => exact ⟨rfl, h⟩
  | lost => exact ⟨rfl, h⟩

/-- A request that does not read through the cache never starts to. -/
theorem notGet_step (out : Outcome) {pc : Pc} (h : notGet pc = true) :
    notGet (step env out pc w).1 = true := by
  have hprepare : ∀ next, notGet next = true → notGet (prepare env out next w).1 = true := by
    intro next hnext
    rcases prepare_fst env out next w with hp | hp
    · rw [hp]
      exact hnext
    · rw [hp]
      rfl
  cases pc with
  | enter call inp =>
      cases call with
      | getOrder o => cases h
      | _ => simp only [step, enter]; (try split) <;> first | rfl | (cases ‹Early› <;> rfl)
  | insertPrepare o a c => exact hprepare _ rfl
  | payPrepare o n => exact hprepare _ rfl
  | updatePrepare o a c n => exact hprepare _ rfl
  | listPrepare q => exact hprepare _ rfl
  | deletePrepare o => exact hprepare _ rfl
  | payStep o n =>
      simp only [step]
      split
      · split <;> rfl
      · rfl
  | createCache o a c => rfl
  | payInvalidate o a c n => rfl
  | deleteInvalidate o => rfl
  | done reply => rfl
  | lost => rfl
  | getCache o => cases h
  | getPrepare o => cases h
  | getStep o => cases h
  | _ => simp only [step]; split <;> rfl

/-- The two flights side by side. -/
structure SideBySide (strict : Bool) (x y : Flight) : Prop where
  pc : x.pc = y.pc
  notGet : notGet x.pc = true
  world : SameButRedis strict x.world y.world
  sqliteCalls : x.sqliteCalls = y.sqliteCalls

/-- **One step side by side**, whatever Redis does in either world. -/
theorem advance_same (b : Bool) {f f' : Fate} (hsql : f.sqlite = f'.sqlite) {x y : Flight}
    (h : SideBySide strict x y) :
    SideBySide strict (advance env f x) (advance { env with redis := b } f' y) := by
  have hout : callsRedis x.pc = false → f.next x = f'.next y := by
    intro hsqlite
    unfold Fate.next
    rw [← h.pc, hsqlite, hsql, h.sqliteCalls]
    rfl
  obtain ⟨hpc, hworld⟩ := step_same env b h.notGet hout h.world
  unfold advance
  rw [← h.pc]
  refine ⟨hpc, notGet_step _ h.notGet, hworld, ?_⟩
  dsimp only
  rw [h.sqliteCalls]

variable (env) in
/-- **A request that does not read through the cache** is answered the same,
    whatever Redis does. -/
theorem ends_same (b : Bool) {f f' : Fate} (hsql : f.sqlite = f'.sqlite) {job : Job}
    (hjob : notGet (.enter job.call job.inp) = true) (h : SameButRedis strict w v)
    {reply reply' : Reply} {w' v' : World} (he : Ends env f job w reply w')
    (he' : Ends { env with redis := b } f' job v reply' v') :
    reply = reply' ∧ SameButRedis strict w' v' := by
  have hside : ∀ n, SideBySide strict (flight env f job w n)
      (flight { env with redis := b } f' job v n) := by
    intro n
    induction n with
    | zero => exact ⟨rfl, hjob, h, rfl⟩
    | succ n ih =>
        rw [flight_succ, flight_succ]
        exact advance_same b hsql ih
  obtain ⟨n, hpc, rfl⟩ := he
  have hn := hside n
  have hend : Ends { env with redis := b } f' job v reply
      (flight { env with redis := b } f' job v n).world := ⟨n, hn.pc ▸ hpc, rfl⟩
  obtain ⟨rfl, rfl⟩ := hend.unique he'
  exact ⟨rfl, hn.world⟩

/-! ## §3. Readings. -/

/-- What a `get_order` leaves alone on its way. -/
def Reads (strict : Bool) (w : World) (x : Flight) : Prop :=
  SameButRedis strict w x.world ∧
    match x.pc with
    | .enter (.getOrder _) _ => x.sqliteCalls = 0
    | .getCache _ => x.sqliteCalls = 0
    | .getPrepare _ => x.sqliteCalls = 0
    | .getStep _ => True
    | .done _ => True
    | _ => False

/-- A reading changes nothing but the counters of Redis; and `sqlite_errors`, if
    its prepare fails. -/
theorem reads_advance {f : Fate} (hprepare : strict = true → f.sqlite 0 = .ok) {x : Flight}
    (h : Reads strict w x) : Reads strict w (advance env f x) := by
  obtain ⟨hworld, hpc⟩ := h
  unfold Reads advance
  cases hx : x.pc with
  | enter call inp =>
      rw [hx] at hpc
      cases call with
      | getOrder o => exact ⟨hworld, hpc⟩
      | _ => exact hpc.elim
  | getCache o =>
      rw [hx] at hpc
      have hsame := hworld.trans (same_tryGetCachedOrder env (f.next x) o x.world)
      simp only [step]
      split
      · next hhit =>
          rw [hhit] at hsame
          exact ⟨hsame, trivial⟩
      · next hmiss =>
          rw [hmiss] at hsame
          exact ⟨hsame, hpc⟩
  | getPrepare o =>
      rw [hx] at hpc
      have hnext : f.next x = f.sqlite 0 := by
        unfold Fate.next
        rw [hx, show x.sqliteCalls = 0 from hpc]
        rfl
      rw [hnext]
      simp only [step]
      cases hf : f.sqlite 0 with
      | ok => exact ⟨hworld, trivial⟩
      | fail applied =>
          -- counted in `sqlite_errors`, which only the strict mask shows
          cases strict with
          | true =>
              rw [hprepare rfl] at hf
              cases hf
          | false =>
              exact ⟨⟨hworld.table, hworld.changes, hworld.metrics, hworld.shuttingDown,
                hworld.dbReady, hworld.clock⟩, trivial⟩
  | getStep o =>
      simp only [step]
      split <;> exact ⟨hworld, trivial⟩
  | done reply => exact ⟨hworld, trivial⟩
  | _ =>
      rw [hx] at hpc
      exact hpc.elim

/-- A read writes nothing, whatever it is answered. -/
theorem ends_get {f : Fate} (hprepare : strict = true → f.sqlite 0 = .ok) {o : PathParam}
    {inp : Inputs} {reply : Reply} {w' : World} (h : Ends env f ⟨.getOrder o, inp⟩ w reply w') :
    SameButRedis strict w w' := by
  obtain ⟨n, -, rfl⟩ := h
  exact (flight_inv (I := Reads strict w) ⟨.refl w, rfl⟩ (fun x hx => reads_advance hprepare hx)
    n).1

end

/-! ## §4. One request after the other. -/

/-- What a Redis server does to a sequence of requests. -/
structure RedisBehaviour where
  /-- `redis != nullptr`. -/
  client : Bool
  /-- What becomes of its keys before the n-th request: expiry, eviction, other
      clients. -/
  keys : Nat → Cache → Cache
  /-- How the calls of the n-th request end. -/
  calls : Nat → Nat → Outcome

/-- A request of the sequence, with what it meets besides Redis: the clock of the
    service when it arrives and how its SQLite calls end. -/
structure Turn where
  job : Job
  sqlite : Nat → Outcome
  clock : Int

/-- The request is a `get_order`. -/
def Turn.isGet (t : Turn) : Bool := !notGet (.enter t.job.call t.job.inp)

/-- A `get_order` whose prepare fails, if it comes to it. -/
def Turn.failingRead (t : Turn) : Bool := t.isGet && t.sqlite 0 ≠ .ok

/-- The world as the n-th request finds it. -/
def RedisBehaviour.arrival (b : RedisBehaviour) (n : Nat) (t : Turn) (w : World) : World :=
  { w with cache := b.keys n w.cache, clock := t.clock }

/-- The answers of the requests with the worlds they leave, from the n-th on.  With
    a request that is not answered the trail ends. -/
def InTurn (env : Env) (b : RedisBehaviour) :
    Nat → List Turn → World → List (Reply × World) → Prop
  | _, [], _, [] => True
  | n, t :: _, w, [] => ∀ reply w',
      ¬ Ends { env with redis := b.client } ⟨t.sqlite, b.calls n⟩ t.job (b.arrival n t w) reply w'
  | n, t :: ts, w, (reply, w') :: trail =>
      Ends { env with redis := b.client } ⟨t.sqlite, b.calls n⟩ t.job (b.arrival n t w) reply w'
        ∧ InTurn env b (n + 1) ts w' trail
  | _, [], _, _ :: _ => False

/-- Two trails agree: they end with the same request, after every request the worlds
    differ in Redis at most, and only a `get_order` is answered differently.
    `sqlite_errors` is compared up to the first excused request. -/
def Agree (excused : Turn → Bool) :
    Bool → List Turn → List (Reply × World) → List (Reply × World) → Prop
  | _, _, [], [] => True
  | strict, t :: ts, (r, w) :: xs, (r', w') :: ys =>
      (t.isGet = false → r = r') ∧ SameButRedis (strict && !excused t) w w'
        ∧ Agree excused (strict && !excused t) ts xs ys
  | _, _, _, _ => False

section
variable {env : Env} {strict : Bool} {w v : World}

/-- Without the counters of SQLite's failures there is less to agree about. -/
theorem SameButRedis.weaken (h : SameButRedis strict w v) (b : Bool) :
    SameButRedis (strict && b) w v := by
  refine ⟨h.table, h.changes, ?_, h.shuttingDown, h.dbReady, h.clock⟩
  cases b with
  | true => rw [Bool.and_true]; exact h.metrics
  | false =>
      have hm := congrArg (fun m : Metrics => { m with sqliteErrors := 0 }) h.metrics
      cases strict <;> exact hm

/-- What happens between two requests is Redis's own. -/
theorem same_arrival (b b' : RedisBehaviour) (n : Nat) (t : Turn) (h : SameButRedis strict w v) :
    SameButRedis strict (b.arrival n t w) (b'.arrival n t v) :=
  ⟨h.table, h.changes, h.metrics, h.shuttingDown, h.dbReady, rfl⟩

/-- **One request in both runs.** -/
theorem turn_same {b b' : RedisBehaviour} {n : Nat} {t : Turn} (h : SameButRedis strict w v)
    {r r' : Reply} {w' v' : World}
    (he : Ends { env with redis := b.client } ⟨t.sqlite, b.calls n⟩ t.job (b.arrival n t w) r w')
    (he' : Ends { env with redis := b'.client } ⟨t.sqlite, b'.calls n⟩ t.job (b'.arrival n t v)
      r' v') :
    (t.isGet = false → r = r') ∧ SameButRedis (strict && !t.failingRead) w' v' := by
  have hstart := (same_arrival b b' n t h).weaken (!t.failingRead)
  cases hget : t.isGet with
  | false =>
      have hnot : notGet (.enter t.job.call t.job.inp) = true := by
        simpa [Turn.isGet] using hget
      obtain ⟨hr, hw⟩ := ends_same { env with redis := b.client } b'.client
        (by rfl) hnot hstart he he'
      exact ⟨fun _ => hr, hw⟩
  | true =>
      -- both read; neither changes anything but counters
      refine ⟨fun hfalse => Bool.noConfusion hfalse, ?_⟩
      have hok : (strict && !t.failingRead) = true → t.sqlite 0 = .ok := by
        intro hs
        simpa [Turn.failingRead, hget] using (Bool.and_eq_true_iff.mp hs).2
      obtain ⟨⟨call, inp⟩, sqlite, clock⟩ := t
      cases call with
      | getOrder o => exact ((ends_get hok he).symm.trans hstart).trans (ends_get hok he')
      | _ => cases hget

theorem inTurn_nil {b : RedisBehaviour} {n : Nat} {trail : List (Reply × World)}
    (h : InTurn env b n [] w trail) : trail = [] := by
  cases trail with
  | nil => rfl
  | cons x trail => exact h.elim

/-- What is answered with one Redis is answered with every other. -/
theorem answered_alike {client client' : Bool} {f f' : Fate} {job : Job} {reply : Reply}
    {w' : World} (h : Ends { env with redis := client } f job w reply w') :
    ∃ reply' v', Ends { env with redis := client' } f' job v reply' v' := by
  refine exists_ends _ _ _ _ fun hlost => ?_
  have hlost' : enter { env with redis := client } job.inp job.call = .lost := hlost
  exact not_ends_of_lost hlost' h

/-- **The requests one after the other**; the induction is on their list. -/
theorem inTurn_agree {b b' : RedisBehaviour} {turns : List Turn} {n : Nat}
    (h : SameButRedis strict w v) {trail trail' : List (Reply × World)}
    (ht : InTurn env b n turns w trail) (ht' : InTurn env b' n turns v trail') :
    Agree Turn.failingRead strict turns trail trail' := by
  induction turns generalizing strict w v n trail trail' with
  | nil =>
      obtain rfl := inTurn_nil ht
      obtain rfl := inTurn_nil ht'
      trivial
  | cons t ts ih =>
      cases trail with
      | nil =>
          cases trail' with
          | nil => trivial
          | cons x' rest' =>
              obtain ⟨r, w', he⟩ := answered_alike ht'.1
              exact absurd he (ht r w')
      | cons x rest =>
          cases trail' with
          | nil =>
              obtain ⟨r', v', he'⟩ := answered_alike ht.1
              exact absurd he' (ht' r' v')
          | cons x' rest' =>
              obtain ⟨hr, hw⟩ := turn_same h ht.1 ht'.1
              exact ⟨hr, hw, ih hw ht.2 ht'.2⟩

/-- Every sequence of requests has its trail. -/
theorem exists_inTurn (env : Env) (b : RedisBehaviour) (turns : List Turn) (n : Nat) (w : World) :
    ∃ trail, InTurn env b n turns w trail := by
  induction turns generalizing n w with
  | nil => exact ⟨[], trivial⟩
  | cons t ts ih =>
      by_cases hends : ∃ reply w', Ends { env with redis := b.client } ⟨t.sqlite, b.calls n⟩ t.job
          (b.arrival n t w) reply w'
      · obtain ⟨reply, w', he⟩ := hends
        obtain ⟨trail, htrail⟩ := ih (n + 1) w'
        exact ⟨(reply, w') :: trail, he, htrail⟩
      · exact ⟨[], fun reply w' he => hends ⟨reply, w', he⟩⟩

end

/-- **Redis is only an accelerator.**  Whatever two Redis servers hold, lose and
    refuse: after every request the tables and everything but Redis are the same,
    and so are all answers but those to `get_order`; a request that is lost is lost
    in both.  `sqlite_errors` is the same until a `get_order` comes whose prepare
    would fail. -/
theorem redis_only_accelerates (env : Env) (b b' : RedisBehaviour) (turns : List Turn)
    (w v : World) (h : SameButRedis true w v) :
    (∃ trail, InTurn env b 0 turns w trail) ∧ (∃ trail, InTurn env b' 0 turns v trail)
      ∧ ∀ trail trail', InTurn env b 0 turns w trail → InTurn env b' 0 turns v trail' →
        Agree Turn.failingRead true turns trail trail' :=
  ⟨exists_inTurn env b turns 0 w, exists_inTurn env b' turns 0 v,
    fun _ _ ht ht' => inTurn_agree h ht ht'⟩

/-- A server that keeps what it is given and never fails. -/
def steadyRedis : RedisBehaviour := ⟨true, fun _ c => c, fun _ _ => .ok⟩

/-- No server. -/
def noRedis : RedisBehaviour := ⟨false, fun _ c => c, fun _ _ => .ok⟩

/-- An order is created; then it is read while SQLite cannot prepare. -/
def createThenRead : List Turn :=
  [⟨sampleCreate, fun _ => .ok, 0⟩, ⟨sampleGet, fun _ => .fail false, 1000⟩]

/-- An order that is created and read, with Redis and without it. -/
theorem redis_only_accelerates_createThenRead :
    SameButRedis true ({} : World) { redisAvailable := true } ∧
      ∃ trail trail', InTurn sampleEnv steadyRedis 0 createThenRead {} trail
        ∧ InTurn sampleEnv noRedis 0 createThenRead { redisAvailable := true } trail'
        ∧ Agree Turn.failingRead true createThenRead trail trail' := by
  have hsame : SameButRedis true ({} : World) { redisAvailable := true } :=
    ⟨rfl, rfl, rfl, rfl, rfl, rfl⟩
  obtain ⟨⟨trail, ht⟩, ⟨trail', ht'⟩, hagree⟩ :=
    redis_only_accelerates sampleEnv steadyRedis noRedis createThenRead _ _ hsame
  exact ⟨hsame, trail, trail', ht, ht', hagree trail trail' ht ht'⟩

/-- `sqlite_errors` tells the two servers apart: with Redis the reading is a hit,
    without it the fallback fails and is counted. -/
theorem sqlite_errors_tell_redis :
    ¬ ∀ (env : Env) (b b' : RedisBehaviour) (turns : List Turn) (w v : World),
      SameButRedis true w v → ∀ trail trail', InTurn env b 0 turns w trail →
        InTurn env b' 0 turns v trail' → Agree (fun _ => false) true turns trail trail' := by
  intro hall
  let w₁ := (flight sampleEnv .allOk sampleCreate {} 4).world
  let w₂ := (flight { sampleEnv with redis := false } .allOk sampleCreate {} 4).world
  let f : Fate := ⟨fun _ => .fail false, fun _ => .ok⟩
  let w₁' := (flight sampleEnv f sampleGet { w₁ with clock := 1000 } 2).world
  let w₂' :=
    (flight { sampleEnv with redis := false } f sampleGet { w₂ with clock := 1000 } 3).world
  have h := hall sampleEnv steadyRedis noRedis createThenRead {} {} (.refl _)
    [(_, w₁), (_, w₁')] [(_, w₂), (_, w₂')]
    ⟨⟨4, rfl, rfl⟩, ⟨2, rfl, rfl⟩, trivial⟩ ⟨⟨4, rfl, rfl⟩, ⟨3, rfl, rfl⟩, trivial⟩
  have hmetrics : maskMetrics true w₁'.metrics = maskMetrics true w₂'.metrics := h.2.2.2.1.metrics
  exact absurd (congrArg Metrics.sqliteErrors hmetrics) (by decide)

end OrderApi.Orders
