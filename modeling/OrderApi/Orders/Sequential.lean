/-
  OrderApi.Orders.Sequential
  ──────────────────────────
  **REQUESTS ONE AT A TIME.**

  In a run in which a request moves only while no other is in progress
  (`Alone`), the cache is never disturbed, so at the moment `get_order` asks
  Redis every entry describes a PENDING row.  Hence the answer is about the row
  as the table has it, whichever of the two it comes from.
-/
import OrderApi.Orders.CacheCoherence

namespace OrderApi.Orders

open OrderApi.Lib
open OrderApi.Crow
open OrderApi.Model

/-! ## §1. What a read should answer. -/

/-- The answer is about the row `o` of the table: 404 exactly when there is none,
    otherwise 200 with a JSON object that shows the row. -/
structure ReadsRow (env : Env) (t : Table) (o : String) (reply : Reply) : Prop where
  absent : (Pc.done reply).answer = some 404 ↔ t.find o = none
  present : ∀ r, t.find o = some r → (Pc.done reply).answer = some 200 ∧
    ∃ res v, reply = .returned res ∧ res.body = env.dump v ∧
      v.member "order_no" = some (.str o) ∧ v.member "amount" = some (.double r.amount) ∧
      v.member "status" = some (.str r.status) ∧
      v.member "created_at" = some (.str (formatTime env r.createdAt))

section
variable {env : Env} {t : Table} {o : String} {r : Row}

theorem readsRow_notFound (message : String) (h : t.find o = none) :
    ReadsRow env t o (errorReply env 404 message) :=
  ⟨by simp [h], fun r hr => by rw [h] at hr; cases hr⟩

/-- The answer built from the row itself. -/
theorem readsRow_row (h : t.find o = some r) :
    ReadsRow env t o (jsonReply env (rowJson env o r)) := by
  constructor
  · rw [h]
    simp
  · intro r' hr'
    obtain rfl : r = r' := Option.some.inj (h.symm.trans hr')
    exact ⟨rfl, _, _, rfl, rfl, rfl, rfl, rfl, rfl⟩

/-- The answer taken from an entry that describes the row. -/
theorem readsRow_cached {payload : String} (h : Describes env t o payload) :
    ReadsRow env t o (.returned (Response.ofBody payload)) := by
  obtain ⟨a, c, ⟨r, hr, hst, rfl, rfl⟩, rfl⟩ := h
  have hr : t.find o = some r := hr
  constructor
  · rw [hr]
    simp [Pc.answer, Response.ofBody]
  · intro r' hr'
    obtain rfl : r = r' := Option.some.inj (hr.symm.trans hr')
    exact ⟨rfl, _, createdJson env o r.amount r.createdAt, rfl, rfl, rfl, rfl,
      by rw [hst]; rfl, rfl⟩

end

/-! ## §2. Running alone. -/

section
variable {ι : Type*}

/-- The request that moves is the only one in progress. -/
def Alone (s : Pool ι World Pc) : Event ι Outcome EnvEvent → Prop
  | .proc i _ => ∀ j, j ≠ i → (s.proc j).inProgress = false
  | .env _ => True

/-- A request that moves alone disturbs nobody. -/
theorem Alone.cacheUndisturbed {s : Pool ι World Pc} {e : Event ι Outcome EnvEvent}
    (h : Alone s e) : CacheUndisturbed s e := by
  cases e with
  | env x => trivial
  | proc i out =>
      constructor
      · intro o hinv j x hx
        have hj := caching_eq_some hx
        -- the request in front of its SET is not the one that invalidates
        have hji : j ≠ i := by
          rintro rfl
          rw [hj] at hinv
          cases hinv
        have hidle := h j hji
        rw [hj] at hidle
        cases hidle
      · intro htouch _ j
        rw [Bool.eq_false_iff, ne_eq, awaitsCount_iff]
        rintro ⟨o, hj⟩
        -- nor is the one in front of `sqlite3_changes` the one that writes
        have hji : j ≠ i := by
          rintro rfl
          rw [hj] at htouch
          cases htouch
        have hidle := h j hji
        rw [hj] at hidle
        cases hidle

/-- No invalidation is on its way while a `get_order` runs alone. -/
theorem Alone.not_pendingDel {s : Pool ι World Pc} {i : ι} {out : Outcome} {o o' : String}
    (h : Alone s (.proc i out)) (hpc : s.proc i = .getCache o') : ¬ PendingDel o s := by
  rintro ⟨j, hj⟩
  have hji : j ≠ i := by
    rintro rfl
    rw [hpc] at hj
    simp [Pc.invalidates] at hj
  have hidle := h j hji
  rcases hj with hj | ⟨hj, -⟩
  · rw [inProgress_of_invalidates hj] at hidle
    cases hidle
  · rw [hj] at hidle
    cases hidle

end

/-! ## §3. `get_order`. -/

/-- The points of `get_order(o)`. -/
def GetProgress (o : PathParam) : Pc → Prop
  | .enter call _ => call = .getOrder o
  | .getCache o' => o' = o.val
  | .getPrepare o' => o' = o.val
  | .getStep o' => o' = o.val
  | .done _ => True
  | _ => False

/-- A step of `get_order` goes on to its answer. -/
theorem GetProgress.step (env : Env) (out : Outcome) {o : PathParam} {pc : Pc} {w : World}
    (h : GetProgress o pc) : GetProgress o (step env out pc w).1 := by
  cases pc with
  | enter call inp => cases h; rfl
  | getCache o' => simp only [Model.step]; split <;> trivial
  | getPrepare o' => cases out <;> trivial
  | getStep o' => simp only [Model.step]; split <;> trivial
  | done reply => trivial
  | _ => exact h.elim

/-- A hit returns what `GET` found. -/
theorem tryGetCachedOrder_hit {env : Env} {o payload : String} {w w' : World}
    (h : tryGetCachedOrder env .ok o w = (some payload, w')) :
    env.redis = true ∧ w.cache.get w.clock (cacheKey o) = some payload := by
  unfold tryGetCachedOrder at h
  split at h
  · next hredis =>
      refine ⟨hredis, ?_⟩
      dsimp only at h
      split at h
      · next p hp => rw [hp, (Prod.mk.inj h).1]
      · cases (Prod.mk.inj h).1
  · cases (Prod.mk.inj h).1

/-- **The answering call of `get_order`**: if the entries for `o` fit the table,
    the answer is about the row. -/
theorem getOrder_answer {env : Env} {o : PathParam} {pc : Pc} {w : World} {reply : Reply}
    (hpc : GetProgress o pc) (hopen : ∀ reply', pc ≠ .done reply')
    (hfit : pc = .getCache o.val → env.redis = true → ∀ payload,
      w.cache.get w.clock (cacheKey o.val) = some payload → Describes env w.table o.val payload)
    (h : (step env .ok pc w).1 = .done reply) :
    ReadsRow env (step env .ok pc w).2.table o.val reply := by
  cases pc with
  | enter call inp => cases hpc; cases h
  | getCache o' =>
      cases hpc
      simp only [step] at h ⊢
      split at h
      · next payload w' hhit =>
          -- a hit is answered with the payload as it is
          obtain ⟨hredis, hget⟩ := tryGetCachedOrder_hit hhit
          have htable := tryGetCachedOrder_table env .ok o.val w
          rw [hhit] at htable
          cases h
          rw [show w'.table = w.table from htable]
          exact readsRow_cached (hfit rfl hredis payload hget)
      · cases h
  | getPrepare o' => cases h
  | getStep o' =>
      cases hpc
      -- the key bound to the SELECT is the path parameter itself
      have ho : cStr o.val = o.val := cStr_eq_self o.noNul
      simp only [step, ho] at h ⊢
      cases hr : w.table.find o.val with
      | none =>
          rw [hr] at h
          cases h
          exact readsRow_notFound _ hr
      | some r =>
          rw [hr] at h
          cases h
          exact readsRow_row hr
  | done reply' => exact absurd rfl (hopen reply')
  | _ => exact hpc.elim

/-- Four calls take `get_order` from any of its points to its answer. -/
theorem getOrder_finishes (env : Env) {o : PathParam} {ι : Type*} [DecidableEq ι] {i : ι}
    {s : Pool ι World Pc} (h : GetProgress o (s.proc i)) :
    ∃ reply, ((handlers env).run s (schedule [i, i, i, i])).proc i = .done reply := by
  -- how many calls are still to come
  let left : Pc → Nat := fun
    | .enter _ _ => 4
    | .getCache _ => 3
    | .getPrepare _ => 2
    | .getStep _ => 1
    | _ => 0
  have hstep : ∀ pc w, GetProgress o pc →
      left (step env .ok pc w).1 ≤ left pc - 1 := by
    intro pc w hpc
    cases pc with
    | enter call inp => cases hpc; exact le_refl _
    | getCache o' => simp only [step]; split <;> simp [left]
    | getPrepare o' => exact le_refl _
    | getStep o' => simp only [step]; split <;> simp [left]
    | done reply => exact le_refl _
    | _ => exact hpc.elim
  have hrun : ∀ n (s : Pool ι World Pc), GetProgress o (s.proc i) → left (s.proc i) ≤ n →
      GetProgress o (((handlers env).run s (schedule (List.replicate n i))).proc i) ∧
        left (((handlers env).run s (schedule (List.replicate n i))).proc i) = 0 := by
    intro n
    induction n with
    | zero => intro s hs hn; exact ⟨hs, Nat.le_zero.mp hn⟩
    | succ n ih =>
        intro s hs hn
        have hs' : ((handlers env).fire s (.proc i .ok)).proc i
          = (step env .ok (s.proc i) s.world).1 :=
          Machine.fire_proc_self ..
        refine ih ((handlers env).fire s (.proc i .ok)) (hs' ▸ hs.step env .ok) ?_
        rw [hs']
        have := hstep (s.proc i) s.world hs
        omega
  -- no point of `get_order` is further than four calls from its answer
  obtain ⟨hget, hzero⟩ := hrun 4 s h (by cases s.proc i <;> simp [left])
  change ∃ reply, ((handlers env).run s (schedule (List.replicate 4 i))).proc i = .done reply
  generalize ((handlers env).run s (schedule (List.replicate 4 i))).proc i = pc at hget hzero ⊢
  cases pc with
  | done reply => exact ⟨reply, rfl⟩
  | enter call inp => cases hzero
  | getCache o' => cases hzero
  | getPrepare o' => cases hzero
  | getStep o' => cases hzero
  | _ => exact hget.elim

variable {ι : Type*} [DecidableEq ι]

/-- Whatever the run, `get_order` is on its way or has answered. -/
theorem getProgress_run (env : Env) (w : World) (jobs : ι → Job) {i : ι} {o : PathParam}
    (hjob : (jobs i).call = .getOrder o) (evs : List (Event ι Outcome EnvEvent)) :
    GetProgress o (((handlers env).run (initial w jobs) evs).proc i) := by
  refine (handlers env).run_local (P := GetProgress o) ?_ (s := initial w jobs) hjob evs
  intro out pc w' h
  exact h.step env out

/-- **Read-your-writes through the cache.**  From an empty cache, with requests
    running one at a time and every call succeeding, Redis there or not, every
    `get_order(o)` answers from the row `o` as the table has it; and it does
    answer. -/
theorem get_order_reads_your_writes (env : Env) (w : World) (hcache : w.cache = fun _ => none)
    (jobs : ι → Job) (hnul : PayBodiesNoNul env jobs) (evs : List (Event ι Outcome EnvEvent))
    (hcalls : (handlers env).RunOk CallsSucceed (initial w jobs) evs)
    (halone : (handlers env).RunOk Alone (initial w jobs) evs)
    (i : ι) (o : PathParam) (hjob : (jobs i).call = .getOrder o) :
    (∀ pre out post reply, evs = pre ++ .proc i out :: post →
      (∀ reply', ((handlers env).run (initial w jobs) pre).proc i ≠ .done reply') →
      ((handlers env).run (initial w jobs) (pre ++ [.proc i out])).proc i = .done reply →
      ReadsRow env ((handlers env).run (initial w jobs) (pre ++ [.proc i out])).world.table
        o.val reply) ∧
    (∀ pre post, evs = pre ++ post → ∃ reply,
      ((handlers env).run ((handlers env).run (initial w jobs) pre)
        (schedule [i, i, i, i])).proc i = .done reply) := by
  have hget := fun es => getProgress_run env w jobs hjob es
  constructor
  · intro pre out post reply hsplit hopen hdone
    subst hsplit
    obtain ⟨hcpre, hcpost⟩ := (Machine.runOk_append _ _ _ _).mp hcalls
    obtain ⟨hapre, hapost⟩ := (Machine.runOk_append _ _ _ _).mp halone
    obtain rfl : out = .ok := hcpost.1
    rw [Machine.run_concat] at hdone ⊢
    rw [Machine.fire_proc_self, handlers_step] at hdone
    refine getOrder_answer (hget pre) hopen ?_ hdone
    -- a hit: the entry fits the table, since nothing else is in progress
    intro hpc hredis payload hhit
    have hI := (handlers env).run_inv (fun s e hI hok => cacheInv_fire hredis hI hok) pre _
      (cacheInv_initial (coherent_of_no_cache env hcache) hnul)
      (hcpre.and (handlers env) (hapre.mono (handlers env) fun s e h => h.cacheUndisturbed))
    rcases hI.entries o.val payload hhit with hd | hp
    · exact hd
    · exact absurd hp (Alone.not_pendingDel hapost.1 hpc)
  · intro pre post _
    exact getOrder_finishes env (hget pre)

/-- A creation, a reading from Redis, a payment and a reading from SQLite. -/
def createReadPayRead : Fin 4 → Job
  | 0 => sampleCreate
  | 1 => sampleGet
  | 2 => samplePay 1
  | 3 => sampleGet

/-- The four in turn. -/
def createReadPayReadInTurn : List (Event (Fin 4) Outcome EnvEvent) :=
  schedule (turns [0, 0, 0, 0, 1, 1, 2, 2, 2, 2, 2, 2, 3, 3, 3, 3])

/-- The bodies of this run have no NUL. -/
theorem createReadPayRead_noNul : PayBodiesNoNul sampleEnv createReadPayRead := by
  intro i body o hcall ho
  match i with
  | 0 => cases hcall
  | 1 => cases hcall
  | 2 => exact samplePayBody_noNul (OrderCall.payOrder.inj hcall) ho
  | 3 => cases hcall

instance {ι : Type*} [DecidableEq ι] [Fintype ι] (s : Pool ι World Pc) :
    (e : Event ι Outcome EnvEvent) → Decidable (Alone s e)
  | .proc i _ => inferInstanceAs (Decidable (∀ j, j ≠ i → (s.proc j).inProgress = false))
  | .env _ => inferInstanceAs (Decidable True)

/-- An order is read behind its creation, and again behind its payment. -/
theorem get_order_reads_your_writes_in_turn :
    (∃ reply, ((handlers sampleEnv).run (initial {} createReadPayRead)
        (schedule (turns [0, 0, 0, 0, 1, 1]))).proc 1 = .done reply ∧
      ReadsRow sampleEnv ((handlers sampleEnv).run (initial {} createReadPayRead)
        (schedule (turns [0, 0, 0, 0, 1, 1]))).world.table "ORD17000000007" reply) ∧
    (∃ reply, ((handlers sampleEnv).run (initial {} createReadPayRead)
        createReadPayReadInTurn).proc 3 = .done reply ∧
      ReadsRow sampleEnv ((handlers sampleEnv).run (initial {} createReadPayRead)
        createReadPayReadInTurn).world.table "ORD17000000007" reply) := by
  have hread := get_order_reads_your_writes sampleEnv {} rfl createReadPayRead
    createReadPayRead_noNul createReadPayReadInTurn (schedule_succeeds _ _ _) (by decide)
  constructor
  · exact ⟨_, rfl, (hread 1 ⟨"ORD17000000007", by decide⟩ rfl).1 (schedule (turns [0, 0, 0, 0, 1])) .ok
      (schedule (turns [2, 2, 2, 2, 2, 2, 3, 3, 3, 3])) _ rfl (fun _ h => by cases h) rfl⟩
  · exact ⟨_, rfl, (hread 3 ⟨"ORD17000000007", by decide⟩ rfl).1
      (schedule (turns [0, 0, 0, 0, 1, 1, 2, 2, 2, 2, 2, 2, 3, 3, 3])) .ok [] _ rfl
      (fun _ h => by cases h) rfl⟩

end OrderApi.Orders
