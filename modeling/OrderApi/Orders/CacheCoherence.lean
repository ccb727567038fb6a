/-
  OrderApi.Orders.CacheCoherence
  ──────────────────────────────
  **REDIS AND THE TABLE.**

  `create_order` publishes its row before it fills the cache, `pay_order` and
  `delete_order` change the row before they invalidate.  The law is that at rest
  an entry is only there for a PENDING row, and describes it.  What carries it
  through the moments in between is that an entry, or a `create_order` about to
  write one, that no longer fits the table has an invalidation on its way
  (`PendingDel`).  Two steps can lose it:

    • a DEL executed while a `create_order` is still before its SET, with its
      row already changed;
    • a write that touches no row, executed between the DELETE and the
      `sqlite3_changes` of a `delete_order` that did remove its row.

  `CacheUndisturbed` excludes these two.  Requests that run one at a time never
  meet them, which gives the sequential reading of `get_order`.
-/
import OrderApi.Orders.Delete
import Mathlib.Data.Option.Basic

namespace OrderApi.Orders

open OrderApi.Lib
open OrderApi.Crow
open OrderApi.Model

/-! ## §1. Coherence. -/

/-- The row `o` is there, PENDING, with this amount and creation time. -/
def PendingRow (t : Table) (o : String) (amount : Double) (createdAt : Int) : Prop :=
  ∃ r ∈ t.find o, r.status = "PENDING" ∧ r.amount = amount ∧ r.createdAt = createdAt

instance (t : Table) (o : String) (amount : Double) (createdAt : Int) :
    Decidable (PendingRow t o amount createdAt) :=
  inferInstanceAs (Decidable (∃ r ∈ t.find o, _))

/-- The payload is what `create_order` writes for the row `o` as it stands. -/
def Describes (env : Env) (t : Table) (o payload : String) : Prop :=
  ∃ amount createdAt, PendingRow t o amount createdAt ∧
    payload = env.dump (createdJson env o amount createdAt)

/-- Every unexpired entry describes a PENDING row. -/
def Coherent (env : Env) (w : World) : Prop :=
  ∀ o payload, w.cache.get w.clock (cacheKey o) = some payload → Describes env w.table o payload

theorem cacheKey_inj {o o' : String} (h : cacheKey o = cacheKey o') : o = o' := by
  have hl : ("order:" ++ o).toList = ("order:" ++ o').toList := congrArg String.toList h
  rw [String.toList_append, String.toList_append] at hl
  exact String.toList_inj.mp (List.append_cancel_left hl)

section
variable {ι : Type*}

/-- No request is in progress. -/
def Quiescent (s : Pool ι World Pc) : Prop := ∀ i, (s.proc i).inProgress = false

/-- An invalidation of `o` is sure to be issued. -/
def PendingDel (o : String) (s : Pool ι World Pc) : Prop :=
  ∃ i, (s.proc i).invalidates = some o ∨ (s.proc i = .deleteChanges o ∧ s.world.changes ≠ 0)

/-- What a `create_order` that has inserted its row is about to cache. -/
def caching : Pc → Option (String × Double × Int)
  | .createCache o amount now => some (o, amount, now)
  | _ => none

theorem caching_eq_some {pc : Pc} {x : String × Double × Int} (h : caching pc = some x) :
    pc = .createCache x.1 x.2.1 x.2.2 := by
  cases pc with
  | createCache o a c => cases h; rfl
  | _ => cases h

/-- A DEL of `o` is not executed while a `create_order` of `o` is before its SET
    and its row is no longer as inserted; and no write that touches no row, or
    fails, is made while a `delete_order` that removed a row is before its
    `sqlite3_changes`. -/
def CacheUndisturbed (s : Pool ι World Pc) : Event ι Outcome EnvEvent → Prop
  | .proc i out =>
      (∀ o ∈ (s.proc i).invalidates, ∀ j, ∀ x ∈ caching (s.proc j), x.1 = o →
        PendingRow s.world.table x.1 x.2.1 x.2.2) ∧
      (rowsTouched out s.world (s.proc i) = some 0 → s.world.changes ≠ 0 →
        ∀ j, awaitsCount (s.proc j) = false)
  | .env _ => True

instance [Fintype ι] (s : Pool ι World Pc) :
    (e : Event ι Outcome EnvEvent) → Decidable (CacheUndisturbed s e)
  | .proc i out => inferInstanceAs (Decidable (
      (∀ o ∈ (s.proc i).invalidates, ∀ j, ∀ x ∈ caching (s.proc j), x.1 = o →
        PendingRow s.world.table x.1 x.2.1 x.2.2) ∧
      (rowsTouched out s.world (s.proc i) = some 0 → s.world.changes ≠ 0 →
        ∀ j, awaitsCount (s.proc j) = false)))
  | .env _ => inferInstanceAs (Decidable True)

/-- What is true at every moment. -/
structure CacheInv (env : Env) (s : Pool ι World Pc) : Prop where
  noNul : ∀ i o, (s.proc i).names env = some o → NoNul o
  entries : ∀ o payload, s.world.cache.get s.world.clock (cacheKey o) = some payload →
    Describes env s.world.table o payload ∨ PendingDel o s
  creates : ∀ i o amount now, s.proc i = .createCache o amount now →
    PendingRow s.world.table o amount now ∨ PendingDel o s

theorem inProgress_of_pendingDel {o : String} {s : Pool ι World Pc} (h : PendingDel o s) :
    ∃ i, (s.proc i).inProgress = true := by
  obtain ⟨i, hi | ⟨hi, -⟩⟩ := h
  · exact ⟨i, inProgress_of_invalidates hi⟩
  · exact ⟨i, by rw [hi]; rfl⟩

/-- At rest nothing is on its way, so the entries fit the table. -/
theorem CacheInv.coherent {env : Env} {s : Pool ι World Pc} (hI : CacheInv env s)
    (hq : Quiescent s) : Coherent env s.world := by
  intro o payload hget
  rcases hI.entries o payload hget with hd | hp
  · exact hd
  · obtain ⟨i, hi⟩ := inProgress_of_pendingDel hp
    rw [hq i] at hi
    cases hi

end

/-! ## §2. One step. -/

section
variable {ι : Type*} [DecidableEq ι] {env : Env} {s : Pool ι World Pc} {i : ι} {out : Outcome}

/-- An invalidation on its way stays on its way until it is executed. -/
theorem pendingDel_fire {o : String} (hok : CacheUndisturbed s (.proc i out))
    (h : PendingDel o s) :
    PendingDel o ((handlers env).fire s (.proc i out)) ∨ (s.proc i).invalidates = some o := by
  obtain ⟨j, hj⟩ := h
  by_cases hji : j = i
  · subst hji
    rcases hj with hinv | ⟨hpc, hne⟩
    · exact .inr hinv
    · -- `sqlite3_changes` returns non-zero and `delete_order` goes on to invalidate
      refine .inl ⟨j, .inl ?_⟩
      rw [Machine.fire_proc_self, handlers_step, hpc]
      simp [step, hne, Pc.invalidates]
  · refine .inl ⟨j, ?_⟩
    rw [Machine.fire_proc_other _ _ hji]
    rcases hj with hinv | ⟨hpc, hne⟩
    · exact .inl hinv
    · refine .inr ⟨hpc, ?_⟩
      rw [Machine.fire_proc_world, handlers_step]
      rcases changes_step env out (s.proc i) s.world with hsame | htouch
      · rwa [hsame]
      -- another request's write that touched no row would hide the deletion
      · intro hzero
        rw [hzero] at htouch
        have := hok.2 htouch hne j
        simp [hpc, awaitsCount] at this

/-- A PENDING row stays as it is, or the request that changes it goes on to
    invalidate. -/
theorem pendingRow_fire {o : String} {a : Double} {c : Int} (hI : CacheInv env s)
    (h : PendingRow s.world.table o a c) :
    PendingRow ((handlers env).fire s (.proc i out)).world.table o a c ∨
      PendingDel o ((handlers env).fire s (.proc i out)) := by
  obtain ⟨r, hr, hrow⟩ := h
  have hr : s.world.table.find o = some r := hr
  cases step_row env out (s.proc i) s.world o with
  | keep row => exact .inl ⟨r, row.trans hr, hrow⟩
  -- an INSERT under a key in use fails, so it does not meet this row
  | insert o' a' c' r' at_ key next fresh row => exact absurd (fresh.symm.trans hr) (by simp)
  | update o' a' c' n at_ key ok next row =>
      have hnul := hI.noNul i o' (by rw [at_]; rfl)
      -- `pay_order` now stands in front of its DEL of the same key
      refine .inr ⟨i, .inl ?_⟩
      rw [Machine.fire_proc_self, handlers_step, next, ← key, cStr_eq_self hnul]
      rfl
  | delete o' at_ key ok next row =>
      have hnul := hI.noNul i o' (by rw [at_]; rfl)
      have hoo : o' = o := (cStr_eq_self hnul).symm.trans key
      subst hoo
      -- `delete_order` stands in front of `sqlite3_changes`, which its own DELETE has
      -- set to a non-zero count
      refine .inr ⟨i, .inr ⟨?_, ?_⟩⟩
      · rw [Machine.fire_proc_self, handlers_step, next]
      · rw [Machine.fire_proc_world, handlers_step, at_, ok]
        simp only [step, key]
        exact Keyed.count_ne_zero hr

/-- After a step an entry still describes its row, or its DEL is to come. -/
theorem describes_fire {o payload : String} (hI : CacheInv env s)
    (h : Describes env s.world.table o payload) :
    Describes env ((handlers env).fire s (.proc i out)).world.table o payload ∨
      PendingDel o ((handlers env).fire s (.proc i out)) := by
  obtain ⟨a, c, hrow, hp⟩ := h
  rcases pendingRow_fire hI hrow with hrow' | hdel
  · exact .inl ⟨a, c, hrow', hp⟩
  · exact .inr hdel

/-- An entry the call does not write keeps its standing, unless the call is the
    invalidation it waits for. -/
theorem entry_fire {o payload : String} (hI : CacheInv env s)
    (hok : CacheUndisturbed s (.proc i out))
    (hget : s.world.cache.get s.world.clock (cacheKey o) = some payload)
    (hother : (s.proc i).invalidates ≠ some o) :
    Describes env ((handlers env).fire s (.proc i out)).world.table o payload ∨
      PendingDel o ((handlers env).fire s (.proc i out)) := by
  rcases hI.entries o payload hget with hd | hp
  · exact describes_fire hI hd
  · rcases pendingDel_fire hok hp with hp' | hinv
    · exact .inr hp'
    · exact absurd hinv hother

theorem Cache.get_congr {c c' : Cache} {clock : Int} {key : String} (h : c key = c' key) :
    c.get clock key = c'.get clock key := by
  unfold Cache.get
  rw [h]

/-- After a step every entry describes its row, or its DEL is to come. -/
theorem entries_fire (hredis : env.redis = true) (hout : out = .ok) (hI : CacheInv env s)
    (hok : CacheUndisturbed s (.proc i out)) {o payload : String}
    (hget : ((handlers env).fire s (.proc i out)).world.cache.get
      ((handlers env).fire s (.proc i out)).world.clock (cacheKey o) = some payload) :
    Describes env ((handlers env).fire s (.proc i out)).world.table o payload ∨
      PendingDel o ((handlers env).fire s (.proc i out)) := by
  rw [Machine.fire_proc_world, handlers_step, step_clock] at hget
  cases step_cache env out (s.proc i) s.world with
  | keep cache quiet =>
      rw [cache] at hget
      exact entry_fire hI hok hget (by simp [quiet hredis hout])
  | set o' a c at_ cache =>
      rw [cache] at hget
      by_cases ho : o = o'
      · -- the entry is the one being written, for the row as inserted
        subst ho
        have hpayload : env.dump (createdJson env o a c) = payload := by
          obtain ⟨e, he, -, hpay⟩ := Cache.get_eq_some.mp hget
          rw [Function.update_self] at he
          rw [← hpay, ← Option.some.inj he]
        rcases hI.creates i o a c at_ with hrow | hdel
        · exact describes_fire hI ⟨a, c, hrow, hpayload.symm⟩
        · rcases pendingDel_fire hok hdel with hdel' | hinv
          · exact .inr hdel'
          · rw [at_] at hinv
            simp [Pc.invalidates] at hinv
      · have hne : cacheKey o ≠ cacheKey o' := fun h => ho (cacheKey_inj h)
        rw [Cache.get_congr (Function.update_of_ne hne _ _)] at hget
        exact entry_fire hI hok hget (by simp [at_, Pc.invalidates])
  -- the entry of the key deleted is gone; the others keep their standing
  | del o' at_ cache =>
      rw [cache] at hget
      by_cases ho : o = o'
      · subst ho
        simp [Cache.get] at hget
      · have hne : cacheKey o ≠ cacheKey o' := fun h => ho (cacheKey_inj h)
        rw [Cache.get_congr (Function.update_of_ne hne _ _)] at hget
        exact entry_fire hI hok hget (by rw [at_]; simpa using Ne.symm ho)

/-- A row on its way into the cache is still pending, or the DEL of its entry is to come. -/
theorem creates_fire (hI : CacheInv env s) (hok : CacheUndisturbed s (.proc i out)) {j : ι}
    {o : String} {a : Double} {c : Int}
    (hj : ((handlers env).fire s (.proc i out)).proc j = .createCache o a c) :
    PendingRow ((handlers env).fire s (.proc i out)).world.table o a c ∨
      PendingDel o ((handlers env).fire s (.proc i out)) := by
  by_cases hji : j = i
  · subst hji
    rw [Machine.fire_proc_self, handlers_step] at hj
    -- the point is reached by the INSERT alone
    have hnul := hI.noNul j o (names_step env out (by rw [hj]; rfl))
    have hwrote : (step env out (s.proc j) s.world).1.wrote = true := by rw [hj]; rfl
    cases step_table env out (s.proc j) s.world with
    | keep table changes next => rw [next] at hwrote; cases hwrote
    | failed at_ table changes next => rw [next] at hwrote; cases hwrote
    | insert o' a' c' at_ ok next table changes =>
        rw [next] at hj
        obtain ⟨rfl, rfl, rfl⟩ := Pc.createCache.inj hj
        have hfind := (Table.find_insertOrder table o').trans (if_pos (cStr_eq_self hnul))
        exact .inl ⟨_, hfind, rfl, rfl, rfl⟩
    | update o' a' c' n at_ ok next table changes => rw [next] at hj; cases hj
    | delete o' at_ ok next table changes => rw [next] at hj; cases hj
  · rw [Machine.fire_proc_other _ _ hji] at hj
    -- the invalidation this creation waits for must not run before its SET: that
    -- is what the first half of `CacheUndisturbed` excludes
    rcases hI.creates j o a c hj with hrow | hdel
    · exact pendingRow_fire hI hrow
    · rcases pendingDel_fire hok hdel with hdel' | hinv
      · exact .inr hdel'
      · exact pendingRow_fire hI (hok.1 o hinv j (o, a, c) (by rw [hj]; rfl) rfl)

/-- Between steps entries only disappear. -/
theorem get_apply {x : EnvEvent} {w : World} {key payload : String}
    (h : (x.apply w).cache.get (x.apply w).clock key = some payload) :
    w.cache.get w.clock key = some payload := by
  cases x with
  | drop key' =>
      by_cases hk : key = key'
      · subst hk
        simp [EnvEvent.apply, Cache.get] at h
      · rw [← h]
        exact Cache.get_congr (Function.update_of_ne hk _ _).symm
  | tick ms =>
      obtain ⟨e, he, hlt, hpay⟩ := Cache.get_eq_some.mp h
      have hlt : w.clock + ms < e.expires := hlt
      exact Cache.get_eq_some.mpr ⟨e, he, by omega, hpay⟩
  | shutdown => exact h

/-- **The step lemma**: undisturbed successful calls keep the invariant. -/
theorem cacheInv_fire {e : Event ι Outcome EnvEvent} (hredis : env.redis = true)
    (hI : CacheInv env s) (hok : CallsSucceed s e ∧ CacheUndisturbed s e) :
    CacheInv env ((handlers env).fire s e) := by
  cases e with
  | proc i out =>
      constructor
      · intro j o hj
        by_cases hji : j = i
        · subst hji
          rw [Machine.fire_proc_self] at hj
          exact hI.noNul j o (names_step env out hj)
        · rw [Machine.fire_proc_other _ _ hji] at hj
          exact hI.noNul j o hj
      · exact fun o payload hget => entries_fire hredis hok.1 hI hok.2 hget
      · exact fun j o a c hj => creates_fire hI hok.2 hj
  | env x =>
      -- the environment writes neither the table nor the change count
      have hdel : ∀ o, PendingDel o s → PendingDel o ((handlers env).fire s (.env x)) :=
        fun o ⟨j, hj⟩ => ⟨j, by simpa using hj⟩
      constructor
      · exact fun j o hj => hI.noNul j o hj
      · intro o payload hget
        rcases hI.entries o payload (get_apply hget) with hd | hp
        · exact .inl (by simpa using hd)
        · exact .inr (hdel o hp)
      · intro j o a c hj
        rcases hI.creates j o a c hj with hrow | hp
        · exact .inl (by simpa using hrow)
        · exact .inr (hdel o hp)

end

/-! ## §3. Coherence at rest. -/

theorem noNul_of_digits {l : List Char} (h : ∀ c ∈ l, c.isDigit = true) : '\x00' ∉ l :=
  fun hmem => absurd (h _ hmem) (by decide)

/-- The numbers `create_order` makes have no NUL. -/
theorem generateOrderNo_noNul (inp : Inputs) : NoNul (generateOrderNo inp) := by
  have hnat : ∀ n : Nat, '\x00' ∉ (toString n).toList := fun n => by
    rw [Nat.toString_eq_repr, Nat.toList_repr]
    exact noNul_of_digits fun c hc => Nat.isDigit_of_mem_toDigits (by decide) (by decide) hc
  have hint : '\x00' ∉ (toString inp.timestamp).toList := by
    cases inp.timestamp with
    | ofNat n => exact hnat n
    | negSucc n =>
        show '\x00' ∉ ("-" ++ toString (n + 1)).toList
        rw [String.toList_append, List.mem_append]
        rintro (h | h)
        · simp at h
        · exact hnat _ h
  unfold NoNul generateOrderNo
  rw [String.toList_append, String.toList_append, List.mem_append, List.mem_append]
  rintro ((h | h) | h)
  · simp at h
  · exact hint h
  · exact hnat _ h

section
variable {ι : Type*}

/-- The order numbers in the bodies of the payments have no NUL. -/
def PayBodiesNoNul (env : Env) (jobs : ι → Job) : Prop :=
  ∀ i body o, (jobs i).call = .payOrder body → payOrderNo env body = .ok o → NoNul o

/-- The order numbers of the requests have no NUL. -/
theorem names_initial {env : Env} {jobs : ι → Job} (hnul : PayBodiesNoNul env jobs) (w : World)
    (i : ι) (o : String) (h : ((initial w jobs).proc i).names env = some o) : NoNul o := by
  replace h : (enter env (jobs i).inp (jobs i).call).orderNo = some o := h
  cases hcall : (jobs i).call with
  | createOrder body =>
      rw [hcall, enter] at h
      split at h
      · exact Option.some.inj h ▸ generateOrderNo_noNul _
      · simp at h
  | getOrder p =>
      rw [hcall] at h
      exact Option.some.inj h ▸ p.noNul
  | payOrder body =>
      rw [hcall, enter] at h
      split at h
      · next o' ho' =>
          obtain rfl : o' = o := Option.some.inj h
          exact hnul i body o' hcall ho'
      · simp at h
  | listOrders status => rw [hcall] at h; cases h
  | deleteOrder p =>
      rw [hcall] at h
      exact Option.some.inj h ▸ p.noNul

theorem cacheInv_initial {env : Env} {w : World} (hw : Coherent env w) {jobs : ι → Job}
    (hnul : PayBodiesNoNul env jobs) : CacheInv env (initial w jobs) :=
  ⟨names_initial hnul w, fun o payload hget => .inl (hw o payload hget),
    fun i o a c h => by simp [initial] at h⟩

end

variable {ι : Type*} [DecidableEq ι]

/-- **Cache coherence.**  With Redis reachable and every call succeeding, in every
    run whose steps leave the cache undisturbed each unexpired entry describes a
    PENDING row whenever no request is in progress. -/
theorem cache_coherent_at_rest (env : Env) (hredis : env.redis = true) (w : World)
    (hw : Coherent env w) (jobs : ι → Job) (hnul : PayBodiesNoNul env jobs)
    (evs : List (Event ι Outcome EnvEvent))
    (hcalls : (handlers env).RunOk CallsSucceed (initial w jobs) evs)
    (h : (handlers env).RunOk CacheUndisturbed (initial w jobs) evs)
    (hrest : Quiescent ((handlers env).run (initial w jobs) evs)) :
    Coherent env ((handlers env).run (initial w jobs) evs).world := by
  have hI := (handlers env).run_inv (fun s e hI hok => cacheInv_fire hredis hI hok) evs _
    (cacheInv_initial hw hnul) (hcalls.and (handlers env) h)
  exact hI.coherent hrest

theorem coherent_of_no_cache (env : Env) {w : World} (h : w.cache = fun _ => none) :
    Coherent env w := fun o payload hget => by
  simp [h, Cache.get] at hget

/-- A `create_order`, a `list_orders` that shows its row, and a `pay_order` of the
    number found there. -/
def createListPay : Fin 3 → Job
  | 0 => sampleCreate
  | 1 => sampleList
  | 2 => samplePay 1

/-- The three one after the other. -/
def createListPayInTurn : List (Event (Fin 3) Outcome EnvEvent) :=
  schedule (turns [0, 0, 0, 0, 1, 1, 1, 1, 2, 2, 2, 2, 2, 2])

/-- Listing and payment between the INSERT and the SET of the creation. -/
def payBeforeSet : List (Event (Fin 3) Outcome EnvEvent) :=
  schedule (turns [0, 0, 0, 1, 1, 1, 1, 2, 2, 2, 2, 2, 2, 0])

/-- The sample body names an order without a NUL. -/
theorem samplePayBody_noNul {body o : String} (hbody : samplePayBody = body)
    (h : payOrderNo sampleEnv body = .ok o) : NoNul o := by
  subst hbody
  obtain rfl : "ORD17000000007" = o := Except.ok.inj h
  decide

/-- So do the bodies of this run. -/
theorem createListPay_noNul : PayBodiesNoNul sampleEnv createListPay := by
  intro i body o hcall ho
  match i with
  | 0 => cases hcall
  | 1 => cases hcall
  | 2 => exact samplePayBody_noNul (OrderCall.payOrder.inj hcall) ho

/-- An order is created and paid, and its entry is gone. -/
theorem cache_coherent_at_rest_in_turn :
    Quiescent ((handlers sampleEnv).run (initial {} createListPay) createListPayInTurn) ∧
      Coherent sampleEnv
        ((handlers sampleEnv).run (initial {} createListPay) createListPayInTurn).world := by
  have hrest : Quiescent
      ((handlers sampleEnv).run (initial {} createListPay) createListPayInTurn) := by
    unfold Quiescent; decide
  exact ⟨hrest, cache_coherent_at_rest sampleEnv rfl {} (coherent_of_no_cache _ rfl) createListPay
    createListPay_noNul createListPayInTurn (schedule_succeeds _ _ _) (by decide) hrest⟩

/-- The SET of the creation lands behind the DEL of the payment, and the paid
    order stays in the cache as PENDING. -/
theorem set_after_invalidation_incoherent :
    (handlers sampleEnv).RunOk CallsSucceed (initial {} createListPay) payBeforeSet ∧
      Quiescent ((handlers sampleEnv).run (initial {} createListPay) payBeforeSet) ∧
      ¬ Coherent sampleEnv
        ((handlers sampleEnv).run (initial {} createListPay) payBeforeSet).world := by
  refine ⟨schedule_succeeds _ _ _, by unfold Quiescent; decide, fun h => ?_⟩
  obtain ⟨a, c, ⟨r, hr, hst, -⟩, -⟩ := h "ORD17000000007"
    (sampleEnv.dump (createdJson sampleEnv "ORD17000000007" one 1700000000)) (by decide)
  have hpaid : (((handlers sampleEnv).run (initial {} createListPay) payBeforeSet).world.table.find
      "ORD17000000007").map Row.status = some "PAID" := by decide
  rw [show _ = some r from hr] at hpaid
  rw [Option.map_some, hst] at hpaid
  revert hpaid
  decide

end OrderApi.Orders
