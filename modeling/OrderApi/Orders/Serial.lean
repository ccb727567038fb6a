/-
  OrderApi.Orders.Serial
  ──────────────────────
  **THE TABLE IS STATE-SERIALIZABLE.**

  Each writing request has one effect on the table (`effect`), and the table an
  interleaving reaches is that of the effects in SOME order that respects real
  time.  The order is built along the run:

    • `create_order` takes its place at its INSERT and `delete_order` at its
      DELETE;
    • `pay_order` takes its place at its SELECT when that ends it, else at its
      UPDATE;
    • an UPDATE that overwrites a row ALREADY paid cannot go to the end, where
      its request would be refused.  It goes right before the payment that paid
      the row first: there the row is unpaid, and the other payment, now refused,
      leaves the later `paid_at` in place.

  That last place exists because everything ordered behind it was still running
  when the late payment had started (`WindowSplit`).
-/
import OrderApi.Orders.Payment
import OrderApi.Lib.Replay
import Mathlib.Data.Fintype.Basic
import Mathlib.Logic.Function.Iterate

namespace OrderApi.Orders

open OrderApi.Lib
open OrderApi.Crow
open OrderApi.Model

/-! ## §1. Effects. -/

/-- What a handler does to the table when it runs alone from its first call. -/
def effectOf : Pc → Table → Table
  | .insertPrepare o amount now, t => (t.insertOrder (cStr o) amount now).getD t
  | .payPrepare o now, t =>
      match t.find (cStr o) with
      | some r => if r.status = "PAID" then t else t.updatePaid (cStr o) now
      | none => t
  | .deletePrepare o, t => t.deleteOrder (cStr o)
  | _, t => t

/-- The effect of a request on the table. -/
def effect (env : Env) (job : Job) : Table → Table := effectOf (enter env job.inp job.call)

section
variable {k : String} {t : Table}

/-- A payment deletes no row. -/
theorem present_updatePaid (k' : String) (n : Int) (h : Present k t) :
    Present k (t.updatePaid k' n) := by
  unfold Present at h ⊢
  rw [Table.find_updatePaid]
  split
  · next he => rw [Option.isSome_map, ← he]; exact h
  · exact h

theorem effectOf_pay_unpaid {o : String} {now : Int} (h : UnpaidRow (cStr o) t) :
    effectOf (.payPrepare o now) t = t.updatePaid (cStr o) now := by
  obtain ⟨r, hr, hst⟩ := h
  simp [effectOf, hr, hst]

theorem effectOf_pay_paid {o : String} {now : Int} (h : PaidRow (cStr o) t) :
    effectOf (.payPrepare o now) t = t := by
  obtain ⟨r, hr, hst⟩ := h
  simp [effectOf, hr, hst]

theorem effectOf_pay_absent {o : String} {now : Int} (h : t.find (cStr o) = none) :
    effectOf (.payPrepare o now) t = t := by
  simp [effectOf, h]

/-- No effect makes a PAID row out of nothing. -/
theorem present_of_paidRow_effectOf (pc : Pc) (h : PaidRow k (effectOf pc t)) : Present k t := by
  obtain ⟨r, hr, hst⟩ := h
  cases pc with
  | insertPrepare o a c =>
      cases hi : t.insertOrder (cStr o) a c with
      | none => rw [effectOf, hi] at hr; exact present_of_paidRow ⟨r, hr, hst⟩
      | some t' =>
          rw [effectOf, hi, Option.getD_some, Table.find_insertOrder hi] at hr
          -- the row just inserted is PENDING
          split at hr
          · cases hr; simp at hst
          · exact present_of_paidRow ⟨r, hr, hst⟩
  | payPrepare o n =>
      -- a payment only changes rows that exist
      by_contra hno
      have hnone : t.find k = none := by simpa [Present] using hno
      by_cases hup : UnpaidRow (cStr o) t
      · rw [effectOf_pay_unpaid hup, Table.find_updatePaid] at hr
        split at hr
        · next he => rw [← he, hnone] at hr; cases hr
        · rw [hnone] at hr; cases hr
      · have : effectOf (.payPrepare o n) t = t := by
          cases hf : t.find (cStr o) with
          | none => exact effectOf_pay_absent hf
          | some r' =>
              refine effectOf_pay_paid ⟨r', hf, ?_⟩
              by_contra hne
              exact hup ⟨r', hf, hne⟩
        rw [this, hnone] at hr
        cases hr
  | deletePrepare o =>
      rw [effectOf, Table.find_deleteOrder] at hr
      split at hr
      · cases hr
      · exact present_of_paidRow ⟨r, hr, hst⟩
  | _ => exact present_of_paidRow ⟨r, hr, hst⟩

/-- **A payment commutes with every effect** while its row is there: a payment
    of the same row is either the one it replaces or refused by it. -/
theorem effectOf_updatePaid (n : Int) (pc : Pc) (h : Present k t) :
    effectOf pc (t.updatePaid k n) = (effectOf pc t).updatePaid k n := by
  cases pc with
  | insertPrepare o a c =>
      cases hi : t.insertOrder (cStr o) a c with
      | none =>
          -- the key is taken, with or without the payment
          obtain ⟨r, hr⟩ := Table.insertOrder_eq_none.mp hi
          obtain ⟨r', hr'⟩ := Option.isSome_iff_exists.mp
            (present_updatePaid k n (show Present (cStr o) t by simp [Present, hr]))
          rw [effectOf, effectOf, hi, Table.insertOrder_eq_none.mpr ⟨r', hr'⟩]
          rfl
      | some t' =>
          have hne : cStr o ≠ k := by
            rintro rfl
            rw [Present, Table.find_none_of_insertOrder hi] at h
            cases h
          rw [effectOf, effectOf, hi, Table.insertOrder_updatePaid hne n hi]
          rfl
  | payPrepare o m =>
      by_cases hk : cStr o = k
      · subst hk
        -- behind the payment of `k` the other one is refused; in front of it, it is
        -- overwritten
        have hpaid : PaidRow (cStr o) (t.updatePaid (cStr o) n) := by
          obtain ⟨r, hr⟩ := Option.isSome_iff_exists.mp h
          exact ⟨Table.markPaid n r, by rw [Table.find_updatePaid, if_pos rfl, hr]; rfl, rfl⟩
        rw [effectOf_pay_paid hpaid]
        rcases paidRow_or_unpaidRow h with hp | hu
        · rw [effectOf_pay_paid hp]
        · rw [effectOf_pay_unpaid hu, Table.updatePaid_self]
      -- another row: neither payment sees the other
      · have hfind : (t.updatePaid k n).find (cStr o) = t.find (cStr o) := by
          rw [Table.find_updatePaid, if_neg hk]
        simp only [effectOf, hfind]
        split
        · split
          · rfl
          · rw [Table.updatePaid_comm t (Ne.symm hk)]
        · rfl
  | deletePrepare o => exact Table.deleteOrder_updatePaid t k (cStr o) n
  | _ => rfl

end

/-! ## §2. Where a request takes its place. -/

/-- The request has had its effect, or will have none. -/
def linearized : Pc → Bool
  | .createCache .. => true
  | .payInvalidate .. => true
  | .deleteChanges _ => true
  | .deleteInvalidate _ => true
  | .done _ => true
  | _ => false

/-- The first call of the handler that stands at a point. -/
def origin : Pc → Pc
  | .insertStep o amount now => .insertPrepare o amount now
  | .payStep o now => .payPrepare o now
  | .updatePrepare o _ _ now => .payPrepare o now
  | .updateStep o _ _ now => .payPrepare o now
  | .deleteStep o => .deletePrepare o
  | pc => pc

/-- A request that changes the table. -/
def Job.Writes (job : Job) : Prop :=
  (∃ body, job.call = .createOrder body) ∨ (∃ body, job.call = .payOrder body) ∨
    ∃ o, job.call = .deleteOrder o

/-- A point of the handler the job calls. -/
def Follows (env : Env) (job : Job) (pc : Pc) : Prop :=
  linearized pc = true ∨ pc = .enter job.call job.inp ∨ origin pc = enter env job.inp job.call

/-- The call succeeds if it is one to SQLite; one to Redis may end as it likes. -/
def callsRedis : Pc → Bool
  | .createCache .. => true
  | .getCache _ => true
  | .payInvalidate .. => true
  | .deleteInvalidate _ => true
  | _ => false

/-- What a call of a writing request means for the serial order: nothing, its
    place is here, or it overwrites a row already paid. -/
inductive SerialStep (entry pc : Pc) (t : Table) (pc' : Pc) (t' : Table) : Prop where
  | silent (table : t' = t) (lin : linearized pc' = linearized pc)
      (window : ∀ k, pc'.payWindow = some k → pc.payWindow = some k ∨ UnpaidRow k t)
  | commit (before : linearized pc = false) (after : linearized pc' = true)
      (table : t' = effectOf entry t)
  | overwrite (o : String) (now : Int) (before : linearized pc = false)
      (after : linearized pc' = true) (window : pc.payWindow = some (cStr o))
      (at_entry : entry = .payPrepare o now) (row : PaidRow (cStr o) t)
      (table : t' = t.updatePaid (cStr o) now)

/-- The first call of a writing request that is not lost on entry. -/
theorem enter_cases (env : Env) {job : Job} (hw : Job.Writes job)
    (hin : enter env job.inp job.call ≠ .lost) :
    (∃ o a c, enter env job.inp job.call = .insertPrepare o a c) ∨
      (∃ o n, enter env job.inp job.call = .payPrepare o n) ∨
      (∃ o, enter env job.inp job.call = .deletePrepare o) ∨
      (∃ reply, enter env job.inp job.call = .done reply) := by
  have hearly : ∀ early : Early, early.pc ≠ .lost → ∃ reply, early.pc = .done reply := by
    intro early hne
    cases early with
    | answered reply => exact ⟨reply, rfl⟩
    | undefined => exact absurd rfl hne
  rcases hw with ⟨body, h⟩ | ⟨body, h⟩ | ⟨o, h⟩
  · rw [h, enter] at hin ⊢
    split at hin
    · exact .inl ⟨_, _, _, rfl⟩
    · exact .inr (.inr (.inr (hearly _ hin)))
  · rw [h, enter] at hin ⊢
    split at hin
    · exact .inr (.inl ⟨_, _, rfl⟩)
    · exact .inr (.inr (.inr (hearly _ hin)))
  · rw [h]
    exact .inr (.inr (.inl ⟨_, rfl⟩))

section
variable {env : Env} {job : Job} {out : Outcome} {pc : Pc} {w : World}

/-- The steps up to the effect. -/
theorem serialStep_pending (hw : Job.Writes job) (hin : enter env job.inp job.call ≠ .lost)
    (hlin : linearized pc = false) (hf : Follows env job pc) (hout : callsRedis pc = false → out = .ok) :
    SerialStep (enter env job.inp job.call) pc w.table (step env out pc w).1
        (step env out pc w).2.table ∧
      Follows env job (step env out pc w).1 := by
  rcases hf with hf | rfl | hf
  · rw [hlin] at hf; cases hf
  · -- entering: a request refused here has no effect
    simp only [step]
    rcases enter_cases env hw hin with ⟨o, a, c, he⟩ | ⟨o, n, he⟩ | ⟨o, he⟩ | ⟨reply, he⟩ <;>
      rw [he]
    · exact ⟨.silent rfl rfl (fun k h => by cases h), .inr (.inr he.symm)⟩
    · exact ⟨.silent rfl rfl (fun k h => by cases h), .inr (.inr he.symm)⟩
    · exact ⟨.silent rfl rfl (fun k h => by cases h), .inr (.inr he.symm)⟩
    · exact ⟨.commit rfl rfl rfl, .inl rfl⟩
  · rw [← hf]
    cases pc with
    | insertPrepare o a c =>
        obtain rfl := hout rfl
        exact ⟨.silent rfl rfl (fun k h => by cases h), .inr (.inr hf)⟩
    | insertStep o a c =>
        obtain rfl := hout rfl
        cases hi : w.table.insertOrder (cStr o) a c with
        | none =>
            simp only [step, hi]
            exact ⟨.commit rfl rfl (by simp [origin, effectOf, hi, recordSqliteFailure]), .inl rfl⟩
        | some t =>
            simp only [step, hi]
            exact ⟨.commit rfl rfl (by simp [origin, effectOf, hi]), .inl rfl⟩
    | payPrepare o n =>
        obtain rfl := hout rfl
        exact ⟨.silent rfl rfl (fun k h => by cases h), .inr (.inr hf)⟩
    | payStep o n =>
        -- a refusal takes its place at the SELECT; a payment goes on
        obtain rfl := hout rfl
        cases hr : w.table.find (cStr o) with
        | none =>
            simp only [step, hr]
            exact ⟨.commit rfl rfl (effectOf_pay_absent hr).symm, .inl rfl⟩
        | some r =>
            simp only [step, hr]
            split
            · next hst => exact ⟨.commit rfl rfl (effectOf_pay_paid ⟨r, hr, hst⟩).symm, .inl rfl⟩
            · next hst =>
                refine ⟨.silent rfl rfl fun k h => .inr ?_, .inr (.inr hf)⟩
                exact Option.some.inj h ▸ ⟨r, hr, hst⟩
    | updatePrepare o a c n =>
        obtain rfl := hout rfl
        exact ⟨.silent rfl rfl fun k h => .inl h, .inr (.inr hf)⟩
    | updateStep o a c n =>
        -- by now the row may be gone, paid by somebody else, or as the SELECT saw it
        obtain rfl := hout rfl
        refine ⟨?_, .inl rfl⟩
        cases hr : w.table.find (cStr o) with
        | none =>
            exact .commit rfl rfl ((Table.updatePaid_of_find_none n hr).trans
              (effectOf_pay_absent hr).symm)
        | some r =>
            by_cases hst : r.status = "PAID"
            · exact .overwrite o n rfl rfl rfl rfl ⟨r, hr, hst⟩ rfl
            · exact .commit rfl rfl (effectOf_pay_unpaid ⟨r, hr, hst⟩).symm
    | deletePrepare o =>
        obtain rfl := hout rfl
        exact ⟨.silent rfl rfl (fun k h => by cases h), .inr (.inr hf)⟩
    | deleteStep o =>
        obtain rfl := hout rfl
        exact ⟨.commit rfl rfl rfl, .inl rfl⟩
    | createCache o a c => cases hlin
    | payInvalidate o a c n => cases hlin
    | deleteChanges o => cases hlin
    | deleteInvalidate o => cases hlin
    | done reply => cases hlin
    | _ =>
        -- the other points are not of a writing request
        exfalso
        rcases enter_cases env hw hin with ⟨o, a, c, he⟩ | ⟨o, n, he⟩ | ⟨o, he⟩ | ⟨reply, he⟩ <;>
          rw [he] at hf <;> cases hf

/-- The steps behind the effect. -/
theorem serialStep_settled (entry : Pc) (hlin : linearized pc = true) :
    SerialStep entry pc w.table (step env out pc w).1 (step env out pc w).2.table ∧
      linearized (step env out pc w).1 = true := by
  -- behind its effect a request only talks to Redis and answers
  have hsilent : ∀ x : Pc × World, x.2.table = w.table → linearized x.1 = true →
      (∀ k, x.1.payWindow ≠ some k) →
      SerialStep entry pc w.table x.1 x.2.table ∧ linearized x.1 = true := fun x ht hl hwin =>
    ⟨.silent ht (by rw [hl, hlin]) fun k h => absurd h (hwin k), hl⟩
  cases pc with
  | createCache o a c =>
      exact hsilent _ (redisWrite_table _ _ _ _ rfl) rfl fun k h => by cases h
  | payInvalidate o a c n =>
      exact hsilent _ (redisWrite_table _ _ _ _ rfl) rfl fun k h => by cases h
  | deleteChanges o =>
      simp only [step]
      split <;> exact hsilent (_, w) rfl rfl fun k h => by cases h
  | deleteInvalidate o =>
      exact hsilent _ (redisWrite_table _ _ _ _ rfl) rfl fun k h => by cases h
  | done reply => exact hsilent (_, w) rfl rfl fun k h => by cases h
  | _ => cases hlin

end

/-! ## §3. The order, one step at a time. -/

/-- The request has been entered. -/
def Started (pc : Pc) : Prop := ∀ call inp, pc ≠ .enter call inp

theorem started_of_linearized {pc : Pc} (h : linearized pc = true) : Started pc := by
  rintro call inp rfl
  cases h

theorem started_of_payWindow {pc : Pc} {k : String} (h : pc.payWindow = some k) : Started pc := by
  rintro call inp rfl
  cases h

/-- A payment takes its place with its UPDATE. -/
theorem payWindow_of_linearized {pc : Pc} (h : linearized pc = true) (k : String) :
    pc.payWindow ≠ some k := by
  intro hwin
  cases pc with
  | updatePrepare o a c n => cases h
  | updateStep o a c n => cases h
  | _ => cases hwin

section
variable {ι : Type*}

/-- The effects of a family of requests. -/
def effects (env : Env) (jobs : ι → Job) (i : ι) : Table → Table := effect env (jobs i)

/-- A place in the order for the payments of `k` that are still to come: the row
    was unpaid there, has been there since, and nothing behind the place had to
    precede one of them. -/
def WindowSplit (E : ι → Table → Table) (R : ι → ι → Prop) (t₀ : Table) (s : Pool ι World Pc)
    (l : List ι) (k : String) : Prop :=
  ∃ p q, l = p ++ q ∧ UnpaidRow k (replay E t₀ p) ∧ Along E (Present k) (replay E t₀ p) q ∧
    ∀ i, (s.proc i).payWindow = some k → ∀ j ∈ q, ¬ R j i

/-- The requests that have taken their place explain the table, and each payment
    about to overwrite a paid row has a place to go to. -/
structure Explained (E : ι → Table → Table) (R : ι → ι → Prop) (t₀ : Table)
    (s : Pool ι World Pc) (l : List ι) : Prop where
  serial : Serial E R t₀ l s.world.table
  mem : ∀ i, i ∈ l ↔ linearized (s.proc i) = true
  window : ∀ k i, (s.proc i).payWindow = some k → PaidRow k s.world.table →
    WindowSplit E R t₀ s l k

namespace Explained

variable {env : Env} {jobs : ι → Job} {R R' : ι → ι → Prop} {t₀ : Table}
  {s s' : Pool ι World Pc} {l : List ι}

/-- A step that leaves the table and everybody's standing. -/
theorem silent {E : ι → Table → Table} (h : Explained E R t₀ s l)
    (hR : ∀ j i, Started (s'.proc i) → R' j i → R j i)
    (htable : s'.world.table = s.world.table)
    (hlin : ∀ i, linearized (s'.proc i) = linearized (s.proc i))
    (hwin : ∀ i k, (s'.proc i).payWindow = some k →
      (s.proc i).payWindow = some k ∨ UnpaidRow k s.world.table) :
    Explained E R' t₀ s' l := by
  -- nobody is in the window of a paid row who was not there before
  have hback : ∀ i k, PaidRow k s.world.table → (s'.proc i).payWindow = some k →
      (s.proc i).payWindow = some k := by
    rintro i k ⟨r, hr, hst⟩ hi
    rcases hwin i k hi with hi | ⟨r', hr', hne⟩
    · exact hi
    · rw [Option.some.inj (hr'.symm.trans hr)] at hne
      exact absurd hst hne
  refine ⟨?_, fun i => by rw [h.mem, hlin], ?_⟩
  · rw [htable]
    refine h.serial.mono fun i j hi hr => hR j i ?_ hr
    exact started_of_linearized (by rw [hlin]; exact (h.mem i).mp hi)
  · intro k i hi hpaid
    rw [htable] at hpaid
    obtain ⟨p, q, hl, hun, halong, hq⟩ := h.window k i (hback i k hpaid hi) hpaid
    refine ⟨p, q, hl, hun, halong, fun i' hi' j hj hr => ?_⟩
    exact hq i' (hback i' k hpaid hi') j hj (hR j i' (started_of_payWindow hi') hr)

variable {i : ι}

theorem not_mem {E : ι → Table → Table} (h : Explained E R t₀ s l)
    (hbefore : linearized (s.proc i) = false) : i ∉ l := by
  intro hi
  rw [(h.mem i).mp hi] at hbefore
  cases hbefore

/-- Whoever has a place has started, also after a step of another request. -/
theorem started {E : ι → Table → Table} (h : Explained E R t₀ s l)
    (hother : ∀ j, j ≠ i → s'.proc j = s.proc j) (hi : i ∉ l) :
    ∀ j ∈ l, Started (s'.proc j) := by
  intro j hj
  have hji : j ≠ i := fun he => hi (he ▸ hj)
  rw [hother j hji]
  exact started_of_linearized ((h.mem j).mp hj)

/-- A request that takes its place leaves the window and nobody enters it. -/
theorem window_before (hother : ∀ j, j ≠ i → s'.proc j = s.proc j)
    (hafter : linearized (s'.proc i) = true) :
    ∀ j k, (s'.proc j).payWindow = some k → (s.proc j).payWindow = some k := by
  intro j k hj
  by_cases hji : j = i
  · exact absurd hj (payWindow_of_linearized (hji ▸ hafter) k)
  · rwa [hother j hji] at hj

/-- A request that takes its place now goes to the end. -/
theorem commit (h : Explained (effects env jobs) R t₀ s l)
    (hR : ∀ j i, Started (s'.proc i) → R' j i → R j i)
    (hdone : ∀ j i, linearized (s.proc j) = false → ¬ R j i)
    (hother : ∀ j, j ≠ i → s'.proc j = s.proc j) (hbefore : linearized (s.proc i) = false)
    (hafter : linearized (s'.proc i) = true)
    (htable : s'.world.table = effects env jobs i s.world.table) :
    Explained (effects env jobs) R' t₀ s' (l ++ [i]) := by
  have hi := h.not_mem hbefore
  have hstarted := h.started hother hi
  have hwindow := window_before hother hafter
  refine ⟨?_, ?_, ?_⟩
  · rw [htable]
    refine (h.serial.mono fun a b ha hr => hR b a (hstarted a ha) hr).append hi ?_
    exact fun j hj hr => hdone i j hbefore (hR i j (hstarted j hj) hr)
  · intro j
    by_cases hji : j = i
    · subst hji; simp [hafter]
    · simp [hji, hother j hji, h.mem j]
  · intro k j hj hpaid
    -- `i` has not finished, so it precedes nobody yet
    have hlast : ∀ j', (s'.proc j').payWindow = some k → ¬ R' i j' := fun j' hj' hr =>
      hdone i j' hbefore (hR i j' (started_of_payWindow hj') hr)
    have hhere : Present k s.world.table :=
      present_of_paidRow_effectOf _ (by rw [htable] at hpaid; exact hpaid)
    rcases paidRow_or_unpaidRow hhere with hp | hu
    · -- paid before: the place stays, the new request is behind it
      obtain ⟨p, q, rfl, hun, halong, hq⟩ := h.window k j (hwindow j k hj) hp
      have hend : replay (effects env jobs) (replay (effects env jobs) t₀ p) q = s.world.table := by
        rw [← replay_append]; exact h.serial.replay_eq
      refine ⟨p, q ++ [i], by simp, hun, along_append.mpr ⟨halong, ?_⟩, fun j' hj' x hx hr => ?_⟩
      · rw [hend]
        exact ⟨hhere, by rw [← htable]; exact present_of_paidRow hpaid⟩
      · rcases List.mem_append.mp hx with hx | hx
        · exact hq j' (hwindow j' k hj') x hx (hR x j' (started_of_payWindow hj') hr)
        · rw [List.mem_singleton] at hx
          exact hlast j' hj' (hx ▸ hr)
    · -- paid now: the place is right before the payment
      refine ⟨l, [i], rfl, by rw [h.serial.replay_eq]; exact hu, ?_, fun j' hj' x hx hr => ?_⟩
      · rw [h.serial.replay_eq]
        exact ⟨hhere, by rw [← htable]; exact present_of_paidRow hpaid⟩
      · rw [List.mem_singleton] at hx
        exact hlast j' hj' (hx ▸ hr)

/-- The effects of a payment travel through everything done while its row is
    there. -/
theorem effects_updatePaid (k : String) (n : Int) (j : ι) (t : Table) (h : Present k t)
    (_ : Present k (effects env jobs j t)) :
    effects env jobs j (t.updatePaid k n) = (effects env jobs j t).updatePaid k n :=
  effectOf_updatePaid n _ h

theorem unpaidRow_updatePaid {k k' : String} {t : Table} (hne : k ≠ k') (n : Int) :
    UnpaidRow k (t.updatePaid k' n) ↔ UnpaidRow k t := by
  unfold UnpaidRow
  rw [Table.find_updatePaid, if_neg hne]

/-- Putting a payment of `k'` into the middle leaves the places for the payments
    of another order. -/
theorem windowSplit_insert {k k' : String} {n : Int} {p q : List ι} (hne : k ≠ k')
    (heff : effects env jobs i (replay (effects env jobs) t₀ p)
      = (replay (effects env jobs) t₀ p).updatePaid k' n)
    (halong : Along (effects env jobs) (Present k') (replay (effects env jobs) t₀ p) q)
    (hback : ∀ j, (s'.proc j).payWindow = some k → (s.proc j).payWindow = some k)
    (hR : ∀ j i, Started (s'.proc i) → R' j i → R j i)
    (hnew : ∀ j, (s'.proc j).payWindow = some k → ¬ R' i j)
    (h : WindowSplit (effects env jobs) R t₀ s (p ++ q) k) :
    WindowSplit (effects env jobs) R' t₀ s' (p ++ i :: q) k := by
  obtain ⟨p', q', hl, hun, hal, hq⟩ := h
  have hold : ∀ j, (s'.proc j).payWindow = some k → ∀ x ∈ q', ¬ R' x j := fun j hj x hx hr =>
    hq j (hback j hj) x hx (hR x j (started_of_payWindow hj) hr)
  rcases List.append_eq_append_iff.mp hl with ⟨m, rfl, rfl⟩ | ⟨m, rfl, rfl⟩
  · -- the payment goes before the place
    obtain ⟨hm, hq'⟩ := along_append.mp halong
    have htravel : replay (effects env jobs) t₀ (p ++ i :: m)
        = (replay (effects env jobs) t₀ (p ++ m)).updatePaid k' n := by
      rw [replay_append, replay_cons, heff, replay_append]
      exact replay_comm (effects_updatePaid k' n) hm
    refine ⟨p ++ i :: m, q', by simp, ?_, ?_, hold⟩
    · rw [htravel, unpaidRow_updatePaid hne]
      exact hun
    · rw [htravel]
      rw [← replay_append] at hq'
      exact along_comm (effects_updatePaid k' n) (fun t => present_updatePaid k' n) hq' hal
  · -- the payment goes behind the place
    obtain ⟨hm, hq'⟩ := along_append.mp hal
    refine ⟨p', m ++ i :: q, by simp, hun, along_append.mpr ⟨hm, hm.last, ?_⟩, ?_⟩
    · rw [← replay_append, heff]
      rw [← replay_append] at hq'
      exact along_comm (effects_updatePaid k' n) (fun t => present_updatePaid k' n) halong hq'
    · intro j hj x hx
      rcases List.mem_append.mp hx with hx | hx
      · exact hold j hj x (List.mem_append_left _ hx)
      · rcases List.mem_cons.mp hx with rfl | hx
        · exact hnew j hj
        · exact hold j hj x (List.mem_append_right _ hx)

/-- A payment that overwrites a paid row goes right before the payment that
    paid the row first. -/
theorem overwrite {o : String} {n : Int} (h : Explained (effects env jobs) R t₀ s l)
    (hR : ∀ j i, Started (s'.proc i) → R' j i → R j i)
    (hdone : ∀ j i, linearized (s.proc j) = false → ¬ R j i)
    (hother : ∀ j, j ≠ i → s'.proc j = s.proc j) (hbefore : linearized (s.proc i) = false)
    (hafter : linearized (s'.proc i) = true) (hwin : (s.proc i).payWindow = some (cStr o))
    (hentry : enter env (jobs i).inp (jobs i).call = .payPrepare o n)
    (hrow : PaidRow (cStr o) s.world.table)
    (htable : s'.world.table = s.world.table.updatePaid (cStr o) n) :
    ∃ l', Explained (effects env jobs) R' t₀ s' l' := by
  obtain ⟨p, q, rfl, hun, halong, hq⟩ := h.window (cStr o) i hwin hrow
  have heff : effects env jobs i (replay (effects env jobs) t₀ p)
      = (replay (effects env jobs) t₀ p).updatePaid (cStr o) n := by
    show effectOf (enter env (jobs i).inp (jobs i).call) (replay (effects env jobs) t₀ p) = _
    rw [hentry]
    exact effectOf_pay_unpaid hun
  have hi := h.not_mem hbefore
  have hstarted := h.started hother hi
  have hself : Started (s'.proc i) := started_of_linearized hafter
  have hback := window_before hother hafter
  have hnew : ∀ k j, (s'.proc j).payWindow = some k → ¬ R' i j := fun k j hj hr =>
    hdone i j hbefore (hR i j (started_of_payWindow hj) hr)
  refine ⟨p ++ i :: q, ?_, ?_, ?_⟩
  · rw [htable]
    refine (h.serial.mono fun a b ha hr => hR b a (hstarted a ha) hr).insert
      (U := fun t => t.updatePaid (cStr o) n) hi ?_ ?_ ?_
    · exact fun j hj hr => hdone i j hbefore (hR i j (hstarted j (List.mem_append_left _ hj)) hr)
    -- what is ordered behind it had not finished when its SELECT ran
    · exact fun j hj hr => hq i hwin j hj (hR j i hself hr)
    · rw [heff]
      exact replay_comm (effects_updatePaid (cStr o) n) halong
  · intro j
    by_cases hji : j = i
    · subst hji; simp [hafter]
    · have := h.mem j
      rw [List.mem_append] at this
      simp [hji, hother j hji, this]
  · intro k j hj hpaid
    by_cases hk : k = cStr o
    · -- the same place, with the payment behind it
      subst hk
      refine ⟨p, i :: q, rfl, hun, ⟨present_of_unpaidRow hun, ?_⟩, fun j' hj' x hx hr => ?_⟩
      · rw [heff]
        exact along_comm (effects_updatePaid (cStr o) n)
          (fun t => present_updatePaid (cStr o) n) halong halong
      · rcases List.mem_cons.mp hx with rfl | hx
        · exact hnew _ j' hj' hr
        · exact hq j' (hback j' _ hj') x hx (hR x j' (started_of_payWindow hj') hr)
    · -- another order: its place moves with the insertion
      have hpaid' : PaidRow k s.world.table := by
        obtain ⟨r, hr, hst⟩ := hpaid
        rw [htable, Table.find_updatePaid, if_neg hk] at hr
        exact ⟨r, hr, hst⟩
      exact windowSplit_insert hk heff halong (fun j hj => hback j k hj) hR (hnew k)
        (h.window k j (hback j k hj) hpaid')

end Explained

end

/-! ## §4. Whole runs. -/

section
variable {ι : Type*} [DecidableEq ι] (env : Env)

/-- Every SQLite call succeeds.  An INSERT can still meet a primary-key
    conflict. -/
def SqliteSucceeds (s : Pool ι World Pc) : Event ι Outcome EnvEvent → Prop
  | .proc i out => callsRedis (s.proc i) = false → out = .ok
  | .env _ => True

/-- Request `j` had finished at a moment at which request `i` had not started. -/
def FinishedBefore (s : Pool ι World Pc) (evs : List (Event ι Outcome EnvEvent)) (j i : ι) :
    Prop :=
  ∃ pre post, evs = pre ++ post ∧
    (∃ reply, ((handlers env).run s pre).proc j = .done reply) ∧
    ∃ call inp, ((handlers env).run s pre).proc i = .enter call inp

variable {env} {s : Pool ι World Pc} {evs : List (Event ι Outcome EnvEvent)} {i j : ι}

/-- What is done stays done. -/
theorem done_run {reply : Reply} (h : s.proc j = .done reply) :
    ((handlers env).run s evs).proc j = .done reply := by
  refine (handlers env).run_local (P := (· = .done reply)) ?_ h evs
  intro out pc w hpc
  rw [handlers_step, hpc]
  rfl

theorem FinishedBefore.linearized (h : FinishedBefore env s evs j i) :
    linearized (((handlers env).run s evs).proc j) = true := by
  obtain ⟨pre, post, rfl, ⟨reply, hreply⟩, -⟩ := h
  rw [Machine.run_append, done_run hreply]
  rfl

/-- For a request that has started, nothing more finishes before it. -/
theorem FinishedBefore.of_concat {e : Event ι Outcome EnvEvent}
    (hstarted : Started (((handlers env).run s (evs ++ [e])).proc i))
    (h : FinishedBefore env s (evs ++ [e]) j i) : FinishedBefore env s evs j i := by
  obtain ⟨pre, post, hsplit, hj, call, inp, hi⟩ := h
  rcases List.eq_nil_or_concat post with rfl | ⟨post', x, rfl⟩
  -- at the very end `i` has started, so the moment lies before the last event
  · rw [List.append_nil] at hsplit
    rw [hsplit] at hstarted
    exact absurd hi (hstarted call inp)
  · rw [List.concat_eq_append, ← List.append_assoc] at hsplit
    exact ⟨pre, post', (List.append_inj' hsplit rfl).1, hj, call, inp, hi⟩

/-- A request that has finished was not lost on entry. -/
theorem enter_ne_lost {w : World} {jobs : ι → Job} {reply : Reply}
    (h : ((handlers env).run (initial w jobs) evs).proc i = .done reply) :
    enter env (jobs i).inp (jobs i).call ≠ .lost := by
  intro hlost
  have hstays : ((handlers env).run (initial w jobs) evs).proc i = .enter (jobs i).call (jobs i).inp
      ∨ ((handlers env).run (initial w jobs) evs).proc i = .lost := by
    refine (handlers env).run_local
      (P := fun pc => pc = .enter (jobs i).call (jobs i).inp ∨ pc = .lost) ?_ (.inl rfl) evs
    rintro out pc w (rfl | rfl)
    · exact .inr hlost
    · exact .inr rfl
  rw [h] at hstays
  rcases hstays with heq | heq <;> cases heq

/-- **The simulation**: after every run in which the SQLite calls succeed some
    order explains the table. -/
theorem explained_run (w : World) {jobs : ι → Job} (hw : ∀ i, Job.Writes (jobs i))
    (hin : ∀ i, enter env (jobs i).inp (jobs i).call ≠ .lost) :
    ∀ evs, (handlers env).RunOk SqliteSucceeds (initial w jobs) evs →
      (∀ i, Follows env (jobs i) (((handlers env).run (initial w jobs) evs).proc i)) ∧
      ∃ l, Explained (effects env jobs) (FinishedBefore env (initial w jobs) evs) w.table
        ((handlers env).run (initial w jobs) evs) l := by
  -- from the right: an event is added to a run some order explains
  refine (handlers env).run_hist ⟨fun i => .inr (.inl rfl), [], ?_⟩ ?_
  · exact ⟨.nil, fun i => by simp [initial, linearized], fun k i h => by cases h⟩
  · rintro evs e ⟨hf, l, hl⟩ - hok
    have hR : ∀ j i, Started (((handlers env).run (initial w jobs) (evs ++ [e])).proc i) →
        FinishedBefore env (initial w jobs) (evs ++ [e]) j i →
        FinishedBefore env (initial w jobs) evs j i := fun j i hi h => h.of_concat hi
    have hdone : ∀ j i, linearized (((handlers env).run (initial w jobs) evs).proc j) = false →
        ¬ FinishedBefore env (initial w jobs) evs j i := fun j i hj h => by
      rw [h.linearized] at hj
      cases hj
    rw [Machine.run_concat] at hR ⊢
    generalize (handlers env).run (initial w jobs) evs = s at hf hl hok hR hdone ⊢
    cases e with
    | env x =>
        refine ⟨hf, l, hl.silent hR ?_ (fun i => rfl) (fun i k h => .inl h)⟩
        rw [Machine.fire_env_world, handlers_env, apply_table]
    | proc i out =>
        have hother : ∀ j, j ≠ i → ((handlers env).fire s (.proc i out)).proc j = s.proc j :=
          fun j hj => Machine.fire_proc_other _ _ hj _
        have hself : ((handlers env).fire s (.proc i out)).proc i
            = (step env out (s.proc i) s.world).1 := Machine.fire_proc_self ..
        -- what the call means for the order
        obtain ⟨hstep, hf'⟩ : SerialStep (enter env (jobs i).inp (jobs i).call) (s.proc i)
            s.world.table (((handlers env).fire s (.proc i out)).proc i)
            ((handlers env).fire s (.proc i out)).world.table ∧
            Follows env (jobs i) (((handlers env).fire s (.proc i out)).proc i) := by
          rw [hself]
          cases hlin : linearized (s.proc i) with
          | true =>
              obtain ⟨hstep, hlin'⟩ :=
                serialStep_settled (enter env (jobs i).inp (jobs i).call) hlin
              exact ⟨hstep, .inl hlin'⟩
          | false => exact serialStep_pending (hw i) (hin i) hlin (hf i) hok
        refine ⟨fun j => ?_, ?_⟩
        · by_cases hj : j = i
          · exact hj ▸ hf'
          · rw [hother j hj]
            exact hf j
        · cases hstep with
          | silent table lin window =>
              refine ⟨l, hl.silent hR table (fun j => ?_) (fun j k hjk => ?_)⟩
              · by_cases hj : j = i
                · exact hj ▸ lin
                · rw [hother j hj]
              · by_cases hj : j = i
                · subst hj; exact window k hjk
                · rw [hother j hj] at hjk
                  exact .inl hjk
          | commit before after table =>
              exact ⟨l ++ [i], hl.commit hR hdone hother before after table⟩
          | overwrite o n before after window at_entry row table =>
              exact hl.overwrite hR hdone hother before after window at_entry row table

end

/-! ## §5. One at a time. -/

section
variable (env : Env)

/-- A call of a handler nobody interrupts. -/
def alone (x : Pc × World) : Pc × World := step env .ok x.1 x.2

theorem alone_done (reply : Reply) (w : World) (n : Nat) :
    (alone env)^[n] (.done reply, w) = (.done reply, w) :=
  Function.iterate_fixed rfl n

/-- Alone, a writing request is done five calls after its entry and has had its
    effect. -/
theorem alone_effect {job : Job} (hw : Job.Writes job)
    (hin : enter env job.inp job.call ≠ .lost) (w : World) :
    ∃ reply w', (alone env)^[6] (.enter job.call job.inp, w) = (.done reply, w') ∧
      w'.table = effect env job w.table := by
  rw [Function.iterate_succ_apply]
  simp only [alone, step, effect]
  rcases enter_cases env hw hin with ⟨o, a, c, he⟩ | ⟨o, n, he⟩ | ⟨o, he⟩ | ⟨reply, he⟩ <;> rw [he]
  · -- create_order: INSERT, then SET
    rw [Function.iterate_succ_apply, Function.iterate_succ_apply]
    cases hi : w.table.insertOrder (cStr o) a c with
    | none =>
        simp only [alone, step, prepare, hi]
        exact ⟨_, _, alone_done .., by simp [effectOf, hi, recordSqliteFailure]⟩
    | some t =>
        simp only [alone, step, prepare, hi]
        rw [Function.iterate_succ_apply]
        exact ⟨_, _, alone_done .., (redisWrite_table _ _ _ _ rfl).trans (by simp [effectOf, hi])⟩
  · -- pay_order: SELECT, and for an unpaid row UPDATE, then DEL
    rw [Function.iterate_succ_apply, Function.iterate_succ_apply]
    cases hr : w.table.find (cStr o) with
    | none =>
        simp only [alone, step, prepare, hr]
        exact ⟨_, _, alone_done .., (effectOf_pay_absent hr).symm⟩
    | some r =>
        by_cases hst : r.status = "PAID"
        · simp only [alone, step, prepare, hr, hst, if_true]
          exact ⟨_, _, alone_done .., (effectOf_pay_paid ⟨r, hr, hst⟩).symm⟩
        · simp only [alone, step, prepare, hr, hst, if_false]
          exact ⟨_, _, rfl, (redisWrite_table _ _ _ _ rfl).trans
            (effectOf_pay_unpaid ⟨r, hr, hst⟩).symm⟩
  · -- delete_order: DELETE, `sqlite3_changes`, then DEL
    rw [Function.iterate_succ_apply, Function.iterate_succ_apply, Function.iterate_succ_apply]
    by_cases hc : w.table.count (cStr o) = 0
    · simp only [alone, step, prepare, hc, if_true]
      exact ⟨_, _, alone_done .., rfl⟩
    · simp only [alone, step, prepare, hc, if_false]
      rw [Function.iterate_succ_apply]
      exact ⟨_, _, alone_done .., redisWrite_table _ _ _ _ rfl⟩
  · exact ⟨_, _, alone_done .., rfl⟩

variable {ι : Type*} [DecidableEq ι]

/-- The requests of a list one at a time, each to completion. -/
def oneAtATime (order : List ι) : List (Event ι Outcome EnvEvent) :=
  order.flatMap fun i => schedule (List.replicate 6 i)

/-- A stretch in which only request `i` moves. -/
theorem run_alone (n : Nat) (i : ι) (s : Pool ι World Pc) :
    ((handlers env).run s (schedule (List.replicate n i))).proc i
        = ((alone env)^[n] (s.proc i, s.world)).1 ∧
      ((handlers env).run s (schedule (List.replicate n i))).world
        = ((alone env)^[n] (s.proc i, s.world)).2 ∧
      ∀ j, j ≠ i → ((handlers env).run s (schedule (List.replicate n i))).proc j = s.proc j := by
  induction n generalizing s with
  | zero => exact ⟨rfl, rfl, fun j _ => rfl⟩
  | succ n ih =>
      obtain ⟨hp, hwd, ho⟩ := ih ((handlers env).fire s (.proc i .ok))
      rw [Machine.fire_proc_self, Machine.fire_proc_world, handlers_step] at hp hwd
      refine ⟨hp, hwd, fun j hj => (ho j hj).trans (Machine.fire_proc_other _ _ hj _)⟩

/-- Run one at a time, the requests have their effects in that order, and all of
    them finish. -/
theorem run_oneAtATime {jobs : ι → Job} (hw : ∀ i, Job.Writes (jobs i))
    (hin : ∀ i, enter env (jobs i).inp (jobs i).call ≠ .lost) (order : List ι) :
    ∀ s : Pool ι World Pc, order.Nodup →
      (∀ i ∈ order, s.proc i = .enter (jobs i).call (jobs i).inp) →
      ((handlers env).run s (oneAtATime order)).world.table
          = replay (effects env jobs) s.world.table order ∧
        ∀ i ∈ order, ∃ reply, ((handlers env).run s (oneAtATime order)).proc i = .done reply := by
  induction order with
  | nil => intro s _ _; exact ⟨rfl, fun i hi => by cases hi⟩
  | cons i order ih =>
      intro s hnodup henter
      obtain ⟨hi, hnodup'⟩ := List.nodup_cons.mp hnodup
      -- the first request runs to completion; then the induction hypothesis
      obtain ⟨hp, hwd, ho⟩ := run_alone env 6 i s
      obtain ⟨reply, w', hrun, htable⟩ := alone_effect env (hw i) (hin i) s.world
      rw [henter i List.mem_cons_self, hrun] at hp hwd
      have hrest : ∀ j ∈ order, ((handlers env).run s (schedule (List.replicate 6 i))).proc j
          = .enter (jobs j).call (jobs j).inp := fun j hj => by
        have hji : j ≠ i := fun he => hi (he ▸ hj)
        rw [ho j hji]
        exact henter j (List.mem_cons_of_mem _ hj)
      obtain ⟨htable', hdone⟩ := ih _ hnodup' hrest
      rw [show oneAtATime (i :: order) = schedule (List.replicate 6 i) ++ oneAtATime order from
        List.flatMap_cons, Machine.run_append]
      refine ⟨?_, fun j hj => ?_⟩
      · rw [htable', hwd, htable]
        rfl
      · rcases List.mem_cons.mp hj with rfl | hj
        · exact ⟨reply, done_run hp⟩
        · exact hdone j hj

/-- **The table is state-serializable.**  Whatever the interleaving of the calls
    of the writing requests, the table they leave is the one they leave when run
    one at a time in some order that respects real time. -/
theorem orders_table_serializable (w : World) (jobs : ι → Job) (hw : ∀ i, Job.Writes (jobs i))
    (evs : List (Event ι Outcome EnvEvent))
    (hok : (handlers env).RunOk SqliteSucceeds (initial w jobs) evs)
    (hdone : ∀ i, ∃ reply, ((handlers env).run (initial w jobs) evs).proc i = .done reply) :
    ∃ order : List ι, order.Nodup ∧ (∀ i, i ∈ order) ∧
      order.Pairwise (fun i j => ¬ FinishedBefore env (initial w jobs) evs j i) ∧
      (∀ i, ∃ reply,
        ((handlers env).run (initial w jobs) (oneAtATime order)).proc i = .done reply) ∧
      ((handlers env).run (initial w jobs) (oneAtATime order)).world.table
        = ((handlers env).run (initial w jobs) evs).world.table := by
  have hin : ∀ i, enter env (jobs i).inp (jobs i).call ≠ .lost := fun i => by
    obtain ⟨reply, hreply⟩ := hdone i
    exact enter_ne_lost hreply
  obtain ⟨-, order, hexp⟩ := explained_run w hw hin evs hok
  -- all have finished, so all have their place
  have hmem : ∀ i, i ∈ order := fun i => by
    obtain ⟨reply, hreply⟩ := hdone i
    rw [hexp.mem, hreply]
    rfl
  obtain ⟨htable, hfinish⟩ :=
    run_oneAtATime env hw hin order (initial w jobs) hexp.serial.nodup fun i _ => rfl
  refine ⟨order, hexp.serial.nodup, hmem, hexp.serial.order, fun i => hfinish i (hmem i), ?_⟩
  rw [htable]
  exact hexp.serial.replay_eq

/-- Two payments that overlap. -/
theorem orders_table_serializable_overlapping :
    ∃ order : List (Fin 3), order.Nodup ∧ (∀ i, i ∈ order) ∧
      order.Pairwise (fun i j =>
        ¬ FinishedBefore sampleEnv (initial {} twoPayments) paymentsOverlapping j i) ∧
      (∀ i, ∃ reply, ((handlers sampleEnv).run (initial {} twoPayments)
        (oneAtATime order)).proc i = .done reply) ∧
      ((handlers sampleEnv).run (initial {} twoPayments) (oneAtATime order)).world.table
        = ((handlers sampleEnv).run (initial {} twoPayments) paymentsOverlapping).world.table := by
  refine orders_table_serializable sampleEnv {} twoPayments (fun i => ?_) paymentsOverlapping
    ((schedule_succeeds sampleEnv _ _).mono _ fun s e h => ?_) (fun i => ?_)
  · match i with
    | 0 => exact .inl ⟨_, rfl⟩
    | 1 => exact .inr (.inl ⟨_, rfl⟩)
    | 2 => exact .inr (.inl ⟨_, rfl⟩)
  · cases e with
    | proc i out => exact fun _ => h
    | env x => trivial
  · match i with
    | 0 => exact ⟨_, rfl⟩
    | 1 => exact ⟨_, rfl⟩
    | 2 => exact ⟨_, rfl⟩

end

end OrderApi.Orders
