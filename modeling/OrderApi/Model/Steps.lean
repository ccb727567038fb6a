/-
  OrderApi.Model.Steps
  ────────────────────
  **WHAT ONE CALL CAN DO.**

  `step` has a branch for every program point; the results about runs need only
  a few views of it, and they are stated here once:

    • `step_table`   the effect on `orders` and on `sqlite3_changes`: none, or
                     that of the INSERT, UPDATE or DELETE of the point;
    • `step_cache`   the effect on Redis: none, or the SET or DEL of the point;
    • `*_step`       where a handler can be after a call, one lemma for each
                     stretch of program points an invariant speaks about;
    • `step_frame`   what no call touches.

  Above this module `step` is unfolded only at the points of the one handler a
  result is about.
-/
import OrderApi.Model.Handlers

namespace OrderApi.Model

open OrderApi.Lib
open OrderApi.Crow

/-! ## §1. Stretches of program points. -/

/-- The key of a `pay_order` that has read an unpaid row and has not executed
    its UPDATE yet. -/
def Pc.payWindow : Pc → Option String
  | .updatePrepare o _ _ _ => some (cStr o)
  | .updateStep o _ _ _ => some (cStr o)
  | _ => none

/-- The key of a `pay_order` past the check of its body. -/
def Pc.payTarget : Pc → Option String
  | .payPrepare o _ => some (cStr o)
  | .payStep o _ => some (cStr o)
  | .updatePrepare o _ _ _ => some (cStr o)
  | .updateStep o _ _ _ => some (cStr o)
  | .payInvalidate o _ _ _ => some (cStr o)
  | _ => none

/-- The order number of a request whose next call is a cache invalidation. -/
def Pc.invalidates : Pc → Option String
  | .payInvalidate o _ _ _ => some o
  | .deleteInvalidate o => some o
  | _ => none

theorem inProgress_of_invalidates {pc : Pc} {o : String} (h : pc.invalidates = some o) :
    pc.inProgress = true := by
  cases pc <;> first | rfl | simp [Pc.invalidates] at h

/-- The points right behind the three writing statements. -/
def Pc.wrote : Pc → Bool
  | .createCache .. => true
  | .payInvalidate .. => true
  | .deleteChanges _ => true
  | _ => false

/-- The points at which one of the three writing statements is stepped. -/
def Pc.writes : Pc → Bool
  | .insertStep .. => true
  | .updateStep .. => true
  | .deleteStep _ => true
  | _ => false

/-- There is a row under the key `k`. -/
def HasRow {ι : Type*} (k : String) (s : Pool ι World Pc) : Prop := Present k s.world.table

instance {ι : Type*} (k : String) (s : Pool ι World Pc) : Decidable (HasRow k s) :=
  inferInstanceAs (Decidable (_ = true))

/-! ## §2. The table. -/

/-- What a call does to the table: nothing, or one of the three writes; the
    points behind a write are reached by that write alone. -/
inductive TableEffect (out : Outcome) (pc : Pc) (w : World) (pc' : Pc) (w' : World) : Prop where
  | keep (table : w'.table = w.table) (changes : w'.changes = w.changes)
      (next : pc'.wrote = false)
  | failed (at_ : pc.writes = true) (table : w'.table = w.table) (changes : w'.changes = 0)
      (next : pc'.wrote = false)
  | insert (o : String) (amount : Double) (now : Int)
      (at_ : pc = .insertStep o amount now) (ok : out = .ok)
      (next : pc' = .createCache o amount now)
      (table : w.table.insertOrder (cStr o) amount now = some w'.table)
      (changes : w'.changes = 1)
  | update (o : String) (amount : Double) (createdAt now : Int)
      (at_ : pc = .updateStep o amount createdAt now) (ok : out = .ok)
      (next : pc' = .payInvalidate o amount createdAt now)
      (table : w'.table = w.table.updatePaid (cStr o) now)
      (changes : w'.changes = w.table.count (cStr o))
  | delete (o : String)
      (at_ : pc = .deleteStep o) (ok : out = .ok)
      (next : pc' = .deleteChanges o)
      (table : w'.table = w.table.deleteOrder (cStr o))
      (changes : w'.changes = w.table.count (cStr o))

section
variable (env : Env) (out : Outcome)

/-- The counters that only the code around the handlers writes. -/
def outerMetrics (m : Metrics) : Metrics :=
  { m with
    ordersCreated := 0, ordersPaid := 0, cacheHits := 0, cacheMisses := 0
    redisErrors := 0, sqliteErrors := 0 }

/-- `g` looks at nothing that the error and cache records write: the counters of
    events and the availability flag. -/
def Unrecorded {α : Type} (g : World → α) : Prop :=
  ∀ (w : World) (m : Metrics) (avail : Bool), outerMetrics m = outerMetrics w.metrics →
    g { w with metrics := m, redisAvailable := avail } = g w

/-- A part of the world that a writing Redis command leaves alone, with the
    records around it. -/
theorem redisWrite_frame {α : Type} (g : World → α)
    (hsuccess : ∀ w, g (recordRedisSuccess w) = g w)
    (hfailure : ∀ w, g (recordRedisFailure w) = g w)
    {f : World → World} {w : World} (hf : g (f w) = g w) : g (redisWrite env out f w) = g w := by
  unfold redisWrite
  split
  · cases out with
    | ok => exact (hsuccess _).trans hf
    | fail applied =>
        -- the server may have executed the command before the error
        refine (hfailure _).trans ?_
        cases applied with
        | true => exact hf
        | false => rfl
  · exact hfailure w

theorem redisWrite_unrecorded {α : Type} {g : World → α} (hg : Unrecorded g) {f : World → World}
    {w : World} (hf : g (f w) = g w) : g (redisWrite env out f w) = g w :=
  redisWrite_frame env out g (fun w => hg w w.metrics true rfl)
    (fun w => hg w { w.metrics with redisErrors := inc32 w.metrics.redisErrors } false rfl) hf

theorem redisWrite_table (f : World → World) (w : World) (hf : (f w).table = w.table) :
    (redisWrite env out f w).table = w.table :=
  redisWrite_unrecorded env out (g := World.table) (fun _ _ _ _ => rfl) hf

theorem redisWrite_changes (f : World → World) (w : World) (hf : (f w).changes = w.changes) :
    (redisWrite env out f w).changes = w.changes :=
  redisWrite_unrecorded env out (g := World.changes) (fun _ _ _ _ => rfl) hf

/-- A failed prepare is recorded among the errors only. -/
theorem prepare_unrecorded {α : Type} {g : World → α} (hg : Unrecorded g) (next : Pc) (w : World) :
    g (prepare env out next w).2 = g w := by
  cases out with
  | ok => rfl
  | fail applied =>
      exact hg w { w.metrics with sqliteErrors := inc32 w.metrics.sqliteErrors }
        w.redisAvailable rfl

/-- A lookup in the cache is recorded among the counters only. -/
theorem tryGetCachedOrder_unrecorded {α : Type} {g : World → α} (hg : Unrecorded g) (o : String)
    (w : World) : g (tryGetCachedOrder env out o w).2 = g w := by
  unfold tryGetCachedOrder
  split
  · cases out with
    | ok =>
        dsimp only
        split
        · exact hg w { w.metrics with cacheHits := inc32 w.metrics.cacheHits } true rfl
        · exact hg w { w.metrics with cacheMisses := inc32 w.metrics.cacheMisses } true rfl
    | fail applied =>
        exact hg w { w.metrics with
          cacheMisses := inc32 w.metrics.cacheMisses
          redisErrors := inc32 w.metrics.redisErrors } false rfl
  · exact hg w { w.metrics with redisErrors := inc32 w.metrics.redisErrors } false rfl

theorem prepare_table (next : Pc) (w : World) : (prepare env out next w).2.table = w.table :=
  prepare_unrecorded env out (g := World.table) (fun _ _ _ _ => rfl) next w

theorem prepare_changes (next : Pc) (w : World) :
    (prepare env out next w).2.changes = w.changes :=
  prepare_unrecorded env out (g := World.changes) (fun _ _ _ _ => rfl) next w

/-- After a prepare the handler is at the step, or done with a 500. -/
theorem prepare_fst (next : Pc) (w : World) :
    (prepare env out next w).1 = next ∨
      (prepare env out next w).1 = .done (errorReply env 500 "Internal DB error") := by
  cases out
  · exact .inl rfl
  · exact .inr rfl

theorem prepare_wrote {next : Pc} (h : next.wrote = false) (w : World) :
    (prepare env out next w).1.wrote = false := by
  cases out
  · exact h
  · rfl

theorem enter_wrote (inp : Inputs) (call : OrderCall) : (enter env inp call).wrote = false := by
  cases call <;> simp only [enter] <;> (try split) <;> first | rfl | (cases ‹Early› <;> rfl)

theorem tryGetCachedOrder_table (o : String) (w : World) :
    (tryGetCachedOrder env out o w).2.table = w.table :=
  tryGetCachedOrder_unrecorded env out (g := World.table) (fun _ _ _ _ => rfl) o w

/-- **The table view of `step`.** -/
theorem step_table (pc : Pc) (w : World) :
    TableEffect out pc w (step env out pc w).1 (step env out pc w).2 := by
  cases pc with
  | enter call inp => exact .keep rfl rfl (enter_wrote ..)
  | insertPrepare o a c =>
      exact .keep (prepare_table ..) (prepare_changes ..) (prepare_wrote _ _ rfl _)
  | insertStep o a c =>
      cases out with
      | fail applied => exact .failed rfl rfl rfl rfl
      | ok =>
          -- a primary-key conflict leaves the table alone
          cases hi : w.table.insertOrder (cStr o) a c with
          | none => simp only [step, hi]; exact .failed rfl rfl rfl rfl
          | some t => simp only [step, hi]; exact .insert o a c rfl rfl rfl hi rfl
  | createCache o a c =>
      exact .keep (redisWrite_table _ _ _ _ rfl) (redisWrite_changes _ _ _ _ rfl) rfl
  | getCache o =>
      have htable := tryGetCachedOrder_table env out o w
      have hchanges : (tryGetCachedOrder env out o w).2.changes = w.changes :=
        tryGetCachedOrder_unrecorded env out (g := World.changes) (fun _ _ _ _ => rfl) o w
      simp only [step]
      split <;> simp_all only <;> exact .keep htable hchanges rfl
  | getPrepare o =>
      exact .keep (prepare_table ..) (prepare_changes ..) (prepare_wrote _ _ rfl _)
  | getStep o => simp only [step]; split <;> exact .keep rfl rfl rfl
  | payPrepare o n =>
      exact .keep (prepare_table ..) (prepare_changes ..) (prepare_wrote _ _ rfl _)
  | payStep o n =>
      simp only [step]
      split
      · split <;> exact .keep rfl rfl rfl
      · exact .keep rfl rfl rfl
  | updatePrepare o a c n =>
      exact .keep (prepare_table ..) (prepare_changes ..) (prepare_wrote _ _ rfl _)
  | updateStep o a c n =>
      cases out with
      | fail applied => exact .failed rfl rfl rfl rfl
      | ok => exact .update o a c n rfl rfl rfl rfl rfl
  | payInvalidate o a c n =>
      exact .keep (redisWrite_table _ _ _ _ rfl) (redisWrite_changes _ _ _ _ rfl) rfl
  | listPrepare q =>
      exact .keep (prepare_table ..) (prepare_changes ..) (prepare_wrote _ _ rfl _)
  | listStep q cur arr => simp only [step]; split <;> exact .keep rfl rfl rfl
  | deletePrepare o =>
      exact .keep (prepare_table ..) (prepare_changes ..) (prepare_wrote _ _ rfl _)
  | deleteStep o =>
      cases out with
      | fail applied => exact .failed rfl rfl rfl rfl
      | ok => exact .delete o rfl rfl rfl rfl rfl
  | deleteChanges o => simp only [step]; split <;> exact .keep rfl rfl rfl
  | deleteInvalidate o =>
      exact .keep (redisWrite_table _ _ _ _ rfl) (redisWrite_changes _ _ _ _ rfl) rfl
  | done reply => exact .keep rfl rfl rfl
  | lost => exact .keep rfl rfl rfl

@[simp] theorem handlers_step : (handlers env).step = step env := rfl

@[simp] theorem handlers_env : (handlers env).env = EnvEvent.apply := rfl

@[simp] theorem jsonReply_answer (v : WValue) :
    (Pc.done (jsonReply env v)).answer = some 200 := rfl

@[simp] theorem errorReply_answer (code : Int) (message : String) :
    (Pc.done (errorReply env code message)).answer = some code := rfl

/-- In a `schedule` every call succeeds. -/
theorem schedule_succeeds {ι : Type*} [DecidableEq ι] (order : List ι) :
    ∀ s : Pool ι World Pc, (handlers env).RunOk CallsSucceed s (schedule order) := by
  induction order with
  | nil => intro s; trivial
  | cons i order ih => intro s; exact ⟨rfl, ih _⟩

/-- The environment does not touch the table. -/
@[simp] theorem apply_table (x : EnvEvent) (w : World) : (x.apply w).table = w.table := by
  cases x <;> rfl

@[simp] theorem apply_changes (x : EnvEvent) (w : World) : (x.apply w).changes = w.changes := by
  cases x <;> rfl

/-- What a call does to the row stored under one key. -/
inductive RowEffect (out : Outcome) (pc : Pc) (w : World) (pc' : Pc) (k : String)
    (after : Option Row) : Prop where
  | keep (row : after = w.table.find k)
  | insert (o : String) (amount : Double) (now : Int) (r : Row)
      (at_ : pc = .insertStep o amount now) (key : cStr o = k)
      (next : pc' = .createCache o amount now) (fresh : w.table.find k = none)
      (row : after = some r) (amount_eq : r.amount = amount) (status : r.status = "PENDING")
      (createdAt : r.createdAt = now) (paidAt : r.paidAt = 0)
  | update (o : String) (amount : Double) (createdAt now : Int)
      (at_ : pc = .updateStep o amount createdAt now) (key : cStr o = k) (ok : out = .ok)
      (next : pc' = .payInvalidate o amount createdAt now)
      (row : after = (w.table.find k).map (Table.markPaid now))
  | delete (o : String) (at_ : pc = .deleteStep o) (key : cStr o = k) (ok : out = .ok)
      (next : pc' = .deleteChanges o) (row : after = none)

/-- **The row view of `step`.** -/
theorem step_row (pc : Pc) (w : World) (k : String) :
    RowEffect out pc w (step env out pc w).1 k ((step env out pc w).2.table.find k) := by
  cases step_table env out pc w with
  | keep table changes next => exact .keep (by rw [table])
  | failed at_ table changes next => exact .keep (by rw [table])
  | insert o a c at_ ok next table changes =>
      by_cases hk : cStr o = k
      · subst hk
        exact .insert o a c _ at_ rfl next (Table.find_none_of_insertOrder table)
          (by rw [Table.find_insertOrder table, if_pos rfl]) rfl rfl rfl rfl
      · exact .keep (by rw [Table.find_insertOrder table, if_neg hk])
  | update o a c n at_ ok next table changes =>
      by_cases hk : k = cStr o
      · subst hk
        exact .update o a c n at_ rfl ok next (by rw [table, Table.find_updatePaid, if_pos rfl])
      · exact .keep (by rw [table, Table.find_updatePaid, if_neg hk])
  | delete o at_ ok next table changes =>
      by_cases hk : k = cStr o
      · subst hk
        exact .delete o at_ rfl ok next (by rw [table, Table.find_deleteOrder, if_pos rfl])
      · exact .keep (by rw [table, Table.find_deleteOrder, if_neg hk])

/-! ## §3. Past the entry. -/

/-- The handler has been entered and is not lost. -/
def Pc.past : Pc → Bool
  | .enter _ _ => false
  | .lost => false
  | _ => true

theorem enter_past {inp : Inputs} {call : OrderCall} (h : enter env inp call ≠ .lost) :
    (enter env inp call).past = true := by
  cases call <;> simp only [enter] at h ⊢ <;> (try split at h) <;>
    first | rfl | (cases ‹Early› <;> first | rfl | exact absurd rfl h)

theorem prepare_past {next : Pc} (h : next.past = true) (w : World) :
    (prepare env out next w).1.past = true := by
  cases out
  · exact h
  · rfl

/-- A handler can only be lost on entry. -/
theorem past_step {pc : Pc} (h : pc.past = true) (w : World) :
    (step env out pc w).1.past = true := by
  cases pc with
  | enter call inp => cases h
  | lost => cases h
  | insertPrepare o a c => exact prepare_past env out rfl w
  | getPrepare o => exact prepare_past env out rfl w
  | payPrepare o n => exact prepare_past env out rfl w
  | updatePrepare o a c n => exact prepare_past env out rfl w
  | listPrepare q => exact prepare_past env out rfl w
  | deletePrepare o => exact prepare_past env out rfl w
  | payStep o n =>
      simp only [step]
      split
      · split <;> rfl
      · rfl
  | createCache o a c => rfl
  | payInvalidate o a c n => rfl
  | deleteInvalidate o => rfl
  | done reply => rfl
  | _ => simp only [step]; split <;> rfl

/-! ## §4. `pay_order` between its SELECT and its UPDATE. -/

/-- The window is entered only by a SELECT that finds the row unpaid. -/
theorem payWindow_step {pc : Pc} {w : World} {k : String}
    (h : (step env out pc w).1.payWindow = some k) :
    pc.payWindow = some k ∨
      (pc.payTarget = some k ∧ (step env out pc w).2 = w ∧
        ∃ r, w.table.find k = some r ∧ r.status ≠ "PAID") := by
  cases pc with
  | enter call inp =>
      exfalso
      cases call <;> simp only [step, enter] at h <;> (try split at h) <;>
        (try cases ‹Early›) <;> simp [Early.pc, Pc.payWindow] at h
  | payStep o n =>
      -- the only entrance
      simp only [step] at h ⊢
      split at h
      · next r hr =>
          split at h
          · simp [Pc.payWindow] at h
          · next hne =>
              simp only [Pc.payWindow, Option.some.injEq] at h
              subst h
              right
              simp [hr, hne, Pc.payTarget]
      · simp [Pc.payWindow] at h
  | updatePrepare o a c n =>
      left
      rcases prepare_fst env out (.updateStep o a c n) w with hp | hp
      · simpa [step, hp, Pc.payWindow] using h
      · simp [step, hp, Pc.payWindow] at h
  -- the UPDATE leaves the window, whether it succeeds or not
  | updateStep o a c n =>
      cases out <;> simp [step, Pc.payWindow] at h
  | insertPrepare o a c =>
      rcases prepare_fst env out (.insertStep o a c) w with hp | hp <;>
        simp [step, hp, Pc.payWindow] at h
  | getPrepare o =>
      rcases prepare_fst env out (.getStep o) w with hp | hp <;>
        simp [step, hp, Pc.payWindow] at h
  | payPrepare o n =>
      rcases prepare_fst env out (.payStep o n) w with hp | hp <;>
        simp [step, hp, Pc.payWindow] at h
  | listPrepare q =>
      rcases prepare_fst env out (.listStep q 0 []) w with hp | hp <;>
        simp [step, hp, Pc.payWindow] at h
  | deletePrepare o =>
      rcases prepare_fst env out (.deleteStep o) w with hp | hp <;>
        simp [step, hp, Pc.payWindow] at h
  | _ =>
      exfalso
      simp only [step] at h
      (try split at h) <;> simp [Pc.payWindow] at h

/-- A `pay_order` settles on 200 at its UPDATE and nowhere else. -/
theorem pay_answer_step {pc : Pc} {w : World} {k : String} (hk : pc.payTarget = some k)
    (hbefore : pc.answer = none) (hafter : (step env out pc w).1.answer = some 200) :
    out = .ok ∧ ∃ o a c n, pc = .updateStep o a c n ∧ cStr o = k := by
  cases pc with
  | payPrepare o n =>
      rcases prepare_fst env out (.payStep o n) w with hp | hp <;>
        simp [step, hp, Pc.answer, errorReply] at hafter
  | payStep o n =>
      simp only [step] at hafter
      split at hafter
      · split at hafter <;> simp [Pc.answer, errorReply] at hafter
      · simp [Pc.answer, errorReply] at hafter
  | updatePrepare o a c n =>
      rcases prepare_fst env out (.updateStep o a c n) w with hp | hp <;>
        simp [step, hp, Pc.answer, errorReply] at hafter
  | updateStep o a c n =>
      cases out with
      | ok => exact ⟨rfl, o, a, c, n, rfl, by simpa [Pc.payTarget] using hk⟩
      | fail applied => simp [step, Pc.answer, errorReply] at hafter
  -- the answer is settled before the cache is invalidated
  | payInvalidate o a c n => simp [Pc.answer] at hbefore
  | _ => simp [Pc.payTarget] at hk

/-! ## §5. The order number of a request. -/

/-- The order number a handler past its entry works with. -/
def Pc.orderNo : Pc → Option String
  | .insertPrepare o _ _ => some o
  | .insertStep o _ _ => some o
  | .createCache o _ _ => some o
  | .getCache o => some o
  | .getPrepare o => some o
  | .getStep o => some o
  | .payPrepare o _ => some o
  | .payStep o _ => some o
  | .updatePrepare o _ _ _ => some o
  | .updateStep o _ _ _ => some o
  | .payInvalidate o _ _ _ => some o
  | .deletePrepare o => some o
  | .deleteStep o => some o
  | .deleteChanges o => some o
  | .deleteInvalidate o => some o
  | _ => none

/-- A request that has ended early works with none. -/
@[simp] theorem early_orderNo (early : Early) : early.pc.orderNo = none := by
  cases early <;> rfl

/-- The order number of a request, entered or not. -/
def Pc.names : Pc → Option String
  | .enter call inp => (Model.enter env inp call).orderNo
  | pc => pc.orderNo

theorem prepare_names (next : Pc) {w : World} {o : String}
    (h : (prepare env out next w).1.names env = some o) : next.names env = some o := by
  cases out with
  | ok => exact h
  | fail applied => simp [prepare, Pc.names, Pc.orderNo] at h

/-- A request keeps its order number. -/
theorem names_step {pc : Pc} {w : World} {o : String}
    (h : (step env out pc w).1.names env = some o) : pc.names env = some o := by
  cases pc with
  | enter call inp =>
      simp only [step] at h
      show (enter env inp call).orderNo = some o
      cases hpc : enter env inp call with
      | enter call' inp' =>
          cases call <;> simp only [enter] at hpc <;> (try split at hpc) <;>
            (try cases ‹Early›) <;> cases hpc
      | _ => simpa [hpc, Pc.names] using h
  | insertPrepare o' a c => exact prepare_names env out (.insertStep o' a c) h
  | getPrepare o' => exact prepare_names env out (.getStep o') h
  | payPrepare o' n => exact prepare_names env out (.payStep o' n) h
  | updatePrepare o' a c n => exact prepare_names env out (.updateStep o' a c n) h
  | listPrepare q => exact prepare_names env out (.listStep q 0 []) h
  | deletePrepare o' => exact prepare_names env out (.deleteStep o') h
  | payStep o' n =>
      simp only [step] at h
      split at h
      · split at h
        · simp [Pc.names, Pc.orderNo] at h
        · exact h
      · simp [Pc.names, Pc.orderNo] at h
  | createCache o' a c => simp [step, Pc.names, Pc.orderNo] at h
  | payInvalidate o' a c n => simp [step, Pc.names, Pc.orderNo] at h
  | deleteInvalidate o' => simp [step, Pc.names, Pc.orderNo] at h
  | done reply => exact h
  | lost => exact h
  | _ =>
      simp only [step] at h
      split at h
      all_goals first | exact h | simp [Pc.names, Pc.orderNo] at h

/-! ## §6. Redis. -/

/-- What a call does to the keys of the server: nothing, the SET of a
    `create_order`, or the DEL of a `pay_order` or `delete_order`. -/
inductive CacheEffect (pc : Pc) (w w' : World) : Prop where
  | keep (cache : w'.cache = w.cache)
      (quiet : env.redis = true → out = .ok → pc.invalidates = none)
  | set (o : String) (amount : Double) (now : Int)
      (at_ : pc = .createCache o amount now)
      (cache : w'.cache = Function.update w.cache (cacheKey o)
        (some ⟨env.dump (createdJson env o amount now), w.clock + env.cacheTtlSeconds * 1000⟩))
  | del (o : String) (at_ : pc.invalidates = some o)
      (cache : w'.cache = Function.update w.cache (cacheKey o) none)

/-- A writing command is executed or not, and surely if it succeeds. -/
theorem redisWrite_cache (f : World → World) (w : World) :
    (redisWrite env out f w).cache = (f w).cache ∨
      ((redisWrite env out f w).cache = w.cache ∧ ¬ (env.redis = true ∧ out = .ok)) := by
  unfold redisWrite
  split
  · cases out with
    | ok => exact .inl rfl
    | fail applied =>
        cases applied with
        | true => exact .inl rfl
        | false => exact .inr ⟨rfl, by simp⟩
  · next h => exact .inr ⟨rfl, fun hr => h hr.1⟩

theorem prepare_cache (next : Pc) (w : World) : (prepare env out next w).2.cache = w.cache :=
  prepare_unrecorded env out (g := World.cache) (fun _ _ _ _ => rfl) next w

/-- The two invalidating points do the same thing. -/
theorem invalidate_effect {pc : Pc} {o : String} {w : World} (h : pc.invalidates = some o) :
    CacheEffect env out pc w (invalidateCachedOrder env out o w) := by
  rcases redisWrite_cache env out (World.redisDel o) w with hc | ⟨hc, hno⟩
  · exact .del o h hc
  · exact .keep hc fun hr hok => absurd ⟨hr, hok⟩ hno

/-- **The Redis view of `step`.** -/
theorem step_cache (pc : Pc) (w : World) :
    CacheEffect env out pc w (step env out pc w).2 := by
  cases pc with
  -- without Redis, or with an error on the way, the SET may not have happened
  | createCache o a c =>
      rcases redisWrite_cache env out
        (World.redisSet env o (env.dump (createdJson env o a c))) w with hc | ⟨hc, hno⟩
      · exact .set o a c rfl hc
      · exact .keep hc fun _ _ => rfl
  | payInvalidate o a c n => exact invalidate_effect env out rfl
  | deleteInvalidate o => exact invalidate_effect env out rfl
  | getCache o =>
      have hcache : (tryGetCachedOrder env out o w).2.cache = w.cache :=
        tryGetCachedOrder_unrecorded env out (g := World.cache) (fun _ _ _ _ => rfl) o w
      simp only [step]
      split <;> simp_all only <;> exact .keep hcache fun _ _ => rfl
  | insertPrepare o a c => exact .keep (prepare_cache ..) fun _ _ => rfl
  | getPrepare o => exact .keep (prepare_cache ..) fun _ _ => rfl
  | payPrepare o n => exact .keep (prepare_cache ..) fun _ _ => rfl
  | updatePrepare o a c n => exact .keep (prepare_cache ..) fun _ _ => rfl
  | listPrepare q => exact .keep (prepare_cache ..) fun _ _ => rfl
  | deletePrepare o => exact .keep (prepare_cache ..) fun _ _ => rfl
  | payStep o n =>
      simp only [step]
      split
      · split <;> exact .keep rfl fun _ _ => rfl
      · exact .keep rfl fun _ _ => rfl
  | enter call inp => exact .keep rfl fun _ _ => rfl
  | done reply => exact .keep rfl fun _ _ => rfl
  | lost => exact .keep rfl fun _ _ => rfl
  | _ => simp only [step]; split <;> exact .keep rfl fun _ _ => rfl

/-! ## §7. What no call touches. -/

/-- **The frame of `step`**: what looks neither at the records nor at the table and
    the cache is the same after every call. -/
theorem step_frame {α : Type} {g : World → α} (hg : Unrecorded g)
    (hdata : ∀ (w : World) (t : Table) (n : Nat) (c : Cache),
      g { w with table := t, changes := n, cache := c } = g w) (pc : Pc) (w : World) :
    g (step env out pc w).2 = g w := by
  have hprepare : ∀ next, g (prepare env out next w).2 = g w := by
    intro next
    exact prepare_unrecorded env out hg next w
  have hwrite : ∀ (o : String) (x : Option Entry), g (redisWrite env out
      (fun w => { w with cache := Function.update w.cache (cacheKey o) x }) w) = g w := by
    intro o x
    exact redisWrite_unrecorded env out hg (hdata w w.table w.changes _)
  -- a statement that counts an event
  have hcounted : ∀ (t : Table) (n : Nat) (m : Metrics),
      outerMetrics m = outerMetrics w.metrics →
        g { w with table := t, changes := n, metrics := m } = g w := by
    intro t n m hm
    exact (hg { w with table := t, changes := n } m w.redisAvailable hm).trans (hdata w t n w.cache)
  have hfailed : g (recordSqliteFailure w.writeFailed) = g w :=
    hcounted w.table 0 { w.metrics with sqliteErrors := inc32 w.metrics.sqliteErrors } rfl
  cases pc with
  | insertPrepare o a c => exact hprepare _
  | getPrepare o => exact hprepare _
  | payPrepare o n => exact hprepare _
  | updatePrepare o a c n => exact hprepare _
  | listPrepare q => exact hprepare _
  | deletePrepare o => exact hprepare _
  | insertStep o a c =>
      simp only [step]
      split
      · exact hcounted _ _ _ rfl
      · exact hfailed
  | updateStep o a c n =>
      cases out with
      | ok => exact hcounted _ _ _ rfl
      | fail applied => exact hfailed
  | deleteStep o =>
      cases out with
      | ok => exact hdata w _ _ w.cache
      | fail applied => exact hdata w w.table 0 w.cache
  | createCache o a c =>
      exact redisWrite_unrecorded env out hg (hdata w w.table w.changes _)
  | payInvalidate o a c n => exact hwrite o none
  | deleteInvalidate o => exact hwrite o none
  | getCache o =>
      have hget := tryGetCachedOrder_unrecorded env out hg o w
      simp only [step]
      split <;> simp_all only
  | payStep o n =>
      simp only [step]
      split
      · split <;> rfl
      · rfl
  | enter call inp => rfl
  | done reply => rfl
  | lost => rfl
  | _ => simp only [step]; split <;> rfl

/-- No call moves the clock. -/
theorem step_clock (pc : Pc) (w : World) : (step env out pc w).2.clock = w.clock :=
  step_frame env out (g := World.clock) (fun _ _ _ _ => rfl) (fun _ _ _ _ => rfl) pc w

/-- No handler touches the counters around it. -/
theorem step_outerMetrics (pc : Pc) (w : World) :
    outerMetrics (step env out pc w).2.metrics = outerMetrics w.metrics :=
  step_frame env out (g := fun w => outerMetrics w.metrics) (fun _ _ _ h => h)
    (fun _ _ _ _ => rfl) pc w

/-! ## §8. Requests that are turned away. -/

/-- How the checks of a request body end a handler: a 400 with its message, an
    accessor of the JSON reader throws, or it has no defined behaviour. -/
inductive Refused : Early → Prop where
  | message (text : String) : Refused (refusal env 400 text)
  | thrown (what : String) : Refused (.answered (.threw (.runtimeError what)))
  | undefined : Refused .undefined

/-- A check that ends the handler early refuses the request. -/
def Refuses {α : Type} (x : Except Early α) : Prop := ∀ early, x = .error early → Refused env early

/-- Checks one after the other. -/
theorem refuses_bind {α β : Type} {x : Except Early α} {f : α → Except Early β}
    (hx : Refuses env x) (hf : ∀ a, Refuses env (f a)) : Refuses env (x >>= f) := by
  intro early h
  cases x with
  | ok a => exact hf a early h
  | error r =>
      cases h
      exact hx _ rfl

/-- `if (c) return json_error(400, text);`, and the code behind it. -/
theorem refuses_unless {α : Type} (c : Prop) [Decidable c] (text : String)
    {rest : Unit → Except Early α} (hrest : Refuses env (rest ())) :
    Refuses env (if c then throw (refusal env 400 text) >>= rest else rest ()) := by
  intro early h
  split at h
  · cases h
    exact .message text
  · exact hrest early h

/-- What the accessors of the JSON reader throw. -/
inductive AccessorFault : Fault → Prop where
  | thrown (what : String) : AccessorFault (.thrown (.runtimeError what))
  | undefined : AccessorFault .undefined

/-- What an accessor throws refuses the request. -/
theorem refuses_attempt {α : Type} {x : Except Fault α}
    (hx : ∀ fault, x = .error fault → AccessorFault fault) : Refuses env (attempt x) := by
  intro early h
  cases x with
  | ok a => cases h
  | error fault =>
      cases hx fault rfl with
      | thrown what => cases h; exact .thrown what
      | undefined => cases h; exact .undefined

section
variable {v : RValue} {sort : MemberSort} {k : String} {fault : Fault}

/-- `has` throws, or its behaviour is not defined. -/
theorem has_error (h : v.has sort k = .error fault) : AccessorFault fault := by
  cases v with
  | object members => cases h
  | list l =>
      simp only [RValue.has] at h
      split at h <;> cases h
      exact .undefined
  | _ => cases h; exact .thrown _

/-- So does `operator[]`. -/
theorem get_error (h : v.get sort k = .error fault) : AccessorFault fault := by
  cases v with
  | object members =>
      simp only [RValue.get] at h
      split at h <;> cases h
      exact .thrown _
  | _ => cases h; exact .thrown _

theorem d_error (h : v.d = .error fault) : AccessorFault fault := by
  cases v <;> cases h <;> exact .thrown _

theorem s_error (h : v.s = .error fault) : AccessorFault fault := by
  cases v <;> cases h <;> exact .thrown _

end

/-- The checks of `create_order` end the handler in no other way. -/
theorem refuses_createAmount (body : String) : Refuses env (createAmount env body) := by
  unfold createAmount
  split
  · refine refuses_bind env (refuses_attempt env fun _ => has_error) fun found => ?_
    refine refuses_unless env _ _ ?_
    refine refuses_bind env (refuses_attempt env fun _ => get_error) fun a => ?_
    refine refuses_unless env _ _ ?_
    exact refuses_unless env _ _ (refuses_attempt env fun _ => d_error)
  · intro early h
    cases h
    exact .message _

/-- So do those of `pay_order`. -/
theorem refuses_payOrderNo (body : String) : Refuses env (payOrderNo env body) := by
  unfold payOrderNo
  split
  · refine refuses_bind env (refuses_attempt env fun _ => has_error) fun found => ?_
    refine refuses_unless env _ _ ?_
    refine refuses_bind env (refuses_attempt env fun _ => get_error) fun n => ?_
    refine refuses_unless env _ _ ?_
    exact refuses_unless env _ _ (refuses_attempt env fun _ => s_error)
  · intro early h
    cases h
    exact .message _

/-- A refused request is answered with a 400, or with Crow's 500. -/
theorem refused_answer {reply : Reply} (h : Refused env (.answered reply)) :
    ∃ code, (Pc.done reply).answer = some code ∧ 400 ≤ code := by
  cases h with
  | message text => exact ⟨400, rfl, by decide⟩
  | thrown what => exact ⟨500, rfl, by decide⟩

/-- How the handlers end: with a 200, with a `json_error`, or in Crow's exception
    handler. -/
inductive Ended : Reply → Prop where
  | success (res : Response) (code : res.code = 200) : Ended (.returned res)
  | error (code : Int) (text : String) : Ended (errorReply env code text)
  | thrown (what : String) : Ended (.threw (.runtimeError what))

/-- At its end a handler has ended in one of these ways. -/
def Pc.EndsWell : Pc → Prop
  | .done reply => Ended env reply
  | _ => True

theorem refused_endsWell {early : Early} (h : Refused env early) : early.pc.EndsWell env := by
  cases h with
  | message text => exact .error 400 text
  | thrown what => exact .thrown what
  | undefined => trivial

/-- A prepare that fails ends the handler with its own reply. -/
theorem prepare_endsWell (next : Pc) (hnext : next.EndsWell env) (w : World) :
    (prepare env out next w).1.EndsWell env := by
  obtain h | h := prepare_fst env out next w
  · rw [h]
    exact hnext
  · rw [h]
    exact .error 500 "Internal DB error"

/-- **Every step keeps a request on its way to a reply of its handler.** -/
theorem endsWell_step {pc : Pc} (h : pc.EndsWell env) (w : World) :
    (step env out pc w).1.EndsWell env := by
  cases pc with
  | enter call inp =>
      cases call with
      | createOrder body =>
          simp only [step, enter]
          split
          · trivial
          · rename_i early herror
            exact refused_endsWell env (refuses_createAmount env body early herror)
      | payOrder body =>
          simp only [step, enter]
          split
          · trivial
          · rename_i early herror
            exact refused_endsWell env (refuses_payOrderNo env body early herror)
      | getOrder o => trivial
      | listOrders status => trivial
      | deleteOrder o => trivial
  | insertPrepare o a n => exact prepare_endsWell env out (.insertStep o a n) trivial w
  | insertStep o a n =>
      simp only [step]
      split
      · trivial
      · exact .error 500 _
  | createCache o a n => exact .success _ rfl
  | getCache o =>
      simp only [step]
      split
      · exact .success _ rfl
      · trivial
  | getPrepare o => exact prepare_endsWell env out (.getStep o) trivial w
  | getStep o =>
      simp only [step]
      split
      · exact .success _ rfl
      · exact .error 404 _
  | payPrepare o n => exact prepare_endsWell env out (.payStep o n) trivial w
  | payStep o n =>
      simp only [step]
      split
      · split
        · exact .error 400 _
        · trivial
      · exact .error 404 _
  | updatePrepare o a c n => exact prepare_endsWell env out (.updateStep o a c n) trivial w
  | updateStep o a c n =>
      simp only [step]
      split
      · trivial
      · exact .error 500 _
  | payInvalidate o a c n => exact .success _ rfl
  | listPrepare query => exact prepare_endsWell env out (.listStep query 0 []) trivial w
  | listStep query cursor arr =>
      simp only [step]
      split
      · trivial
      · exact .success _ rfl
  | deletePrepare o => exact prepare_endsWell env out (.deleteStep o) trivial w
  | deleteStep o =>
      simp only [step]
      split
      · trivial
      · exact .error 404 _
  | deleteChanges o =>
      simp only [step]
      split
      · exact .error 404 _
      · trivial
  | deleteInvalidate o => exact .success _ rfl
  | done reply => exact h
  | lost => trivial

/-! ## §9. What a request carries. -/

/-- The values at the points of `create_order` and `pay_order` are those of the
    request: the amount of its body, the number it drew, its clock. -/
def Carries (job : Job) : Pc → Prop
  | .enter call inp => call = job.call ∧ inp = job.inp
  | .insertPrepare o a n => Creates o a n
  | .insertStep o a n => Creates o a n
  | .createCache o a n => Creates o a n
  | .payPrepare _ n => n = job.inp.now
  | .payStep _ n => n = job.inp.now
  | .updatePrepare _ _ _ n => n = job.inp.now
  | .updateStep _ _ _ n => n = job.inp.now
  | _ => True
where
  /-- The request creates the order `o`. -/
  Creates (o : String) (a : Double) (n : Int) : Prop :=
    ∃ body, job.call = .createOrder body ∧ createAmount env body = .ok a
      ∧ o = generateOrderNo job.inp ∧ n = job.inp.now

theorem carries_prepare {job : Job} (next : Pc) (h : Carries env job next) (w : World) :
    Carries env job (prepare env out next w).1 := by
  cases out with
  | ok => exact h
  | fail applied => trivial

/-- An early end carries nothing. -/
theorem carries_early {job : Job} (early : Early) : Carries env job early.pc := by
  cases early <;> trivial

/-- **Every step carries on what the request came with.** -/
theorem carries_step {job : Job} {pc : Pc} (h : Carries env job pc) (w : World) :
    Carries env job (step env out pc w).1 := by
  cases pc with
  | enter call inp =>
      obtain ⟨rfl, rfl⟩ := h
      simp only [step]
      cases hcall : job.call with
      | createOrder body =>
          simp only [enter]
          cases hbody : createAmount env body with
          | ok a => exact ⟨body, hcall, hbody, rfl, rfl⟩
          | error early => exact carries_early env early
      | payOrder body =>
          simp only [enter]
          split
          · exact rfl
          · exact carries_early env _
      | getOrder o => trivial
      | listOrders q => trivial
      | deleteOrder o => trivial
  | insertPrepare o a n => exact carries_prepare env out (.insertStep o a n) h w
  | insertStep o a n =>
      simp only [step]
      split
      · exact h
      · trivial
  | getPrepare o => exact carries_prepare env out (.getStep o) trivial w
  | payPrepare o n => exact carries_prepare env out (.payStep o n) h w
  | updatePrepare o a c n => exact carries_prepare env out (.updateStep o a c n) h w
  | listPrepare q => exact carries_prepare env out (.listStep q 0 []) trivial w
  | deletePrepare o => exact carries_prepare env out (.deleteStep o) trivial w
  | payStep o n =>
      simp only [step]
      split
      · split
        · trivial
        · exact h
      · trivial
  | createCache o a n => trivial
  | payInvalidate o a c n => trivial
  | deleteInvalidate o => trivial
  | done reply => trivial
  | lost => trivial
  | _ => simp only [step]; split <;> trivial

/-- What a check lets through has the property. -/
def Yields {α : Type} (P : α → Prop) (x : Except Early α) : Prop := ∀ a, x = .ok a → P a

/-- What a computation yields is what its last part yields. -/
theorem yields_bind {α β : Type} {P : β → Prop} {x : Except Early α} {f : α → Except Early β}
    (h : ∀ a, Yields P (f a)) : Yields P (x >>= f) := by
  intro b hb
  cases x with
  | ok a => exact h a b hb
  | error r => cases hb

/-- Behind a check it is not the case that was checked for. -/
theorem yields_unless {α : Type} {P : α → Prop} {c : Prop} [Decidable c] {early : Early}
    {rest : Unit → Except Early α} (h : ¬ c → Yields P (rest ())) :
    Yields P (if c then throw early >>= rest else rest ()) := by
  intro a ha
  split at ha
  · cases ha
  · next hc => exact h hc a ha

/-- An amount that was accepted is positive. -/
theorem createAmount_gtZero (body : String) :
    Yields (fun a : Double => a.gtZero = true) (createAmount env body) := by
  unfold createAmount
  split
  · refine yields_bind fun found => yields_unless fun _ => ?_
    refine yields_bind fun a => yields_unless fun hvalid => yields_unless fun _ => ?_
    intro d hd
    -- only a number passes the check, and the check looked at its value
    cases a with
    | number x =>
        cases hd
        simpa [isValidAmount] using hvalid
    | _ => simp [isValidAmount] at hvalid
  · intro a ha
    cases ha

/-- In every run every request carries its own values. -/
theorem carries_run {ι : Type*} [DecidableEq ι] (w : World) (jobs : ι → Job)
    (evs : List (Event ι Outcome EnvEvent)) (j : ι) :
    Carries env (jobs j) (((handlers env).run (initial w jobs) evs).proc j) := by
  refine (handlers env).run_local (P := Carries env (jobs j)) ?_ (s := initial w jobs)
    ⟨rfl, rfl⟩ evs
  intro out pc w' h
  exact carries_step env out h w'

end

end OrderApi.Model
