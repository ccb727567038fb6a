/-
  OrderApi.Model.Columns
  ──────────────────────
  **THE TABLE AS SQLITE HAS IT.**

  `CREATE TABLE orders` declares no column NOT NULL, a TEXT PRIMARY KEY among
  them, so to SQLite every column may be NULL, and `sqlite3_column_text` of a NULL
  is a null pointer, out of which the handlers make an `std::string`.  This module
  has the statements on rows of nullable columns, with SQL's rule that NULL equals
  nothing, and the handlers over them; a request that reads a null pointer is lost
  (`none`).

  `run_stored`: the handlers over nullable columns do what the handlers over
  plain rows do, so no request is ever lost.  The one binding that could store a
  NULL is `sqlite3_bind_double`, which stores a NaN as NULL; the amounts that
  reach it are positive.
-/
import OrderApi.Model.Steps

namespace OrderApi.Model

open OrderApi.Lib
open OrderApi.Crow

/-! ## §1. Columns. -/

/-- `0.0`. -/
def zero : Double := ⟨0, by decide⟩

/-- `sqlite3_bind_text(.., -1, ..)`. -/
def bindText (s : String) : Option String := some (cStr s)

/-- `sqlite3_bind_double`: "If the value is NaN, a NULL is stored". -/
def bindDouble (d : Double) : Option Double := if d.isNaN then none else some d

/-- `sqlite3_bind_int64`. -/
def bindInt64 (i : Int) : Option Int := some i

/-- `sqlite3_column_double`: a NULL reads as `0.0`. -/
def columnDouble (c : Option Double) : Double := c.getD zero

/-- `sqlite3_column_int64`: a NULL reads as `0`. -/
def columnInt64 (c : Option Int) : Int := c.getD 0

/-- A row of `orders` with its columns, each of which may be NULL. -/
structure SqlRow where
  rowid : Nat
  orderNo : Option String
  amount : Option Double
  status : Option String
  createdAt : Option Int
  paidAt : Option Int
  deriving DecidableEq

/-- The rows of `orders` in rowid order. -/
abbrev SqlTable := List SqlRow

namespace SqlTable

def nextRowid (t : SqlTable) : Nat := (t.map SqlRow.rowid).foldr max 0 + 1

/-- `INSERT INTO orders (...) VALUES (?, ?, ?, ?, ?)`; `none` is the primary-key
    conflict, which a NULL never has. -/
def insertOrder (t : SqlTable) (orderNo : Option String) (amount : Option Double)
    (status : Option String) (createdAt paidAt : Option Int) : Option SqlTable :=
  if orderNo.isSome ∧ orderNo ∈ t.map SqlRow.orderNo then none
  else some (t ++ [{ rowid := nextRowid t, orderNo, amount, status, createdAt, paidAt }])

/-- `SELECT .. WHERE order_no = ?`. -/
def find (t : SqlTable) (orderNo : String) : Option SqlRow :=
  List.find? (fun r => r.orderNo = some orderNo) t

/-- `sqlite3_changes` after a statement `WHERE order_no = ?`. -/
def count (t : SqlTable) (orderNo : String) : Nat :=
  List.countP (fun r => r.orderNo = some orderNo) t

/-- `UPDATE orders SET status = 'PAID', paid_at = ? WHERE order_no = ?`. -/
def updatePaid (t : SqlTable) (orderNo : String) (now : Option Int) : SqlTable :=
  t.map fun r =>
    if r.orderNo = some orderNo then { r with status := some "PAID", paidAt := now } else r

/-- `DELETE FROM orders WHERE order_no = ?`. -/
def deleteOrder (t : SqlTable) (orderNo : String) : SqlTable :=
  t.filter fun r => r.orderNo ≠ some orderNo

/-- The next row of a scan, of the rows `WHERE status = ?` or of all rows. -/
def nextRow (t : SqlTable) (status : Option String) (cursor : Nat) : Option SqlRow :=
  List.find? (fun r => cursor < r.rowid && status.all (r.status = some ·)) t

end SqlTable

/-- The shared state with the table of nullable columns; the table of `rest` is
    not used. -/
structure SqlWorld where
  table : SqlTable
  rest : World

/-- The columns of a row as the handlers read them, once the texts are there. -/
def SqlRow.read (r : SqlRow) (orderNo status : String) : Row where
  rowid := r.rowid
  orderNo := orderNo
  amount := columnDouble r.amount
  status := status
  createdAt := columnInt64 r.createdAt
  paidAt := columnInt64 r.paidAt

/-! ## §2. The handlers over nullable columns. -/

/-- The calls that step a statement; `none` is what becomes of a request that makes
    a string of a null pointer.  All other calls are those of `step`. -/
def sqlStep (env : Env) (out : Outcome) : Option Pc → SqlWorld → Option Pc × SqlWorld
  | none, w => (none, w)
  | some (.insertStep o amount now), w =>
      match out, w.table.insertOrder (bindText o) (bindDouble amount) (bindText "PENDING")
          (bindInt64 now) (bindInt64 0) with
      | .ok, some table =>
          (some (.createCache o amount now),
            { table, rest := { w.rest with
                changes := 1, metrics.ordersCreated := inc32 w.rest.metrics.ordersCreated } })
      | _, _ =>
          (some (.done (errorReply env 500 "Database error while creating order")),
            { w with rest := recordSqliteFailure w.rest.writeFailed })
  | some (.getStep o), w =>
      match out, w.table.find (cStr o) with
      | .ok, some r =>
          match r.status with
          | none => (none, w)
          | some status => (some (.done (jsonReply env (rowJson env o (r.read o status)))), w)
      | _, _ => (some (.done (errorReply env 404 "Order not found")), w)
  | some (.payStep o now), w =>
      match out, w.table.find (cStr o) with
      | .ok, some r =>
          match r.status with
          | none => (none, w)
          | some status =>
              if status = "PAID" then (some (.done (errorReply env 400 "Already paid")), w)
              else
                (some (.updatePrepare o (columnDouble r.amount) (columnInt64 r.createdAt) now), w)
      | _, _ => (some (.done (errorReply env 404 "Order not found")), w)
  | some (.updateStep o amount createdAt now), w =>
      match out with
      | .ok =>
          (some (.payInvalidate o amount createdAt now),
            { table := w.table.updatePaid (cStr o) (bindInt64 now)
              rest := { w.rest with
                changes := w.table.count (cStr o)
                metrics.ordersPaid := inc32 w.rest.metrics.ordersPaid } })
      | .fail _ =>
          (some (.done (errorReply env 500 "Failed to mark order as paid")),
            { w with rest := recordSqliteFailure w.rest.writeFailed })
  | some (.listStep query cursor arr), w =>
      match out, w.table.nextRow (listFilter query) cursor with
      | .ok, some r =>
          match r.orderNo, r.status with
          | some orderNo, some status =>
              (some (.listStep query r.rowid
                (arr ++ [rowJson env orderNo (r.read orderNo status)])), w)
          | _, _ => (none, w)
      | _, _ => (some (.done (jsonReply env (listJson arr))), w)
  | some (.deleteStep o), w =>
      match out with
      | .ok =>
          (some (.deleteChanges o),
            { table := w.table.deleteOrder (cStr o)
              rest := { w.rest with changes := w.table.count (cStr o) } })
      | .fail _ =>
          (some (.done (errorReply env 404 "Order not found or could not delete")),
            { w with rest := w.rest.writeFailed })
  | some pc, w =>
      (some (step env out pc w.rest).1, { w with rest := (step env out pc w.rest).2 })

/-- The handlers over nullable columns. -/
def sqlHandlers (env : Env) : Machine SqlWorld (Option Pc) Outcome EnvEvent where
  step := sqlStep env
  env := fun x w => { w with rest := x.apply w.rest }

/-! ## §3. Plain rows, stored. -/

/-- A row with every column there. -/
def Row.stored (r : Row) : SqlRow where
  rowid := r.rowid
  orderNo := some r.orderNo
  amount := some r.amount
  status := some r.status
  createdAt := some r.createdAt
  paidAt := some r.paidAt

/-- A table with every column there. -/
def Table.stored (t : Table) : SqlTable := t.rows.map Row.stored

/-- The shared state, stored. -/
def World.stored (w : World) : SqlWorld := ⟨w.table.stored, { w with table := Keyed.empty }⟩

section
variable (t : Table) (k : String)

theorem stored_orderNo (r : Row) : r.stored.orderNo = some k ↔ r.orderNo = k :=
  Option.some_inj

theorem find_stored : t.stored.find k = (t.find k).map Row.stored := by
  unfold Table.stored SqlTable.find Keyed.find
  rw [List.find?_map]
  simp only [Function.comp_def, stored_orderNo]

theorem count_stored : t.stored.count k = t.count k := by
  unfold Table.stored SqlTable.count Keyed.count
  rw [List.countP_map]
  simp only [Function.comp_def, stored_orderNo]

/-- UPDATE, stored. -/
theorem updatePaid_stored (now : Int) :
    t.stored.updatePaid k (bindInt64 now) = (t.updatePaid k now).stored := by
  show (t.rows.map Row.stored).map _ = (t.rows.map _).map Row.stored
  rw [List.map_map, List.map_map]
  refine List.map_congr_left fun r _ => ?_
  simp only [Function.comp_apply, stored_orderNo]
  split <;> rfl

theorem deleteOrder_stored : t.stored.deleteOrder k = (t.deleteOrder k).stored := by
  show (t.rows.map Row.stored).filter _ = (t.rows.filter _).map Row.stored
  rw [List.filter_map]
  simp only [Function.comp_def, ne_eq, stored_orderNo]

/-- The scan reads the same row next. -/
theorem nextRow_stored (status : Option String) (cursor : Nat) :
    t.stored.nextRow status cursor = (t.nextRow status cursor).map Row.stored := by
  unfold Table.stored SqlTable.nextRow Table.nextRow
  rw [List.find?_map]
  simp only [Function.comp_def, Row.stored, Option.some_inj]
  rfl

theorem nextRowid_stored : t.stored.nextRowid = t.nextRowid := by
  unfold Table.stored SqlTable.nextRowid Table.nextRowid
  rw [List.map_map]
  rfl

/-- The INSERT of a row whose amount is not a NaN. -/
theorem insertOrder_stored {amount : Double} (hamount : amount.isNaN = false) (o : String)
    (now : Int) :
    t.stored.insertOrder (bindText o) (bindDouble amount) (bindText "PENDING") (bindInt64 now)
      (bindInt64 0) = (t.insertOrder (cStr o) amount now).map Table.stored := by
  have hkeys : some (cStr o) ∈ t.stored.map SqlRow.orderNo ↔ cStr o ∈ t.rows.map Row.orderNo := by
    unfold Table.stored
    rw [List.map_map]
    simp [Row.stored]
  have hpending : bindText "PENDING" = some "PENDING" := by decide
  have hbind : bindDouble amount = some amount := by
    unfold bindDouble
    rw [hamount]
    rfl
  unfold SqlTable.insertOrder Table.insertOrder Keyed.insert?
  rw [hpending, hbind, nextRowid_stored]
  by_cases hmem : cStr o ∈ t.rows.map Row.orderNo
  · rw [if_pos ⟨rfl, hkeys.mpr hmem⟩, dif_pos hmem]
    rfl
  · rw [if_neg fun h => hmem (hkeys.mp h.2), dif_neg hmem]
    show some _ = some ((t.rows ++ [_]).map Row.stored)
    rw [List.map_append]
    rfl

end

/-! ## §4. The two machines agree. -/

/-- The amount in front of an INSERT is not a NaN. -/
def AmountOk : Pc → Prop
  | .insertStep _ a _ => a.isNaN = false
  | _ => True

/-- A command to Redis does not look at the table. -/
theorem redisWrite_stored (env : Env) (out : Outcome) (f : World → World) (w : World)
    (hf : (f w).stored = ⟨w.table.stored, f { w with table := Keyed.empty }⟩) :
    (redisWrite env out f w).stored
      = ⟨w.table.stored, redisWrite env out f { w with table := Keyed.empty }⟩ := by
  have htable : (f w).table.stored = w.table.stored := congrArg SqlWorld.table hf
  have hrest : { f w with table := Keyed.empty } = f { w with table := Keyed.empty } :=
    congrArg SqlWorld.rest hf
  unfold redisWrite
  split
  · cases out with
    | ok =>
        show SqlWorld.mk _ (recordRedisSuccess { f w with table := Keyed.empty }) = _
        rw [hrest]
        exact congrArg (SqlWorld.mk · _) htable
    | fail applied =>
        cases applied with
        | false => rfl
        | true =>
            show SqlWorld.mk _ (recordRedisFailure { f w with table := Keyed.empty }) = _
            rw [hrest]
            exact congrArg (SqlWorld.mk · _) htable
  · rfl

/-- **One call over nullable columns** is the call over plain rows. -/
theorem sqlStep_stored (env : Env) (out : Outcome) {pc : Pc} (hpc : AmountOk pc) (w : World) :
    sqlStep env out (some pc) w.stored
      = (some (step env out pc w).1, (step env out pc w).2.stored) := by
  cases pc with
  | insertStep o a n =>
      simp only [sqlStep, step, World.stored, insertOrder_stored _ hpc]
      cases out with
      | fail applied => rfl
      | ok => cases w.table.insertOrder (cStr o) a n <;> rfl
  | getStep o =>
      simp only [sqlStep, step, World.stored, find_stored]
      cases out with
      | fail applied => rfl
      | ok => cases w.table.find (cStr o) <;> rfl
  | payStep o n =>
      simp only [sqlStep, step, World.stored, find_stored]
      cases out with
      | fail applied => rfl
      | ok =>
          cases w.table.find (cStr o) with
          | none => rfl
          | some r =>
              simp only [Option.map_some, Row.stored]
              split <;> rfl
  | updateStep o a c n =>
      cases out with
      | fail applied => rfl
      | ok =>
          simp only [sqlStep, step, World.stored, updatePaid_stored, count_stored]
  | listStep q cursor arr =>
      simp only [sqlStep, step, World.stored, nextRow_stored]
      cases out with
      | fail applied => rfl
      | ok => cases w.table.nextRow (listFilter q) cursor <;> rfl
  | deleteStep o =>
      cases out with
      | fail applied => rfl
      | ok => simp only [sqlStep, step, World.stored, deleteOrder_stored, count_stored]
  -- the other points do not look at the table
  | enter call inp => rfl
  | insertPrepare o a n => cases out <;> rfl
  | getPrepare o => cases out <;> rfl
  | payPrepare o n => cases out <;> rfl
  | updatePrepare o a c n => cases out <;> rfl
  | listPrepare q => cases out <;> rfl
  | deletePrepare o => cases out <;> rfl
  | createCache o a n =>
      exact congrArg (Prod.mk _) (redisWrite_stored env out _ w rfl).symm
  | payInvalidate o a c n =>
      exact congrArg (Prod.mk _) (redisWrite_stored env out _ w rfl).symm
  | deleteInvalidate o =>
      exact congrArg (Prod.mk _) (redisWrite_stored env out _ w rfl).symm
  | getCache o =>
      simp only [sqlStep, step, World.stored, tryGetCachedOrder]
      cases env.redis with
      | false => rfl
      | true =>
          cases out with
          | fail applied => rfl
          | ok => cases w.cache.get w.clock (cacheKey o) <;> rfl
  | deleteChanges o =>
      by_cases hzero : w.changes = 0
      · simp [sqlStep, step, World.stored, hzero]
      · simp [sqlStep, step, World.stored, hzero]
  | done reply => rfl
  | lost => rfl

/-- The requests of a pool over stored rows. -/
def stored {ι : Type*} (s : Pool ι World Pc) : Pool ι SqlWorld (Option Pc) where
  world := s.world.stored
  proc := fun i => some (s.proc i)

/-- Restarts and the clock do not see how rows are stored. -/
theorem apply_stored (x : EnvEvent) (w : World) :
    (x.apply w).stored = { w.stored with rest := x.apply w.stored.rest } := by
  cases x <;> rfl

/-- **One step of the one machine is one of the other**, as long as the amounts are numbers. -/
theorem fire_stored {ι : Type*} [DecidableEq ι] (env : Env) {s : Pool ι World Pc}
    (hs : ∀ i, AmountOk (s.proc i)) (e : Event ι Outcome EnvEvent) :
    (sqlHandlers env).fire (stored s) e = stored ((handlers env).fire s e) := by
  cases e with
  | env x =>
      show Pool.mk _ _ = Pool.mk (x.apply s.world).stored _
      rw [apply_stored]
      rfl
  | proc i out =>
      have hstep := sqlStep_stored env out (hs i) s.world
      show Pool.mk (sqlStep env out (some (s.proc i)) s.world.stored).2
        (Function.update _ i (sqlStep env out (some (s.proc i)) s.world.stored).1) = _
      rw [hstep]
      congr 1
      funext j
      by_cases hj : j = i
      · subst hj
        simp [stored, Machine.fire]
      · simp [stored, Machine.fire, Function.update_of_ne hj]

/-- A request carries no NaN: its amount passed the check. -/
theorem amountOk_of_carries {env : Env} {job : Job} {pc : Pc} (h : Carries env job pc) :
    AmountOk pc := by
  cases pc with
  | insertStep o a n =>
      obtain ⟨body, -, hbody, -⟩ := h
      exact Double.not_isNaN (createAmount_gtZero env body a hbody)
  | _ => trivial

/-- **Whole runs over nullable columns** are the runs over plain rows. -/
theorem run_stored {ι : Type*} [DecidableEq ι] (env : Env) (w : World) (jobs : ι → Job)
    (evs : List (Event ι Outcome EnvEvent)) :
    (sqlHandlers env).run (stored (initial w jobs)) evs
      = stored ((handlers env).run (initial w jobs) evs) := by
  induction evs using List.reverseRecOn with
  | nil => rfl
  | append_singleton evs e ih =>
      rw [Machine.run_concat, Machine.run_concat, ih]
      exact fire_stored env (fun i => amountOk_of_carries (carries_run env w jobs evs i)) e

end OrderApi.Model
