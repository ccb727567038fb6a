/-
  OrderApi.Orders.RowInvariant
  ────────────────────────────
  **WHAT EVERY ROW IS LIKE.**

  Three statements write `orders`, and each of them at any point between the
  statements of other requests: the INSERT stores a PENDING row with a positive
  amount under a number of its own making, the UPDATE sets status and time of
  payment together and nothing else, the DELETE takes a row away.  So no row is
  ever stored that is not well formed, and during its life a row can only go from
  PENDING to PAID.  The UPDATE is blind and may hit a row that was deleted and
  created again after the SELECT; it does to that row what it does to any other.

  The results are about the table of nullable columns (`Model.Columns`), where the
  strings of a row are pointers that could be null.
-/
import OrderApi.Orders.CacheCoherence
import OrderApi.Model.Columns

namespace OrderApi.Orders

open OrderApi.Lib
open OrderApi.Crow
open OrderApi.Model

/-! ## §1. Well-formed rows. -/

/-- `ORD` followed by decimal digits. -/
def OrderForm (o : String) : Prop :=
  ∃ digits : List Char, o.toList = "ORD".toList ++ digits ∧ digits ≠ []
    ∧ ∀ c ∈ digits, c.isDigit = true

/-- A well-formed row. -/
structure RowOk (r : Row) : Prop where
  orderNo : OrderForm r.orderNo
  amount : r.amount.gtZero = true
  status : r.status = "PENDING" ∨ r.status = "PAID"
  paidAt : r.status = "PAID" ↔ r.paidAt ≠ 0

/-- A well-formed row of nullable columns: the texts and the amount are there. -/
structure StoredOk (r : SqlRow) : Prop where
  orderNo : ∃ o, r.orderNo = some o ∧ OrderForm o
  amount : ∃ a, r.amount = some a ∧ a.gtZero = true
  status : ∃ st p, r.status = some st ∧ r.paidAt = some p ∧ (st = "PENDING" ∨ st = "PAID")
    ∧ (st = "PAID" ↔ p ≠ 0)

theorem storedOk_of_rowOk {r : Row} (h : RowOk r) : StoredOk r.stored :=
  ⟨⟨_, rfl, h.orderNo⟩, ⟨_, rfl, h.amount⟩, ⟨_, _, rfl, rfl, h.status, h.paidAt⟩⟩

theorem toString_nat_digits (n : Nat) :
    (toString n).toList ≠ [] ∧ ∀ c ∈ (toString n).toList, c.isDigit = true := by
  rw [Nat.toString_eq_repr, Nat.toList_repr]
  exact ⟨Nat.toDigits_ne_nil, fun c hc => Nat.isDigit_of_mem_toDigits (by decide) (by decide) hc⟩

/-- The numbers `generate_order_no` makes, by a clock that does not stand before
    the epoch. -/
theorem generateOrderNo_form {inp : Inputs} (h : 0 ≤ inp.timestamp) :
    OrderForm (generateOrderNo inp) := by
  obtain ⟨n, hn⟩ := Int.eq_ofNat_of_zero_le h
  obtain ⟨hne, hdigits⟩ := toString_nat_digits n
  have hrand := (toString_nat_digits (inp.rand % 100000)).2
  unfold OrderForm generateOrderNo
  rw [hn]
  refine ⟨(toString n).toList ++ (toString (inp.rand % 100000)).toList, ?_, ?_, ?_⟩
  · rw [String.toList_append, String.toList_append, List.append_assoc]
    rfl
  · exact fun hnil => hne (List.append_eq_nil_iff.mp hnil).1
  · intro c hc
    rcases List.mem_append.mp hc with hc | hc
    · exact hdigits c hc
    · exact hrand c hc

/-! ## §2. The three statements. -/

/-- Every row is well formed. -/
def RowsOk (t : Table) : Prop := ∀ r ∈ t.rows, RowOk r

/-- INSERT writes a well-formed row. -/
theorem rowsOk_insert {t t' : Table} {o : String} {a : Double} {n : Int} (ht : RowsOk t)
    (ho : OrderForm o) (ha : a.gtZero = true) (h : t.insertOrder o a n = some t') :
    RowsOk t' := by
  intro r hr
  rw [Keyed.rows_of_insert? h] at hr
  rcases List.mem_append.mp hr with hr | hr
  · exact ht r hr
  · obtain rfl := List.mem_singleton.mp hr
    exact ⟨ho, ha, .inl rfl, by simp⟩

/-- UPDATE keeps a row well formed, when the clock does not read zero. -/
theorem rowsOk_update {t : Table} {k : String} {n : Int} (ht : RowsOk t) (hn : n ≠ 0) :
    RowsOk (t.updatePaid k n) := by
  intro r hr
  obtain ⟨r₀, hr₀, rfl⟩ := List.mem_map.mp hr
  have hok := ht r₀ hr₀
  split
  · exact ⟨hok.orderNo, hok.amount, .inr rfl, iff_of_true rfl hn⟩
  · exact hok

/-- DELETE leaves the others. -/
theorem rowsOk_delete {t : Table} (k : String) (ht : RowsOk t) : RowsOk (t.deleteOrder k) :=
  fun r hr => ht r (List.mem_of_mem_filter hr)

/-- **One call of a request.** -/
theorem rowsOk_step {env : Env} {job : Job} (htime : 0 ≤ job.inp.timestamp)
    (hnow : job.inp.now ≠ 0) (out : Outcome) {pc : Pc} (hpc : Carries env job pc) {w : World}
    (h : RowsOk w.table) : RowsOk (step env out pc w).2.table := by
  cases step_table env out pc w with
  | keep table changes next => rw [table]; exact h
  | failed at_ table changes next => rw [table]; exact h
  | insert o a n at_ ok next table changes =>
      rw [at_] at hpc
      obtain ⟨body, -, hbody, rfl, -⟩ := hpc
      rw [cStr_eq_self (generateOrderNo_noNul _)] at table
      exact rowsOk_insert h (generateOrderNo_form htime) (createAmount_gtZero env body a hbody)
        table
  | update o a c n at_ ok next table changes =>
      rw [at_] at hpc
      obtain rfl : n = job.inp.now := hpc
      rw [table]
      exact rowsOk_update h hnow
  | delete o at_ ok next table changes =>
      rw [table]
      exact rowsOk_delete _ h

/-- What becomes of a row that is there before and after a call. -/
structure SameLife (r r' : Row) : Prop where
  amount : r'.amount = r.amount
  createdAt : r'.createdAt = r.createdAt
  status : r.status = "PAID" → r'.status = "PAID"

/-- A row lives on as itself. -/
theorem SameLife.refl (r : Row) : SameLife r r := ⟨rfl, rfl, id⟩

/-- And from one to the next. -/
theorem SameLife.trans {r r' r'' : Row} (h : SameLife r r') (h' : SameLife r' r'') :
    SameLife r r'' :=
  ⟨h'.amount.trans h.amount, h'.createdAt.trans h.createdAt, fun hst => h'.status (h.status hst)⟩

/-- **One step keeps the life of a row**: no call changes what was inserted, or takes a payment
    back. -/
theorem sameLife_step (env : Env) (out : Outcome) (pc : Pc) {w : World} {k : String} {r r' : Row}
    (hr : w.table.find k = some r) (hr' : (step env out pc w).2.table.find k = some r') :
    SameLife r r' := by
  cases step_row env out pc w k with
  | keep row =>
      rw [row, hr] at hr'
      obtain rfl := Option.some.inj hr'
      exact .refl r
  -- an INSERT needs the key to be free
  | insert o a n r₁ at_ key next fresh row amount_eq status createdAt paidAt =>
      rw [fresh] at hr
      cases hr
  | update o a c n at_ key ok next row =>
      rw [row, hr] at hr'
      obtain rfl := Option.some.inj hr'
      exact ⟨rfl, rfl, fun _ => rfl⟩
  | delete o at_ key ok next row =>
      rw [row] at hr'
      cases hr'

/-! ## §3. Every run. -/

variable {ι : Type*} [DecidableEq ι]

section
variable {env : Env} {w : World} {jobs : ι → Job}

/-- **Every row of every run is well formed.** -/
theorem rowsOk_run (hempty : w.table = Keyed.empty) (htime : ∀ j, 0 ≤ (jobs j).inp.timestamp)
    (hnow : ∀ j, (jobs j).inp.now ≠ 0) (evs : List (Event ι Outcome EnvEvent)) :
    RowsOk ((handlers env).run (initial w jobs) evs).world.table := by
  induction evs using List.reverseRecOn with
  | nil =>
      show RowsOk w.table
      rw [hempty]
      exact fun r hr => absurd hr List.not_mem_nil
  | append_singleton evs e ih =>
      rw [Machine.run_concat]
      cases e with
      | proc i out =>
          rw [Machine.fire_proc_world]
          exact rowsOk_step (htime i) (hnow i) out (carries_run env w jobs evs i) ih
      | env x =>
          rw [Machine.fire_env_world, handlers_env, apply_table]
          exact ih

/-- One event keeps the life of a row. -/
theorem sameLife_fire {s : Pool ι World Pc} {k : String} {r r' : Row}
    (e : Event ι Outcome EnvEvent) (hr : s.world.table.find k = some r)
    (hr' : ((handlers env).fire s e).world.table.find k = some r') : SameLife r r' := by
  cases e with
  | proc i out =>
      rw [Machine.fire_proc_world] at hr'
      exact sameLife_step env out _ hr hr'
  | env x =>
      rw [Machine.fire_env_world, handlers_env, apply_table, hr] at hr'
      obtain rfl := Option.some.inj hr'
      exact .refl r

/-- The row `k` is there all along the stretch `post` behind `pre`. -/
def Alive (env : Env) (w : World) (jobs : ι → Job) (k : String)
    (pre post : List (Event ι Outcome EnvEvent)) : Prop :=
  ∀ mid rest, post = mid ++ rest →
    ∃ r, ((handlers env).run (initial w jobs) (pre ++ mid)).world.table.find k = some r

/-- **While it is there, a row keeps what it was inserted with**; the induction is on the run
    behind. -/
theorem sameLife_run {k : String} {pre post : List (Event ι Outcome EnvEvent)} {r r' : Row}
    (halive : Alive env w jobs k pre post)
    (hr : ((handlers env).run (initial w jobs) pre).world.table.find k = some r)
    (hr' : ((handlers env).run (initial w jobs) (pre ++ post)).world.table.find k = some r') :
    SameLife r r' := by
  induction post using List.reverseRecOn generalizing r' with
  | nil =>
      rw [List.append_nil, hr] at hr'
      obtain rfl := Option.some.inj hr'
      exact .refl r
  | append_singleton post e ih =>
      -- the row as it was before the last event
      obtain ⟨r₁, hr₁⟩ := halive post [e] rfl
      have hlife : SameLife r r₁ := by
        refine ih (fun mid rest h => halive mid (rest ++ [e]) ?_) hr₁
        rw [h, List.append_assoc]
      rw [← List.append_assoc, Machine.run_concat] at hr'
      exact hlife.trans (sameLife_fire e hr₁ hr')

end

/-! ## §4. Over nullable columns. -/

/-- A run of the handlers over nullable columns. -/
def sqlRun (env : Env) (w : World) (jobs : ι → Job) (evs : List (Event ι Outcome EnvEvent)) :
    Pool ι SqlWorld (Option Pc) :=
  (sqlHandlers env).run (stored (initial w jobs)) evs

/-- The row `k` after the events. -/
def sqlRow (env : Env) (w : World) (jobs : ι → Job) (evs : List (Event ι Outcome EnvEvent))
    (k : String) : Option SqlRow := (sqlRun env w jobs evs).world.table.find k

/-- The stored row is that of the plain table. -/
theorem sqlRow_eq (env : Env) (w : World) (jobs : ι → Job) (evs : List (Event ι Outcome EnvEvent))
    (k : String) : sqlRow env w jobs evs k
      = (((handlers env).run (initial w jobs) evs).world.table.find k).map Row.stored := by
  unfold sqlRow sqlRun
  rw [run_stored]
  exact find_stored _ k

/-- **The row invariant.**  From an empty table, with a clock past the epoch, in
    every interleaving and with any calls failing: every row ever stored is well
    formed and none of its texts is NULL; as long as it is there its amount and
    creation time stay and a PAID row stays PAID; and no request ever makes a
    string of a null pointer. -/
theorem row_invariant (env : Env) (w : World) (hempty : w.table = Keyed.empty) (jobs : ι → Job)
    (htime : ∀ j, 0 ≤ (jobs j).inp.timestamp) (hnow : ∀ j, (jobs j).inp.now ≠ 0) :
    (∀ evs, ∀ r ∈ (sqlRun env w jobs evs).world.table, StoredOk r)
      ∧ (∀ k pre post r r',
        (∀ mid rest, post = mid ++ rest → (sqlRow env w jobs (pre ++ mid) k).isSome = true) →
        sqlRow env w jobs pre k = some r → sqlRow env w jobs (pre ++ post) k = some r' →
          r'.amount = r.amount ∧ r'.createdAt = r.createdAt
            ∧ (r.status = some "PAID" → r'.status = some "PAID"))
      ∧ ∀ evs j, (sqlRun env w jobs evs).proc j ≠ none := by
  refine ⟨?_, ?_, ?_⟩
  · intro evs r hr
    unfold sqlRun at hr
    rw [run_stored] at hr
    obtain ⟨r₀, hr₀, rfl⟩ := List.mem_map.mp hr
    exact storedOk_of_rowOk (rowsOk_run hempty htime hnow evs r₀ hr₀)
  · intro k pre post r r' halive hr hr'
    simp only [sqlRow_eq, Option.isSome_map, Option.map_eq_some_iff] at halive hr hr'
    obtain ⟨r₀, hr₀, rfl⟩ := hr
    obtain ⟨r₁, hr₁, rfl⟩ := hr'
    have hlife := sameLife_run (fun mid rest h => Option.isSome_iff_exists.mp (halive mid rest h))
      hr₀ hr₁
    exact ⟨congrArg some hlife.amount, congrArg some hlife.createdAt,
      fun hst => congrArg some (hlife.status (Option.some.inj hst))⟩
  · intro evs j hnone
    unfold sqlRun at hnone
    rw [run_stored] at hnone
    cases hnone

/-- A creation, a payment, a deletion and a second creation that draws the same
    number. -/
def deleteAndRecreate : Fin 4 → Job
  | 0 => sampleCreate
  | 1 => samplePay 1
  | 2 => { sampleDelete with inp := ⟨1700000001, 0, 1700000001⟩ }
  | 3 => sampleCreate

/-- The payment has seen the first row and updates the second. -/
def blindUpdate : List (Event (Fin 4) Outcome EnvEvent) :=
  schedule (turns [0, 0, 0, 0, 1, 1, 1, 2, 2, 2, 2, 2, 3, 3, 3, 3, 1, 1])

/-- The order is deleted and created anew under a payment that was already on its way. -/
theorem row_invariant_blindUpdate : (∀ j, 0 ≤ (deleteAndRecreate j).inp.timestamp) ∧
    (∀ j, (deleteAndRecreate j).inp.now ≠ 0) ∧
    ∃ r, sqlRow sampleEnv {} deleteAndRecreate blindUpdate "ORD17000000007" = some r
      ∧ r.status = some "PAID" ∧ StoredOk r := by
  have htime : ∀ j, 0 ≤ (deleteAndRecreate j).inp.timestamp := by decide
  have hnow : ∀ j, (deleteAndRecreate j).inp.now ≠ 0 := by decide
  have hrows := (row_invariant sampleEnv {} rfl deleteAndRecreate htime hnow).1 blindUpdate
  refine ⟨htime, hnow, _, rfl, rfl, hrows _ ?_⟩
  decide

end OrderApi.Orders
