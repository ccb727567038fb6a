/-
  OrderApi.Orders.Snapshot
  ────────────────────────
  **WHAT A LIST SHOWS WHILE OTHERS WRITE.**

  The requests share one connection, and a SELECT in progress is not isolated from
  the writes made between its steps: each step returns the next row, in rowid
  order, of the table as it is at that moment.  So a list need not be the table of
  any one moment (`list_mixes_moments`).  What it is: a scan (`Lib.Scan`) whose
  moments are the steps of the request (`list_is_scan`).
-/
import OrderApi.Lib.Scan
import OrderApi.Orders.Listing
import OrderApi.Orders.Commit
import OrderApi.Orders.Linkage

namespace OrderApi.Orders

open OrderApi.Lib
open OrderApi.Crow
open OrderApi.Model

variable {ι : Type*} [DecidableEq ι]

/-! ## §1. Moments. -/

/-- A moment of a run: the events before it. -/
abbrev Moment (ι : Type*) := List (Event ι Outcome EnvEvent)

/-- The table at a moment. -/
def tableAt (env : Env) (w : World) (jobs : ι → Job) (m : Moment ι) : Table :=
  ((handlers env).run (initial w jobs) m).world.table

/-- Where request `i` stands at a moment. -/
def pcAt (env : Env) (w : World) (jobs : ι → Job) (i : ι) (m : Moment ι) : Pc :=
  ((handlers env).run (initial w jobs) m).proc i

/-- At this moment of the run `evs` the request makes a `sqlite3_step` of its
    SELECT. -/
def StepsAt (env : Env) (w : World) (jobs : ι → Job) (i : ι) (evs : Moment ι) (m : Moment ι) :
    Prop :=
  m ++ [.proc i .ok] <+: evs ∧ ∃ q cursor arr, pcAt env w jobs i m = .listStep q cursor arr

/-- One step after the other. -/
def InOrder (i : ι) (ms : List (Moment ι)) : Prop :=
  ms.Pairwise (fun m m' => m ++ [.proc i .ok] <+: m')

section
variable {env : Env} {w : World} {jobs : ι → Job} {i : ι}

theorem StepsAt.mono {evs m : Moment ι} (h : StepsAt env w jobs i evs m)
    (e : Event ι Outcome EnvEvent) : StepsAt env w jobs i (evs ++ [e]) m :=
  ⟨h.1.trans (List.prefix_append _ _), h.2⟩

/-- The last moment is behind the others. -/
theorem inOrder_snoc {evs : Moment ι} {ms : List (Moment ι)} (h : InOrder i ms)
    (hsteps : ∀ m ∈ ms, StepsAt env w jobs i evs m) : InOrder i (ms ++ [evs]) := by
  refine List.pairwise_append.mpr ⟨h, List.pairwise_singleton _ _, ?_⟩
  intro m hm m' hm'
  obtain rfl := List.mem_singleton.mp hm'
  exact (hsteps m hm).1

/-! ## §2. The request as a scan. -/

/-- The rows of the filter of `list_orders`. -/
def passes (q : String) (r : Row) : Bool := (listFilter q).all (r.status = ·)

/-- The scan of the rows at the moments of a run. -/
def ScanReads (env : Env) (w : World) (jobs : ι → Job) (q : String) (reads : List (Moment ι × Row))
    (cursor : Nat) : Prop :=
  Scan.Reads Row.rowid (passes q) (fun m => (tableAt env w jobs m).rows) reads cursor

/-- How far the list request `i` has come after the events. -/
def ScanProgress (env : Env) (w : World) (jobs : ι → Job) (i : ι) (q : String) (evs : Moment ι) :
    Pc → Prop
  | .enter call _ => ∃ status, call = .listOrders status ∧ status.getD "" = q
  | .listPrepare q' => q' = q
  | .listStep q' cursor arr => q' = q ∧ ∃ reads, ScanReads env w jobs q reads cursor
      ∧ arr = reads.map (fun x => listed env x.2) ∧ InOrder i (reads.map Prod.fst)
      ∧ ∀ m ∈ reads.map Prod.fst, StepsAt env w jobs i evs m
  | .done reply => ∃ reads cursor last, ScanReads env w jobs q reads cursor
      ∧ (tableAt env w jobs last).nextRow (listFilter q) cursor = none
      ∧ reply = jsonReply env (listJson (reads.map fun x => listed env x.2))
      ∧ InOrder i (reads.map Prod.fst ++ [last])
      ∧ ∀ m ∈ reads.map Prod.fst ++ [last], StepsAt env w jobs i evs m
  | _ => False

/-- What has been read so far stays read, whatever happens next. -/
theorem scanProgress_mono {q : String} {evs : Moment ι} {pc : Pc}
    (h : ScanProgress env w jobs i q evs pc) (e : Event ι Outcome EnvEvent) :
    ScanProgress env w jobs i q (evs ++ [e]) pc := by
  cases pc with
  | listStep q' cursor arr =>
      obtain ⟨hq, reads, hscan, harr, horder, hsteps⟩ := h
      exact ⟨hq, reads, hscan, harr, horder, fun m hm => (hsteps m hm).mono e⟩
  | done reply =>
      obtain ⟨reads, cursor, last, hscan, hnone, hreply, horder, hsteps⟩ := h
      exact ⟨reads, cursor, last, hscan, hnone, hreply, horder, fun m hm => (hsteps m hm).mono e⟩
  | _ => exact h

/-- One call of the request. -/
theorem scanProgress_step {q : String} {evs : Moment ι}
    (h : ScanProgress env w jobs i q evs (pcAt env w jobs i evs)) :
    ScanProgress env w jobs i q (evs ++ [.proc i .ok])
      (step env .ok (pcAt env w jobs i evs) ((handlers env).run (initial w jobs) evs).world).1 := by
  cases hpc : pcAt env w jobs i evs with
  | enter call inp =>
      rw [hpc] at h
      obtain ⟨status, rfl, rfl⟩ := h
      exact rfl
  | listPrepare q' =>
      rw [hpc] at h
      obtain rfl : q' = q := h
      exact ⟨rfl, [], .start, rfl, List.Pairwise.nil, fun m hm => absurd hm List.not_mem_nil⟩
  | listStep q' cursor arr =>
      rw [hpc] at h
      obtain ⟨rfl, reads, hscan, rfl, horder, hsteps⟩ := h
      have hnow : StepsAt env w jobs i (evs ++ [.proc i .ok]) evs :=
        ⟨List.prefix_rfl, q', cursor, _, hpc⟩
      have hmore : InOrder i (reads.map Prod.fst ++ [evs]) := inOrder_snoc horder hsteps
      have hall : ∀ m ∈ reads.map Prod.fst ++ [evs],
          StepsAt env w jobs i (evs ++ [.proc i .ok]) m := by
        intro m hm
        rcases List.mem_append.mp hm with hm | hm
        · exact (hsteps m hm).mono _
        · obtain rfl := List.mem_singleton.mp hm
          exact hnow
      simp only [step]
      cases hrow : ((handlers env).run (initial w jobs) evs).world.table.nextRow (listFilter q')
          cursor with
      | none => exact ⟨reads, cursor, evs, hscan, hrow, rfl, hmore, hall⟩
      | some r =>
          refine ⟨rfl, reads ++ [(evs, r)], hscan.read hrow, ?_, ?_, ?_⟩
          · rw [List.map_append]
            rfl
          · rw [List.map_append]
            exact hmore
          · rw [List.map_append]
            exact hall
  | done reply =>
      rw [hpc] at h
      exact scanProgress_mono h _
  | _ => rw [hpc] at h; exact h.elim

/-- **Every run**: whatever the others do, the request is a scan so far. -/
theorem scanProgress_run {status : Option String} (hjob : (jobs i).call = .listOrders status)
    (evs : Moment ι) (hok : ∀ out, .proc i out ∈ evs → out = .ok) :
    ScanProgress env w jobs i (status.getD "") evs (pcAt env w jobs i evs) := by
  induction evs using List.reverseRecOn with
  | nil => exact ⟨status, hjob, rfl⟩
  | append_singleton evs e ih =>
      have hprogress := ih fun out hout => hok out (List.mem_append_left _ hout)
      have hpcAt : pcAt env w jobs i (evs ++ [e])
          = ((handlers env).fire ((handlers env).run (initial w jobs) evs) e).proc i := by
        unfold pcAt
        rw [Machine.run_concat]
      cases e with
      | env x =>
          rw [hpcAt, Machine.fire_env_proc]
          exact scanProgress_mono hprogress _
      | proc j out =>
          by_cases hj : i = j
          · subst hj
            obtain rfl := hok out (List.mem_append_right _ List.mem_cons_self)
            rw [hpcAt, Machine.fire_proc_self]
            exact scanProgress_step hprogress
          · rw [hpcAt, Machine.fire_proc_other _ _ hj]
            exact scanProgress_mono hprogress _

end

/-! ## §3. What the list is. -/

/-- What a list shows, row by row, with the moment each row was read at and the
    moment the scan ended. -/
structure ShowsScan (env : Env) (w : World) (jobs : ι → Job) (i : ι) (status : Option String)
    (evs : Moment ι) (reads : List (Moment ι × Row)) (last : Moment ι) : Prop where
  /-- The moments are steps of the request, one after the other. -/
  steps : ∀ m ∈ reads.map Prod.fst ++ [last], StepsAt env w jobs i evs m
  inOrder : InOrder i (reads.map Prod.fst ++ [last])
  /-- Each row was in the table, as it is shown, when it was read. -/
  there : ∀ x ∈ reads, x.2 ∈ matching status (tableAt env w jobs x.1)
  /-- No row is shown twice, and they come in rowid order. -/
  sorted : reads.Pairwise (fun x y => x.2.rowid < y.2.rowid)
  /-- A row that is there and matches, unchanged, at every step is shown. -/
  lasting : ∀ r, (∀ m ∈ reads.map Prod.fst ++ [last], r ∈ matching status (tableAt env w jobs m)) →
    r ∈ reads.map Prod.snd
  /-- If the table is the same at every step, the list is all of what matches. -/
  still : ∀ t, (∀ m ∈ reads.map Prod.fst ++ [last], tableAt env w jobs m = t) →
    reads.map Prod.snd = matching status t

theorem ordered_rows {t : Table} (h : InRowidOrder t) : Scan.Ordered Row.rowid t.rows :=
  List.pairwise_map.mp (List.pairwise_cons.mp h).2

/-- **A list is a scan.**  In every interleaving with any other requests, the orders
    that a `list_orders` answers with are those of a scan in rowid order whose
    every step sees the table of its own moment. -/
theorem list_is_scan (env : Env) (w : World) (horder : InRowidOrder w.table) (jobs : ι → Job)
    (i : ι) (status : Option String) (hjob : (jobs i).call = .listOrders status)
    (hnul : ∀ s, status = some s → NoNul s) (evs : Moment ι)
    (hok : ∀ out, .proc i out ∈ evs → out = .ok) (reply : Reply)
    (hdone : pcAt env w jobs i evs = .done reply) :
    ∃ reads last, reply = jsonReply env (listJson (reads.map fun x => listed env x.2))
      ∧ ShowsScan env w jobs i status evs reads last := by
  have hprogress : ScanProgress env w jobs i (status.getD "") evs (pcAt env w jobs i evs) :=
    scanProgress_run hjob evs hok
  rw [hdone] at hprogress
  obtain ⟨reads, cursor, last, hscan, hnone, hreply, hinOrder, hsteps⟩ := hprogress
  have hpasses : passes (status.getD "") = wanted status := by
    funext r
    exact listFilter_all hnul r
  have hrows : ∀ m, InRowidOrder (tableAt env w jobs m) :=
    fun m => inRowidOrder_run (initial w jobs) m horder
  unfold ScanReads at hscan
  rw [hpasses] at hscan
  have hend : Scan.next Row.rowid (wanted status) (tableAt env w jobs last).rows cursor = none := by
    rw [← hpasses]
    exact hnone
  refine ⟨reads, last, hreply, hsteps, hinOrder, ?_, hscan.sorted, ?_, ?_⟩
  · intro x hx
    obtain ⟨hmem, hwanted⟩ := hscan.mem x hx
    exact List.mem_filter.mpr ⟨hmem, hwanted⟩
  · intro r hr
    obtain ⟨hmem, hwanted⟩ := List.mem_filter.mp (hr last (List.mem_append_right _ (by simp)))
    have hpos : 0 < r.rowid :=
      (List.pairwise_cons.mp (hrows last)).1 _ (List.mem_map_of_mem hmem)
    refine hscan.lasting (fun x _ => ordered_rows (hrows x.1)) hwanted hpos ?_
      (Scan.next_none hend hmem hwanted)
    intro x hx
    exact (List.mem_filter.mp (hr x.1 (List.mem_append_left _ (List.mem_map_of_mem hx)))).1
  · intro t ht
    have hlast : tableAt env w jobs last = t := ht last (List.mem_append_right _ (by simp))
    have htorder : InRowidOrder t := hlast ▸ hrows last
    have hall := hscan.const (ordered_rows htorder) fun x hx =>
      congrArg Keyed.rows (ht x.1 (List.mem_append_left _ (List.mem_map_of_mem hx)))
    -- nothing is left behind the last row
    have hnil : Scan.behind Row.rowid (wanted status) t.rows cursor = [] := by
      rw [hlast] at hend
      exact List.filter_eq_nil_iff.mpr (List.find?_eq_none.mp hend)
    rw [hnil, List.append_nil] at hall
    rw [hall]
    unfold Scan.behind matching
    refine List.filter_congr fun r hr => ?_
    have hpos : 0 < r.rowid := (List.pairwise_cons.mp htorder).1 _ (List.mem_map_of_mem hr)
    simp [hpos]

/-! ## §4. A list that no moment shows. -/

/-- The body of a payment of `ORD17000000008`. -/
def secondPayBody : String := "\x7b\"order_no\":\"ORD17000000008\"\x7d"

/-- Two creations, a payment of each order, and a list. -/
def writersAndList : Fin 5 → Job
  | 0 => sampleCreate
  | 1 => ⟨.createOrder sampleCreateBody, ⟨1700000000, 8, 1700000000⟩⟩
  | 2 => samplePay 1
  | 3 => ⟨.payOrder secondPayBody, ⟨0, 0, 1700000002⟩⟩
  | 4 => sampleList

/-- The list reads the first order; both are paid; it reads the second. -/
def paidInBetween : Moment (Fin 5) :=
  schedule (turns [0, 0, 0, 0, 1, 1, 1, 1, 4, 4, 4, 2, 2, 2, 2, 2, 2, 3, 3, 3, 3, 3, 3, 4, 4])

/-- The answer: the first order PENDING, the second PAID. -/
def mixedReply : Reply := jsonReply readingEnv (listJson
  [listed readingEnv ⟨1, "ORD17000000007", one, "PENDING", 1700000000, 0⟩,
    listed readingEnv ⟨2, "ORD17000000008", one, "PAID", 1700000000, 1700000002⟩])

theorem mixed_done : pcAt readingEnv {} writersAndList 4 paidInBetween = .done mixedReply := rfl

omit [DecidableEq ι] in
theorem schedule_ok {order : List ι} {i : ι} {out : Outcome}
    (h : .proc i out ∈ (schedule order : Moment ι)) : out = .ok := by
  obtain ⟨j, -, hj⟩ := List.mem_map.mp h
  cases hj
  rfl

/-- A list that was read while others wrote. -/
theorem list_is_scan_mixed : InRowidOrder ({} : World).table ∧
    (writersAndList 4).call = .listOrders none ∧
    (∀ out, .proc 4 out ∈ paidInBetween → out = .ok) ∧
    pcAt readingEnv {} writersAndList 4 paidInBetween = .done mixedReply ∧
    ∃ reads last, mixedReply = jsonReply readingEnv (listJson (reads.map fun x =>
        listed readingEnv x.2))
      ∧ ShowsScan readingEnv {} writersAndList 4 none paidInBetween reads last := by
  have hok : ∀ out, .proc 4 out ∈ paidInBetween → out = .ok := fun _ h => schedule_ok h
  refine ⟨inRowidOrder_empty, rfl, hok, mixed_done, ?_⟩
  exact list_is_scan readingEnv {} inRowidOrder_empty writersAndList 4 none rfl
    (fun s hs => by cases hs) paidInBetween hok mixedReply mixed_done

/-- The table of no moment of the run gives that answer. -/
theorem mixed_ne : ∀ k < 26, mixedReply ≠ jsonReply readingEnv (listJson
    ((matching none (tableAt readingEnv {} writersAndList (paidInBetween.take k))).map
      (listed readingEnv))) := by
  decide +kernel

/-- A list can show the old version of one order and the new version of another. -/
theorem list_mixes_moments :
    ¬ ∀ (env : Env) (jobs : Fin 5 → Job) (evs : Moment (Fin 5)) (i : Fin 5)
      (status : Option String) (reply : Reply), (jobs i).call = .listOrders status →
      (∀ j, j ≠ i → writes (jobs j).call = true) →
      (handlers env).RunOk CallsSucceed (initial {} jobs) evs →
      pcAt env {} jobs i evs = .done reply →
      ∃ m, m <+: evs ∧ reply = jsonReply env (listJson
        ((matching status (tableAt env {} jobs m)).map (listed env))) := by
  intro hall
  obtain ⟨m, hprefix, hreply⟩ := hall readingEnv writersAndList paidInBetween 4 none mixedReply rfl
    (by decide) (schedule_succeeds _ _ _) mixed_done
  have hlength : m.length < 26 := Nat.lt_succ_of_le hprefix.length_le
  rw [List.prefix_iff_eq_take.mp hprefix] at hreply
  exact mixed_ne m.length hlength hreply

end OrderApi.Orders
