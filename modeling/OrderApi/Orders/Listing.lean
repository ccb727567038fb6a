/-
  OrderApi.Orders.Listing
  ───────────────────────
  **`list_orders` AS A VIEW OF THE TABLE.**

  With nobody in between and SQLite at work, the loop of `list_orders` writes one
  element for each matching row, in the order of the scan, and each element is the
  object that `get_order` builds from the same row.  But `result["orders"]` only
  becomes a list when its first element is written: without a matching row it
  stays null.
-/
import OrderApi.Crow.JsonDump
import OrderApi.Orders.CachedRead
import OrderApi.Orders.RowInvariant

namespace OrderApi.Orders

open OrderApi.Lib
open OrderApi.Crow
open OrderApi.Model

/-! ## §1. The rows that are asked for. -/

/-- A row is asked for: there is no `status` parameter, or it is empty, or it is
    the status of the row. -/
def wanted (status : Option String) (r : Row) : Bool :=
  status = none || status = some "" || status = some r.status

/-- The rows that are asked for, in the order of the table. -/
def matching (status : Option String) (t : Table) : List Row := t.rows.filter (wanted status)

/-- `url_params.get` hands out a C string, so the SELECT filters for the whole of
    it. -/
theorem listFilter_all {status : Option String} (hnul : ∀ s, status = some s → NoNul s) (r : Row) :
    (listFilter (status.getD "")).all (r.status = ·) = wanted status r := by
  cases status with
  | none => rfl
  | some s =>
      by_cases hempty : s = ""
      · rw [hempty]
        rfl
      · have hfilter : listFilter s = some s := by
          unfold listFilter
          rw [if_neg hempty, cStr_eq_self (hnul s rfl)]
        rw [Option.getD_some, hfilter]
        simp [wanted, hempty, eq_comm]

/-- Without a NUL the filter asks for the rows that match. -/
theorem ahead_eq_matching {t : Table} (ht : InRowidOrder t) {status : Option String}
    (hnul : ∀ s, status = some s → NoNul s) :
    ahead t (listFilter (status.getD "")) 0 = matching status t := by
  unfold ahead matching
  refine List.filter_congr fun r hr => ?_
  have hpos : 0 < r.rowid := (List.pairwise_cons.mp ht).1 _ (List.mem_map_of_mem hr)
  rw [listFilter_all hnul]
  simp [hpos]

/-- PENDING and PAID are a partition: every row has one of the two. -/
theorem matching_partition {t : Table} (h : RowsOk t) :
    (matching (some "PENDING") t ++ matching (some "PAID") t).Perm (matching none t) := by
  have hall : matching none t = t.rows := by
    unfold matching
    exact List.filter_eq_self.mpr fun r _ => rfl
  have hpaid : matching (some "PAID") t
      = t.rows.filter (fun r => !wanted (some "PENDING") r) := by
    unfold matching
    refine List.filter_congr fun r hr => ?_
    rcases (h r hr).status with hst | hst <;> simp [wanted, hst]
  rw [hall, hpaid]
  exact List.filter_append_perm _ _

/-! ## §2. The two handlers. -/

section
variable {env : Env} {f : Fate} {w : World}

/-- `get_order` on its SQLite path. -/
theorem get_stored (o : PathParam) (inp : Inputs) (hmiss : hitsCache env f o.val w = false)
    (hok : ∀ n, f.sqlite n = .ok) :
    ∃ w', Ends env f ⟨.getOrder o, inp⟩ w (storedReply env o.val w.table) w' := by
  have htable := tryGetCachedOrder_table env (f.redis 0) o.val w
  have h : EndsWith env f ⟨start ⟨.getOrder o, inp⟩ w, 0⟩
      (fun reply _ _ => reply = storedReply env o.val w.table) := by
    rw [endsWith_start]
    simp only [enter]
    rw [endsWith_redis rfl]
    rw [← tryGetCachedOrder_isSome] at hmiss
    simp only [step]
    generalize tryGetCachedOrder env (f.redis 0) o.val w = answer at hmiss htable ⊢
    obtain ⟨cached, w'⟩ := answer
    cases cached with
    | some payload => cases hmiss
    | none =>
        dsimp only at htable ⊢
        rw [endsWith_prepare (fun _ => rfl) rfl rfl (fun _ => rfl), hok]
        dsimp only
        rw [endsWith_sqlite rfl rfl, hok]
        simp only [step, cStr_eq_self o.noNul, storedReply, htable]
        cases w.table.find o.val with
        | none => exact (endsWith_done ..).mpr rfl
        | some r => exact (endsWith_done ..).mpr rfl
  obtain ⟨reply, w', -, hends, rfl⟩ := ends_of_endsWith h
  exact ⟨w', hends⟩

/-- An order number has no NUL. -/
theorem orderForm_noNul {o : String} (h : OrderForm o) : NoNul o := by
  obtain ⟨digits, hlist, -, hdigits⟩ := h
  unfold NoNul
  rw [hlist]
  intro hmem
  rcases List.mem_append.mp hmem with hmem | hmem
  · exact absurd hmem (by decide)
  · exact absurd (hdigits _ hmem) (by decide)

/-- The element of a row is what `get_order` answers. -/
theorem get_listed (hrows : RowsOk w.table) {r : Row} (hr : r ∈ w.table.rows) :
    ∃ o : PathParam, o.val = r.orderNo ∧ ∀ (g : Fate) (inp : Inputs),
      (∀ n, g.sqlite n = .ok) → hitsCache env g o.val w = false →
        ∃ w', Ends env g ⟨.getOrder o, inp⟩ w (jsonReply env (listed env r)) w' := by
  refine ⟨⟨r.orderNo, orderForm_noNul (hrows r hr).orderNo⟩, rfl, ?_⟩
  intro g inp hok hmiss
  obtain ⟨w', hends⟩ := get_stored _ inp hmiss hok
  have hstored : storedReply env r.orderNo w.table = jsonReply env (listed env r) := by
    unfold storedReply
    rw [Keyed.find_of_mem hr]
    rfl
  rw [hstored] at hends
  exact ⟨w', hends⟩

/-- What `list_orders` answers. -/
theorem list_ends (ht : InRowidOrder w.table) (hok : ∀ n, f.sqlite n = .ok)
    {status : Option String} (hnul : ∀ s, status = some s → NoNul s) (inp : Inputs) :
    ∃ w', Ends env f ⟨.listOrders status, inp⟩ w
      (jsonReply env (listJson ((matching status w.table).map (listed env)))) w' := by
  have h : EndsWith env f ⟨start ⟨.listOrders status, inp⟩ w, 0⟩ (fun reply _ _ =>
      reply = jsonReply env (listJson ((matching status w.table).map (listed env)))) := by
    rw [endsWith_start]
    simp only [enter]
    rw [endsWith_prepare (fun _ => rfl) rfl rfl (fun _ => rfl), hok]
    dsimp only
    rw [loop_complete ht _ _ _ rfl fun n _ => hok _, ahead_eq_matching ht hnul]
    rfl
  obtain ⟨reply, w', -, hends, rfl⟩ := ends_of_endsWith h
  exact ⟨w', hends⟩

end

/-! ## §3. A faithful view. -/

/-- **The property**: a 200 with an array that has one element for each row that is
    asked for, in the order of the table, and each element is what `get_order`
    answers from SQLite for that row. -/
structure FaithfulList (env : Env) (f : Fate) (status : Option String) (inp : Inputs)
    (w : World) : Prop where
  answered : ∃ w', Ends env f ⟨.listOrders status, inp⟩ w
    (jsonReply env (.object [("orders", .list ((matching status w.table).map (listed env)))])) w'
  same : ∀ r ∈ matching status w.table, ∃ o : PathParam, o.val = r.orderNo ∧ ∀ (g : Fate)
    (inp : Inputs), (∀ n, g.sqlite n = .ok) → hitsCache env g o.val w = false →
      ∃ w', Ends env g ⟨.getOrder o, inp⟩ w (jsonReply env (listed env r)) w'

/-- A null and an empty list are told apart by their texts. -/
theorem null_not_list {env : Env} (hdump : SoleDump env.dump) :
    jsonReply env (.object [("orders", .null)]) ≠ jsonReply env (.object [("orders", .list [])]) := by
  intro h
  have hbody := congrArg Response.body (Reply.returned.inj h)
  refine @SoleDump.ne _ hdump "orders" .null (.list []) trivial rfl (fun fmt fmt' => ?_) hbody
  simp only [WValue.dump, WValue.dumpList]
  decide

/-- **When `list_orders` is a faithful view.**  For every table that satisfies the
    row invariant and every status parameter, with SQLite at work and nobody in
    between: it is if and only if at least one row is asked for.  The rows for
    PENDING and PAID are a partition of all rows in any case. -/
theorem list_faithful_iff (env : Env) (hdump : SoleDump env.dump) (w : World)
    (hrows : RowsOk w.table) (ht : InRowidOrder w.table) (f : Fate) (hok : ∀ n, f.sqlite n = .ok)
    (status : Option String) (hnul : ∀ s, status = some s → NoNul s) (inp : Inputs) :
    (FaithfulList env f status inp w ↔ matching status w.table ≠ [])
      ∧ (matching (some "PENDING") w.table ++ matching (some "PAID") w.table).Perm
        (matching none w.table) := by
  refine ⟨?_, matching_partition hrows⟩
  obtain ⟨w', hends⟩ : ∃ w', Ends env f ⟨.listOrders status, inp⟩ w
      (jsonReply env (listJson ((matching status w.table).map (listed env)))) w' :=
    list_ends ht hok hnul inp
  constructor
  · intro hfaithful hempty
    obtain ⟨w'', hends'⟩ := hfaithful.answered
    rw [hempty] at hends hends'
    exact null_not_list hdump (hends.unique hends').1
  · intro hne
    have hlist : listJson ((matching status w.table).map (listed env))
        = .object [("orders", .list ((matching status w.table).map (listed env)))] := by
      unfold listJson
      rw [if_neg (by simpa using hne)]
    rw [hlist] at hends
    exact ⟨⟨w', hends⟩, fun r hr => get_listed hrows (List.mem_of_mem_filter hr)⟩

/-- The empty table is well formed. -/
theorem rowsOk_empty : RowsOk Keyed.empty := fun _ hr => absurd hr List.not_mem_nil

/-- A table with a PAID and two PENDING orders. -/
def threeOrders : Table where
  rows :=
    [⟨1, "ORD17000000007", one, "PAID", 1700000000, 1700000009⟩,
      ⟨2, "ORD17000000018", one, "PENDING", 1700000001, 0⟩,
      ⟨4, "ORD1700000003123", one, "PENDING", 1700000003, 0⟩]
  nodup := by decide

/-- Its rows are well formed. -/
theorem rowsOk_threeOrders : RowsOk threeOrders := by
  have hform : ∀ n : Nat, OrderForm ("ORD" ++ toString n) := fun n =>
    ⟨(toString n).toList, String.toList_append, (toString_nat_digits n).1,
      (toString_nat_digits n).2⟩
  intro r hr
  simp only [threeOrders, List.mem_cons, List.not_mem_nil, or_false] at hr
  obtain rfl | rfl | rfl := hr
  · exact ⟨hform 17000000007, by decide, .inr rfl, by decide⟩
  · exact ⟨hform 17000000018, by decide, .inl rfl, by decide⟩
  · exact ⟨hform 1700000003123, by decide, .inl rfl, by decide⟩

/-- The PENDING orders of that table, and all of its orders. -/
theorem list_faithful_iff_threeOrders : RowsOk threeOrders ∧ InRowidOrder threeOrders ∧
    FaithfulList sampleEnv .allOk (some "PENDING") {} { table := threeOrders } ∧
    (matching (some "PENDING") threeOrders).map Row.rowid = [2, 4] ∧
    FaithfulList sampleEnv .allOk none {} { table := threeOrders } ∧
    (matching none threeOrders).map Row.rowid = [1, 2, 4] := by
  have horder : InRowidOrder threeOrders := by
    unfold InRowidOrder
    decide
  have hnul : ∀ s, some "PENDING" = some s → NoNul s := by
    intro s hs
    rw [← Option.some.inj hs]
    decide
  have hiff := fun (status : Option String) (hnul : ∀ s, status = some s → NoNul s) =>
    (list_faithful_iff sampleEnv (soleDump_dump _) { table := threeOrders } rowsOk_threeOrders
      horder .allOk (fun _ => rfl) status hnul {}).1
  exact ⟨rowsOk_threeOrders, horder, (hiff _ hnul).mpr (by decide), by decide,
    (hiff none fun s hs => by cases hs).mpr (by decide), by decide⟩

/-- A new service answers with a null where the array should be. -/
theorem empty_list_is_null :
    ¬ ∀ (env : Env) (w : World) (f : Fate) (status : Option String) (inp : Inputs),
      RowsOk w.table → InRowidOrder w.table → (∀ n, f.sqlite n = .ok) →
      (∀ s, status = some s → NoNul s) → FaithfulList env f status inp w := by
  intro hall
  obtain ⟨⟨w', hends⟩, -⟩ := hall sampleEnv {} .allOk none {} rowsOk_empty inRowidOrder_empty
    (fun _ => rfl) (fun s hs => by cases hs)
  have hnull : Ends sampleEnv .allOk ⟨.listOrders none, {}⟩ {}
      (jsonReply sampleEnv (.object [("orders", .null)])) {} := ⟨3, by rfl, by rfl⟩
  exact null_not_list (soleDump_dump _) (hnull.unique hends).1

end OrderApi.Orders
