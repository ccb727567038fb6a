/-
  OrderApi.Orders.Keys
  ────────────────────
  **THE KEY IN THE TABLE AND THE KEY IN THE CACHE.**

  `pay_order` hands its `order_no` to SQLite with length -1, which reads it up to
  the first NUL, and to Redis and the response as an `std::string`, NUL and all.
  The two name the same order if and only if there is no NUL; and the JSON reader
  makes one from the escape `\u0000`, which both definitions of `is_valid_order_no`
  let through.
-/
import OrderApi.Orders.Bodies
import OrderApi.Orders.SqliteErrors

namespace OrderApi.Orders

open OrderApi.Lib
open OrderApi.Crow
open OrderApi.Model

/-- The row `k` is not what it was. -/
def Changed (k : String) (w w' : World) : Prop := w'.table.find k ≠ w.table.find k

/-- **The two keys agree**: the changed row is the one of the decoded `o`, its
    cache entry and no other is deleted, its key is echoed; and without a changed
    row Redis is as before. -/
structure KeysAgree (env : Env) (o : String) (w : World) (reply : Reply) (w' : World) : Prop where
  row : ∀ k, Changed k w w' → k = o
  cache : ∀ k, Changed k w w' → w'.cache = Function.update w.cache (cacheKey k) none
  echo : ∀ k, Changed k w w' →
    ∃ v, reply = jsonReply env v ∧ v.member "order_no" = some (.str k)
  frame : (∀ k, ¬ Changed k w w') → w'.cache = w.cache

/-- The `pay_order` of `o` goes through. -/
def PayCommits (f : Fate) (o : String) (w : World) : Prop :=
  UnpaidRow (cStr o) w.table ∧ ∀ n < 4, f.sqlite n = .ok

theorem noNul_of_cStr {o : String} (h : cStr o = o) : NoNul o := by
  intro hmem
  rw [← h, cStr, String.toList_ofList] at hmem
  simpa using List.mem_takeWhile_imp hmem

section
variable {env : Env} {f : Fate} {o : String} {w w' : World} {reply : Reply}

/-- A payment that does not come to its UPDATE. -/
theorem keysAgree_untouched (htable : w'.table = w.table) (hcache : w'.cache = w.cache) :
    KeysAgree env o w reply w' := by
  have hno : ∀ k, ¬ Changed k w w' := by
    intro k h
    exact h (by rw [htable])
  exact ⟨fun k h => absurd h (hno k), fun k h => absurd h (hno k), fun k h => absurd h (hno k),
    fun _ => hcache⟩

/-- A payment that goes through changes the row of the bytes before the NUL and
    deletes the entry of the whole string. -/
theorem keysAgree_committed_iff {v : WValue} (now : Int) (hunpaid : UnpaidRow (cStr o) w.table)
    (htable : w'.table = w.table.updatePaid (cStr o) now)
    (hcache : w'.cache = Function.update w.cache (cacheKey o) none)
    (hv : v.member "order_no" = some (.str o)) :
    KeysAgree env o w (jsonReply env v) w' ↔ NoNul o := by
  obtain ⟨r, hr, hst⟩ := hunpaid
  have hchanged : Changed (cStr o) w w' := by
    unfold Changed
    rw [htable, Table.find_updatePaid, if_pos rfl, hr]
    intro h
    exact hst (congrArg Row.status (Option.some.inj h)).symm
  have honly : ∀ k, Changed k w w' → k = cStr o := by
    intro k hk
    by_contra hne
    refine hk ?_
    rw [htable, Table.find_updatePaid, if_neg hne]
  constructor
  · exact fun h => noNul_of_cStr (h.row _ hchanged)
  · intro hnul
    rw [cStr_eq_self hnul] at hchanged honly
    refine ⟨honly, fun k hk => ?_, fun k hk => ?_, fun hnone => absurd hchanged (hnone o)⟩
    · rw [honly k hk]
      exact hcache
    · rw [honly k hk]
      exact ⟨v, rfl, hv⟩

/-- The DEL of a payment, Redis reachable. -/
theorem invalidate_cache (hredis : env.redis = true) (w : World) :
    (invalidateCachedOrder env .ok o w).cache = Function.update w.cache (cacheKey o) none := by
  unfold invalidateCachedOrder redisWrite
  rw [if_pos hredis]
  rfl

end

/-- **When the database key and the cache key agree.**  For every accepted body
    and every state with Redis reachable, the payment is answered, and the keys
    agree if and only if the decoded order number has no NUL or the payment does
    not go through. -/
theorem keysAgree_iff (env : Env) (f : Fate) (body o : String) (inp : Inputs) (w : World)
    (hredis : env.redis = true) (hcalls : ∀ n, f.redis n = .ok)
    (hbody : payOrderNo env body = .ok o) :
    ∃ reply w', Ends env f ⟨.payOrder body, inp⟩ w reply w' ∧
      (KeysAgree env o w reply w' ↔ NoNul o ∨ ¬ PayCommits f o w) := by
  obtain ⟨reply, w', failed, hends, hpay⟩ := ends_of_endsWith (pay_ends (f := f) (w := w) inp hbody)
  refine ⟨reply, w', hends, ?_⟩
  -- unless the UPDATE was made, row and entry are what they were
  cases hpay with
  | failed n message lt fails select w₀ tried =>
      refine iff_of_true ?_ (.inr fun hcommits => fails (hcommits.2 n lt))
      rcases tried with rfl | rfl <;> exact keysAgree_untouched rfl rfl
  | disguised prepared fails =>
      refine iff_of_true (keysAgree_untouched rfl rfl) (.inr ?_)
      exact fun hcommits => fails (hcommits.2 1 (by decide))
  | missing select row =>
      refine iff_of_true (keysAgree_untouched rfl rfl) (.inr ?_)
      rintro ⟨⟨r, hr, -⟩, -⟩
      rw [row] at hr
      cases hr
  | paid select row =>
      refine iff_of_true (keysAgree_untouched rfl rfl) (.inr ?_)
      rintro ⟨⟨r, hr, hst⟩, -⟩
      obtain ⟨r', hr', hpaid⟩ := row
      rw [hr] at hr'
      cases hr'
      exact hst hpaid
  | committed calls row amount createdAt =>
      have hcommits : PayCommits f o w := ⟨row, calls⟩
      rw [hcalls]
      refine Iff.trans (keysAgree_committed_iff inp.now row ?_ ?_ ?_)
        ⟨.inl, fun h => h.resolve_right (not_not_intro hcommits)⟩
      · exact redisWrite_table env .ok (World.redisDel o) _ rfl
      · exact invalidate_cache hredis _
      · rfl

/-- The body `{"order_no":"ORD17000000007\u0000x"}`. -/
def nulPayBody : String := "\x7b\"order_no\":\"ORD17000000007\\u0000x\"\x7d"

theorem payOrderNo_nulPayBody : payOrderNo readingEnv nulPayBody = .ok "ORD17000000007\x00x" := by
  rfl

/-- A payment whose number has no NUL. -/
theorem keysAgree_iff_samplePay : readingEnv.redis = true ∧ (∀ n, Fate.allOk.redis n = .ok) ∧
    payOrderNo readingEnv samplePayBody = .ok "ORD17000000007" ∧
    ∃ reply w', Ends readingEnv .allOk ⟨.payOrder samplePayBody, {}⟩ sampleStored reply w' ∧
      (KeysAgree readingEnv "ORD17000000007" sampleStored reply w' ↔
        NoNul "ORD17000000007" ∨ ¬ PayCommits .allOk "ORD17000000007" sampleStored) := by
  have hbody : payOrderNo readingEnv samplePayBody = .ok "ORD17000000007" := by rfl
  exact ⟨rfl, fun _ => rfl, hbody,
    keysAgree_iff readingEnv .allOk samplePayBody _ {} sampleStored rfl (fun _ => rfl) hbody⟩

/-- A body with the escape pays the order `ORD17000000007` and says it paid
    another one. -/
theorem nul_pays_another :
    ¬ ∀ (env : Env) (f : Fate) (body o : String) (inp : Inputs) (w : World),
      env.redis = true → (∀ n, f.redis n = .ok) → payOrderNo env body = .ok o →
        ∀ reply w', Ends env f ⟨.payOrder body, inp⟩ w reply w' → KeysAgree env o w reply w' := by
  intro hall
  have h := hall readingEnv .allOk nulPayBody _ {} sampleStored rfl (fun _ => rfl)
    payOrderNo_nulPayBody _ _ ⟨6, rfl, rfl⟩
  have hrow := h.row "ORD17000000007" (by unfold Changed; decide)
  exact absurd hrow (by decide)

end OrderApi.Orders
