/-
  OrderApi.Lib.Keyed
  ──────────────────
  **TABLES WITH A PRIMARY KEY.**

  A table is the list of its rows in insertion order, and it carries the proof
  that no key occurs twice, so a table with a duplicated key cannot be built.
  The four statements are `find` (SELECT by key), `insert?` (INSERT, refused on
  a key conflict), `modify` (UPDATE by key) and `erase` (DELETE by key).

  Two groups of facts: what each statement does to `find` (§2), and which
  statements commute AS TABLES, row order included (§3).
-/
import Mathlib.Data.List.Nodup
import Mathlib.Tactic.Common

namespace OrderApi.Lib

/-- Rows in insertion order, no key twice. -/
@[ext] structure Keyed {α κ : Type*} (key : α → κ) where
  rows : List α
  nodup : (rows.map key).Nodup

namespace Keyed

variable {α κ : Type*} [DecidableEq κ] {key : α → κ}

/-! ## §1. The statements. -/

/-- The table with no rows. -/
def empty : Keyed key := ⟨[], List.nodup_nil⟩

/-- The row stored under `k`. -/
def find (t : Keyed key) (k : κ) : Option α := t.rows.find? (fun r => key r = k)

/-- Append a row; refused when its key is taken. -/
def insert? (t : Keyed key) (x : α) : Option (Keyed key) :=
  if h : key x ∈ t.rows.map key then none
  else some ⟨t.rows ++ [x], by
    rw [List.map_append, List.map_singleton]
    exact t.nodup.append (List.nodup_singleton _) (by simpa using h)⟩

/-- Rewrite the row stored under `k` in place; `f` keeps the key. -/
def modify (t : Keyed key) (k : κ) (f : α → α) (hf : ∀ r, key (f r) = key r) : Keyed key :=
  ⟨t.rows.map (fun r => if key r = k then f r else r), by
    have hkeys : (t.rows.map (fun r => if key r = k then f r else r)).map key
        = t.rows.map key := by
      rw [List.map_map]
      refine List.map_congr_left fun r _ => ?_
      simp only [Function.comp_apply]
      split
      · exact hf r
      · rfl
    rw [hkeys]
    exact t.nodup⟩

/-- Remove the row stored under `k`. -/
def erase (t : Keyed key) (k : κ) : Keyed key :=
  ⟨t.rows.filter (fun r => key r ≠ k), t.nodup.sublist (List.filter_sublist.map key)⟩

/-- How many rows a statement `WHERE key = k` touches. -/
def count (t : Keyed key) (k : κ) : Nat := t.rows.countP (fun r => key r = k)

/-! ## §2. What the statements do to `find`. -/

@[simp] theorem find_empty (k : κ) : (empty : Keyed key).find k = none := rfl

theorem find_eq_none {t : Keyed key} {k : κ} : t.find k = none ↔ k ∉ t.rows.map key := by
  simp [find, List.find?_eq_none]

theorem mem_of_find {t : Keyed key} {k : κ} {r : α} (h : t.find k = some r) : r ∈ t.rows :=
  List.mem_of_find?_eq_some h

/-- A row is found under its own key. -/
theorem find_of_mem {t : Keyed key} {r : α} (h : r ∈ t.rows) : t.find (key r) = some r := by
  cases hf : t.find (key r) with
  | none => exact absurd (List.mem_map_of_mem h) (find_eq_none.mp hf)
  | some r' =>
      have hkey : key r' = key r := by simpa using List.find?_some hf
      rw [List.inj_on_of_nodup_map t.nodup (mem_of_find hf) h hkey]

theorem insert?_eq_none {t : Keyed key} {x : α} :
    t.insert? x = none ↔ ∃ r, t.find (key x) = some r := by
  rw [← Option.isSome_iff_exists, ← Option.ne_none_iff_isSome, ne_eq, find_eq_none, not_not]
  unfold insert?
  split <;> simp_all

/-- On any other it succeeds. -/
theorem insert?_isSome {t : Keyed key} {x : α} (h : t.find (key x) = none) :
    ∃ t', t.insert? x = some t' := by
  rw [← Option.ne_none_iff_exists']
  intro hn
  obtain ⟨r, hr⟩ := insert?_eq_none.mp hn
  rw [h] at hr
  cases hr

/-- The new row is the last one. -/
theorem rows_of_insert? {t t' : Keyed key} {x : α} (h : t.insert? x = some t') :
    t'.rows = t.rows ++ [x] := by
  unfold insert? at h
  split at h
  · cases h
  · cases h; rfl

/-- **INSERT**: the key of the new row is found now, and the others as before. -/
theorem find_insert? {t t' : Keyed key} {x : α} (h : t.insert? x = some t') (k : κ) :
    t'.find k = if key x = k then some x else t.find k := by
  -- an accepted row had a key that was not in use
  have hfresh : t.find (key x) = none := by
    cases hf : t.find (key x) with
    | none => rfl
    | some r =>
        rw [insert?_eq_none.mpr ⟨r, hf⟩] at h
        cases h
  unfold find at hfresh ⊢
  rw [rows_of_insert? h, List.find?_append]
  by_cases hk : key x = k
  · subst hk
    rw [hfresh]
    simp
  · simp [hk]

/-- **UPDATE**: the row of the key is changed, and the others are as before. -/
theorem find_modify (t : Keyed key) (k : κ) (f : α → α) (hf : ∀ r, key (f r) = key r) (k' : κ) :
    (t.modify k f hf).find k' = if k' = k then (t.find k).map f else t.find k' := by
  unfold find modify
  rw [List.find?_map]
  -- the rewritten rows are found under the keys they had before
  have hpred : (fun r => decide (key r = k')) ∘ (fun r => if key r = k then f r else r)
      = fun r => decide (key r = k') := by
    funext r
    simp only [Function.comp_apply]
    split <;> simp [hf]
  rw [hpred]
  split
  · next h =>
      subst h
      cases hr : t.rows.find? (fun r => decide (key r = k')) with
      | none => rfl
      | some r =>
          have : key r = k' := by simpa using List.find?_some hr
          simp [this]
  · next h =>
      cases hr : t.rows.find? (fun r => decide (key r = k')) with
      | none => rfl
      | some r =>
          have : key r = k' := by simpa using List.find?_some hr
          simp [this, h]

/-- **DELETE**: the row of the key is gone, and the others are as before. -/
theorem find_erase (t : Keyed key) (k k' : κ) :
    (t.erase k).find k' = if k' = k then none else t.find k' := by
  unfold find erase
  rw [List.find?_filter]
  split
  · next h =>
      subst h
      rw [List.find?_eq_none]
      simp
  · next h =>
      congr 1
      funext r
      by_cases hr : key r = k'
      · simp [hr, h]
      · simp [hr]

/-- With unique keys a statement `WHERE key = k` touches one row or none. -/
theorem count_eq_zero {t : Keyed key} {k : κ} : t.count k = 0 ↔ t.find k = none := by
  simp [count, find, List.countP_eq_zero, List.find?_eq_none]

theorem count_ne_zero {t : Keyed key} {k : κ} {r : α} (h : t.find k = some r) : t.count k ≠ 0 := by
  rw [ne_eq, count_eq_zero, h]
  simp

/-! ## §3. Statements that commute. -/

/-- An update of no row changes nothing. -/
theorem modify_of_find_none {t : Keyed key} {k : κ} (f : α → α) (hf : ∀ r, key (f r) = key r)
    (h : t.find k = none) : t.modify k f hf = t := by
  ext1
  rw [find_eq_none] at h
  -- no row has the key, so the map is the identity on every row
  show t.rows.map _ = t.rows
  conv_rhs => rw [← List.map_id t.rows]
  refine List.map_congr_left fun r hr => ?_
  have : key r ≠ k := fun hk => h (List.mem_map.mpr ⟨r, hr, hk⟩)
  simp [this]

theorem erase_of_find_none {t : Keyed key} {k : κ} (h : t.find k = none) : t.erase k = t := by
  refine Keyed.ext (List.filter_eq_self.mpr fun r hr => ?_)
  have hne : key r ≠ k := fun he => find_eq_none.mp h (he ▸ List.mem_map_of_mem hr)
  simpa using hne

/-- The second of two updates wins, where it writes over the first. -/
theorem modify_modify_self (t : Keyed key) (k : κ) (f g : α → α)
    (hf : ∀ r, key (f r) = key r) (hg : ∀ r, key (g r) = key r) (hgf : ∀ r, g (f r) = g r) :
    (t.modify k f hf).modify k g hg = t.modify k g hg := by
  ext1
  show (t.rows.map _).map _ = t.rows.map _
  rw [List.map_map]
  refine List.map_congr_left fun r _ => ?_
  by_cases hr : key r = k <;> simp [hr, hf, hgf]

/-- Updates of different keys commute. -/
theorem modify_comm (t : Keyed key) {k k' : κ} (hne : k ≠ k') (f g : α → α)
    (hf : ∀ r, key (f r) = key r) (hg : ∀ r, key (g r) = key r) :
    (t.modify k f hf).modify k' g hg = (t.modify k' g hg).modify k f hf := by
  ext1
  show (t.rows.map _).map _ = (t.rows.map _).map _
  rw [List.map_map, List.map_map]
  refine List.map_congr_left fun r _ => ?_
  by_cases hr : key r = k
  · subst hr
    have hfr : key (f r) ≠ k' := by rw [hf]; exact hne
    simp [hne, hfr]
  · by_cases hr' : key r = k' <;> simp [hr, hr', hg, Ne.symm hne]

/-- A delete commutes with an update. -/
theorem erase_modify (t : Keyed key) (k k' : κ) (f : α → α) (hf : ∀ r, key (f r) = key r) :
    (t.modify k f hf).erase k' = (t.erase k').modify k f hf := by
  ext1
  show (t.rows.map _).filter _ = (t.rows.filter _).map _
  rw [List.filter_map]
  congr 1
  refine List.filter_congr fun r _ => ?_
  simp only [Function.comp_apply]
  split <;> simp [hf]

/-- An INSERT under another key does not see an UPDATE. -/
theorem insert?_modify {t t' : Keyed key} {x : α} {k : κ} (hne : key x ≠ k) (f : α → α)
    (hf : ∀ r, key (f r) = key r) (h : t.insert? x = some t') :
    (t.modify k f hf).insert? x = some (t'.modify k f hf) := by
  -- the UPDATE brings no new key, so the INSERT is still accepted
  have hnone : (t.modify k f hf).find (key x) = none := by
    rw [find_modify, if_neg hne]
    cases hf' : t.find (key x) with
    | none => rfl
    | some r =>
        rw [insert?_eq_none.mpr ⟨r, hf'⟩] at h
        cases h
  obtain ⟨u, hu⟩ := insert?_isSome hnone
  rw [hu]
  congr 1
  ext1
  rw [rows_of_insert? hu]
  show t.rows.map _ ++ [x] = t'.rows.map _
  rw [rows_of_insert? h]
  simp [hne]

end Keyed

end OrderApi.Lib
