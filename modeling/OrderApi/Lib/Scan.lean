/-
  OrderApi.Lib.Scan
  ─────────────────
  **A CURSOR OVER A CHANGING TABLE.**

  A scan asks at one moment after the other for the next row behind its cursor, in
  the order of a numeric key, and each time it sees the table of that moment.
  Moments are of any type; `at` tells the rows there are at a moment.

    • `Reads.mem`       every row was there when it was read;
    • `Reads.sorted`    no row number is read twice, and they come in order;
    • `Reads.lasting`   a row that is there, as it is, at every read is read;
    • `Reads.const`     of a table that does not change the scan reads all of it.
-/
import Mathlib.Data.List.Pairwise
import Mathlib.Tactic.Common

namespace OrderApi.Lib.Scan

variable {M α : Type*} (number : α → Nat) (p : α → Bool)

/-- The first row behind a cursor that is asked for. -/
def next (l : List α) (cursor : Nat) : Option α :=
  l.find? (fun r => cursor < number r && p r)

/-- The rows behind a cursor that are asked for. -/
def behind (l : List α) (cursor : Nat) : List α :=
  l.filter (fun r => cursor < number r && p r)

/-- What a scan has read, each row with the moment of its reading, and where its
    cursor stands. -/
inductive Reads (at_ : M → List α) : List (M × α) → Nat → Prop where
  | start : Reads at_ [] 0
  | read {reads : List (M × α)} {cursor : Nat} {m : M} {r : α} (so_far : Reads at_ reads cursor)
      (row : next number p (at_ m) cursor = some r) : Reads at_ (reads ++ [(m, r)]) (number r)

/-- The rows stand in the order of their numbers. -/
def Ordered (l : List α) : Prop := l.Pairwise (fun a b => number a < number b)

variable {number p}

/-! ## §1. One read. -/

theorem next_some {l : List α} {cursor : Nat} {r : α} (h : next number p l cursor = some r) :
    r ∈ l ∧ cursor < number r ∧ p r = true := by
  have hsome := List.find?_some h
  simp only [Bool.and_eq_true, decide_eq_true_eq] at hsome
  exact ⟨List.mem_of_find?_eq_some h, hsome.1, hsome.2⟩

theorem next_none {l : List α} {cursor : Nat} (h : next number p l cursor = none) {r : α}
    (hr : r ∈ l) (hp : p r = true) : number r ≤ cursor := by
  have hnot := List.find?_eq_none.mp h r hr
  simp only [hp, Bool.and_true, decide_eq_true_eq] at hnot
  omega

/-- The row that is read is the least of those asked for. -/
theorem next_least {l : List α} (hl : Ordered number l) {cursor : Nat} {r r' : α}
    (h : next number p l cursor = some r) (hr : r' ∈ l) (hp : p r' = true)
    (hcursor : cursor < number r') : r' = r ∨ number r < number r' := by
  obtain ⟨-, before, after, rfl, hbefore⟩ := List.find?_eq_some_iff_append.mp h
  rcases List.mem_append.mp hr with hmem | hmem
  · have hnot := hbefore r' hmem
    simp [hcursor, hp] at hnot
  · rcases List.mem_cons.mp hmem with rfl | hmem
    · exact .inl rfl
    · refine .inr ?_
      have htail := (List.pairwise_append.mp hl).2.1
      exact (List.pairwise_cons.mp htail).1 r' hmem

/-! ## §2. A whole scan. -/

namespace Reads

variable {at_ : M → List α} {reads : List (M × α)} {cursor : Nat}

/-- Every row was there when it was read, and was asked for. -/
theorem mem (h : Reads number p at_ reads cursor) : ∀ x ∈ reads, x.2 ∈ at_ x.1 ∧ p x.2 = true := by
  induction h with
  | start => exact fun x hx => absurd hx List.not_mem_nil
  | read so_far row ih =>
      intro x hx
      rcases List.mem_append.mp hx with hx | hx
      · exact ih x hx
      · obtain rfl := List.mem_singleton.mp hx
        exact ⟨(next_some row).1, (next_some row).2.2⟩

/-- What has been read is up to the cursor. -/
theorem le_cursor (h : Reads number p at_ reads cursor) : ∀ x ∈ reads, number x.2 ≤ cursor := by
  induction h with
  | start => exact fun x hx => absurd hx List.not_mem_nil
  | read so_far row ih =>
      intro x hx
      rcases List.mem_append.mp hx with hx | hx
      · exact Nat.le_trans (ih x hx) (Nat.le_of_lt (next_some row).2.1)
      · obtain rfl := List.mem_singleton.mp hx
        exact Nat.le_refl _

/-- The numbers of the rows increase. -/
theorem sorted (h : Reads number p at_ reads cursor) :
    reads.Pairwise (fun x y => number x.2 < number y.2) := by
  induction h with
  | start => exact List.Pairwise.nil
  | read so_far row ih =>
      refine List.pairwise_append.mpr ⟨ih, List.pairwise_singleton _ _, ?_⟩
      intro x hx y hy
      obtain rfl := List.mem_singleton.mp hy
      exact Nat.lt_of_le_of_lt (so_far.le_cursor x hx) (next_some row).2.1

/-- A row that is there at every read, as it is, has been read by the time the
    cursor is past it. -/
theorem lasting (h : Reads number p at_ reads cursor)
    (hordered : ∀ x ∈ reads, Ordered number (at_ x.1)) {r : α} (hp : p r = true)
    (hpos : 0 < number r) (hthere : ∀ x ∈ reads, r ∈ at_ x.1) (hcursor : number r ≤ cursor) :
    r ∈ reads.map Prod.snd := by
  induction h with
  | start => omega
  | @read reads cursor m r' so_far row ih =>
      rw [List.map_append, List.mem_append]
      by_cases hpast : number r ≤ cursor
      · left
        refine ih ?_ ?_ hpast
        · exact fun x hx => hordered x (List.mem_append_left _ hx)
        · exact fun x hx => hthere x (List.mem_append_left _ hx)
      · right
        have hlast : (m, r') ∈ reads ++ [(m, r')] :=
          List.mem_append_right _ List.mem_cons_self
        -- the row read last is not behind this one, so it is this one
        rcases next_least (hordered _ hlast) row (hthere _ hlast) hp (Nat.lt_of_not_le hpast) with
          rfl | hlt
        · exact List.mem_singleton_self _
        · omega

/-- Of a table that stays as it is the scan has read what is not behind its
    cursor. -/
theorem const (h : Reads number p at_ reads cursor) {l : List α} (hl : Ordered number l)
    (hconst : ∀ x ∈ reads, at_ x.1 = l) :
    reads.map Prod.snd ++ behind number p l cursor = behind number p l 0 := by
  induction h with
  | start => rfl
  | @read reads cursor m r so_far row ih =>
      have hm : at_ m = l := hconst (m, r) (List.mem_append_right _ List.mem_cons_self)
      rw [← ih fun x hx => hconst x (List.mem_append_left _ hx), List.map_append, List.append_assoc]
      rw [hm] at row
      refine congrArg _ ?_
      -- the row read is the first of those behind the old cursor
      obtain ⟨hr, before, after, rfl, hbefore⟩ := List.find?_eq_some_iff_append.mp row
      obtain ⟨-, hcursor, hp⟩ := next_some row
      have hsorted := List.pairwise_append.mp hl
      have hafter := List.pairwise_cons.mp hsorted.2.1
      unfold behind
      rw [List.filter_append, List.filter_append, List.filter_cons, List.filter_cons]
      have hnone : ∀ c, cursor ≤ c → before.filter (fun r => c < number r && p r) = [] := by
        intro c hc
        refine List.filter_eq_nil_iff.mpr fun x hx => ?_
        have hnot := hbefore x hx
        simp only [Bool.and_eq_false_iff, decide_eq_false_iff_not, Bool.not_eq_true'] at hnot
        simp only [Bool.and_eq_true, decide_eq_true_eq, not_and]
        intro hlt hpx
        rcases hnot with hnot | hnot
        · omega
        · rw [hnot] at hpx
          cases hpx
      have hsame : after.filter (fun x => number r < number x && p x)
          = after.filter (fun x => cursor < number x && p x) := by
        refine List.filter_congr fun x hx => ?_
        have hlt := hafter.1 x hx
        have hlt' : cursor < number x := Nat.lt_trans hcursor hlt
        simp [hlt, hlt']
      rw [hnone cursor (Nat.le_refl _), hnone (number r) (Nat.le_of_lt hcursor), hsame]
      simp [hcursor, hp]

end Reads

end OrderApi.Lib.Scan
