/-
  OrderApi.Lib.PercentText
  ────────────────────────
  **PERCENT-ENCODED TEXTS.**

  `%` and two hexadecimal digits stand for a byte, and `+` for a blank.  A text ends
  in front of the first stop character.  `decoded` also tells whether the text came
  to its end or to an escape that is none.

    • `Decodes.eq`           the relation that proofs go along is the function;
    • `Decodes.append`       what comes behind a stop character does not matter;
    • `Encodes.decodes`      whatever way a text is encoded, it is decoded again.
-/
import OrderApi.Lib.JsonText

namespace OrderApi.Lib.PercentText

open OrderApi.Lib.JsonText (hexDigit)

/-! ## §1. Decoding. -/

/-- The byte of two hexadecimal digits. -/
def escaped (a b : Char) : Option Char :=
  match hexDigit a, hexDigit b with
  | some x, some y => some (Char.ofNat (x * 16 + y))
  | _, _ => none

/-- The text, and whether its escapes are well formed. -/
def decoded (stop : Char → Bool) : List Char → List Char × Bool
  | [] => ([], true)
  | '%' :: a :: b :: cs =>
      match escaped a b with
      | some d => (decoded stop cs).map (d :: ·) id
      | none => ([], false)
  | c :: cs =>
      if stop c then ([], true)
      else if c = '%' then ([], false)
      else (decoded stop cs).map ((if c = '+' then ' ' else c) :: ·) id

/-- What a stop character may be. -/
structure Stops (stop : Char → Bool) : Prop where
  percent : stop '%' = false
  plus : stop '+' = false
  digit : ∀ c, (hexDigit c).isSome = true → stop c = false

/-- Decoding, along the text. -/
inductive Decodes (stop : Char → Bool) : List Char → List Char → Bool → Prop where
  | empty : Decodes stop [] [] true
  | stopped {c : Char} {cs : List Char} (h : stop c = true) : Decodes stop (c :: cs) [] true
  | escape {a b d : Char} {cs text : List Char} {ok : Bool} (h : escaped a b = some d)
      (tail : Decodes stop cs text ok) : Decodes stop ('%' :: a :: b :: cs) (d :: text) ok
  | malformed {cs : List Char} (h : ∀ a b cs', cs = a :: b :: cs' → escaped a b = none) :
      Decodes stop ('%' :: cs) [] false
  | blank {cs text : List Char} {ok : Bool} (tail : Decodes stop cs text ok) :
      Decodes stop ('+' :: cs) (' ' :: text) ok
  | plain {c : Char} {cs text : List Char} {ok : Bool} (hstop : stop c = false)
      (hpercent : c ≠ '%') (hplus : c ≠ '+') (tail : Decodes stop cs text ok) :
      Decodes stop (c :: cs) (c :: text) ok

variable {stop : Char → Bool}

/-- The function follows the relation. -/
theorem decodes_decoded (cs : List Char) :
    Decodes stop cs (decoded stop cs).1 (decoded stop cs).2 := by
  induction cs using decoded.induct stop with
  | case1 => exact .empty
  | case2 a b cs d h ih =>
      rw [decoded, h]
      exact .escape h ih
  | case3 a b cs h =>
      rw [decoded, h]
      refine .malformed fun a' b' cs' heq => ?_
      injection heq with ha heq
      injection heq with hb heq
      rw [← ha, ← hb]
      exact h
  | case4 c cs hshort h =>
      have hdone : decoded stop (c :: cs) = ([], true) := by
        rw [decoded.eq_3 _ _ _ hshort, if_pos h]
      rw [hdone]
      exact .stopped h
  | case5 cs hshort h =>
      have hdone : decoded stop ('%' :: cs) = ([], false) := by
        rw [decoded.eq_3 _ _ _ hshort, if_neg h, if_pos rfl]
      rw [hdone]
      exact .malformed fun a b cs' heq => (hshort a b cs' rfl heq).elim
  | case6 c cs hshort h hpercent ih =>
      have hmore : decoded stop (c :: cs)
          = (decoded stop cs).map ((if c = '+' then ' ' else c) :: ·) id := by
        rw [decoded.eq_3 _ _ _ hshort, if_neg h, if_neg hpercent]
      rw [hmore]
      by_cases hplus : c = '+'
      · subst hplus
        exact .blank ih
      · rw [if_neg hplus]
        exact .plain (Bool.eq_false_iff.mpr h) hpercent hplus ih

/-- The relation determines the result. -/
theorem Decodes.unique (hstop : Stops stop) {cs text text' : List Char} {ok ok' : Bool}
    (h : Decodes stop cs text ok) (h' : Decodes stop cs text' ok') : text = text' ∧ ok = ok' := by
  induction h generalizing text' ok' with
  | empty => cases h'; exact ⟨rfl, rfl⟩
  | stopped hs =>
      cases h' with
      | stopped => exact ⟨rfl, rfl⟩
      | escape => rw [hstop.percent] at hs; cases hs
      | malformed => rw [hstop.percent] at hs; cases hs
      | blank => rw [hstop.plus] at hs; cases hs
      | plain hs' => rw [hs'] at hs; cases hs
  | escape he _ ih =>
      cases h' with
      | stopped hs => rw [hstop.percent] at hs; cases hs
      | escape he' tail =>
          obtain ⟨rfl, rfl⟩ := ih tail
          rw [he] at he'
          obtain rfl := Option.some.inj he'
          exact ⟨rfl, rfl⟩
      | malformed hbad => rw [hbad _ _ _ rfl] at he; cases he
      | plain _ hne => exact absurd rfl hne
  | malformed hbad =>
      cases h' with
      | stopped hs => rw [hstop.percent] at hs; cases hs
      | escape he => rw [hbad _ _ _ rfl] at he; cases he
      | malformed => exact ⟨rfl, rfl⟩
      | plain _ hne => exact absurd rfl hne
  | blank _ ih =>
      cases h' with
      | stopped hs => rw [hstop.plus] at hs; cases hs
      | blank tail =>
          obtain ⟨rfl, rfl⟩ := ih tail
          exact ⟨rfl, rfl⟩
      | plain _ _ hne => exact absurd rfl hne
  | plain hs hpercent hplus _ ih =>
      cases h' with
      | stopped hs' => rw [hs] at hs'; cases hs'
      | escape => exact absurd rfl hpercent
      | malformed => exact absurd rfl hpercent
      | blank => exact absurd rfl hplus
      | plain _ _ _ tail =>
          obtain ⟨rfl, rfl⟩ := ih tail
          exact ⟨rfl, rfl⟩

theorem Decodes.eq (hstop : Stops stop) {cs text : List Char} {ok : Bool}
    (h : Decodes stop cs text ok) : decoded stop cs = (text, ok) := by
  obtain ⟨htext, hok⟩ := h.unique hstop (decodes_decoded cs)
  rw [htext, hok]

/-- A text does not get longer. -/
theorem Decodes.length {cs text : List Char} {ok : Bool} (h : Decodes stop cs text ok) :
    text.length ≤ cs.length := by
  induction h with
  | empty => exact Nat.le_refl 0
  | stopped => exact Nat.zero_le _
  | malformed => exact Nat.zero_le _
  | escape _ _ ih => simp only [List.length_cons]; omega
  | blank _ ih => simp only [List.length_cons]; omega
  | plain _ _ _ _ ih => simp only [List.length_cons]; omega

/-! ## §2. Behind a stop character. -/

/-- An escape has two hexadecimal digits. -/
theorem escaped_some {a b d : Char} (h : escaped a b = some d) :
    (hexDigit a).isSome = true ∧ (hexDigit b).isSome = true := by
  unfold escaped at h
  cases ha : hexDigit a with
  | none => rw [ha] at h; cases h
  | some x =>
      cases hb : hexDigit b with
      | none => rw [ha, hb] at h; cases h
      | some y => exact ⟨rfl, rfl⟩

/-- An escape does not reach over a stop character. -/
theorem Decodes.append (hstop : Stops stop) {cs text : List Char} {ok : Bool}
    (h : Decodes stop cs text ok) {d : Char} (hd : stop d = true) (rest : List Char) :
    Decodes stop (cs ++ d :: rest) text ok := by
  induction h with
  | empty => exact .stopped hd
  | stopped hs => exact .stopped hs
  | escape he _ ih => exact .escape he ih
  | blank _ ih => exact .blank ih
  | plain hs hpercent hplus _ ih => exact .plain hs hpercent hplus ih
  | malformed hbad =>
      rename_i cs
      refine .malformed fun a b cs' heq => ?_
      cases hab : escaped a b with
      | none => rfl
      | some e =>
          obtain ⟨ha, hb⟩ := escaped_some hab
          have hda : d ≠ a := fun heq => by rw [heq, hstop.digit a ha] at hd; cases hd
          have hdb : d ≠ b := fun heq => by rw [heq, hstop.digit b hb] at hd; cases hd
          match cs, hbad with
          | [], _ =>
              injection heq with h₁
              exact absurd h₁ hda
          | [c], _ =>
              injection heq with _ heq
              injection heq with h₂
              exact absurd h₂ hdb
          | c :: c' :: cs, hbad =>
              injection heq with h₁ heq
              injection heq with h₂ heq
              rw [← hab, ← h₁, ← h₂]
              exact hbad c c' cs rfl

/-- What is in front of the first stop character is all that is decoded. -/
theorem decoded_append (hstop : Stops stop) (cs : List Char) {d : Char} (hd : stop d = true)
    (rest : List Char) : decoded stop (cs ++ d :: rest) = decoded stop cs :=
  ((decodes_decoded cs).append hstop hd rest).eq hstop

/-! ## §3. Encoding. -/

/-- The ways a text may be encoded. -/
inductive Encodes (stop : Char → Bool) : List Char → List Char → Prop where
  | nil : Encodes stop [] []
  | plain {c : Char} {s text : List Char} (hstop : stop c = false) (hpercent : c ≠ '%')
      (hplus : c ≠ '+') (tail : Encodes stop s text) : Encodes stop (c :: s) (c :: text)
  | blank {s text : List Char} (tail : Encodes stop s text) :
      Encodes stop (' ' :: s) ('+' :: text)
  | escape {a b d : Char} {s text : List Char} (h : escaped a b = some d)
      (tail : Encodes stop s text) : Encodes stop (d :: s) ('%' :: a :: b :: text)

/-- **What is encoded is decoded again**, to the end. -/
theorem Encodes.decodes {s text : List Char} (h : Encodes stop s text) :
    Decodes stop text s true := by
  induction h with
  | nil => exact .empty
  | plain hs hpercent hplus _ ih => exact .plain hs hpercent hplus ih
  | blank _ ih => exact .blank ih
  | escape he _ ih => exact .escape he ih

/-- An encoded text has no stop character. -/
theorem Encodes.noStop (hstop : Stops stop) {s text : List Char} (h : Encodes stop s text) :
    ∀ c ∈ text, stop c = false := by
  induction h with
  | nil => exact fun c hc => absurd hc List.not_mem_nil
  | plain hs _ _ _ ih => exact List.forall_mem_cons.mpr ⟨hs, ih⟩
  | blank _ ih => exact List.forall_mem_cons.mpr ⟨hstop.plus, ih⟩
  | escape he _ ih =>
      obtain ⟨ha, hb⟩ := escaped_some he
      exact List.forall_mem_cons.mpr ⟨hstop.percent, List.forall_mem_cons.mpr
        ⟨hstop.digit _ ha, List.forall_mem_cons.mpr ⟨hstop.digit _ hb, ih⟩⟩⟩

end OrderApi.Lib.PercentText
