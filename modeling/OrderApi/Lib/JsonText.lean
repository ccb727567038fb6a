/-
  OrderApi.Lib.JsonText
  ─────────────────────
  **THE GRAMMAR OF JSON TEXTS** (RFC 8259), as relations on lists of characters.

  A string text is related to the string it denotes, an object text to its keys
  and the texts of its values.  Surrogate pairs are left out of the escapes, so
  what is derived here is JSON in the sense of the RFC.  `separated_intercalate`
  and `objectText_compact` are the rules for writers that join the parts with
  commas and put no whitespace anywhere.
-/
import Mathlib.Tactic.Common

namespace OrderApi.Lib.JsonText

/-! ## §1. Strings. -/

/-- Insignificant whitespace. -/
def Ws (cs : List Char) : Prop := ∀ c ∈ cs, c = ' ' ∨ c = '\t' ∨ c = '\n' ∨ c = '\r'

/-- The value of a hexadecimal digit. -/
def hexDigit (c : Char) : Option Nat :=
  if '0' ≤ c ∧ c ≤ '9' then some (c.toNat - 48)
  else if 'a' ≤ c ∧ c ≤ 'f' then some (c.toNat - 87)
  else if 'A' ≤ c ∧ c ≤ 'F' then some (c.toNat - 55)
  else none

/-- The two-character escapes: the letter, and what it stands for. -/
def escapes : List (Char × Char) :=
  [('"', '"'), ('\\', '\\'), ('/', '/'), ('b', '\x08'), ('f', '\x0c'), ('n', '\n'), ('r', '\r'),
    ('t', '\t')]

/-- How a character may be written inside a string. -/
inductive CharText : Char → List Char → Prop where
  | plain (c : Char) (control : 0x20 ≤ c.toNat) (quote : c ≠ '"') (backslash : c ≠ '\\') :
      CharText c [c]
  | escaped (e c : Char) (mem : (e, c) ∈ escapes) : CharText c ['\\', e]
  | unicode (c a₃ a₂ a₁ a₀ : Char) (d₃ d₂ d₁ d₀ : Nat)
      (h₃ : hexDigit a₃ = some d₃) (h₂ : hexDigit a₂ = some d₂)
      (h₁ : hexDigit a₁ = some d₁) (h₀ : hexDigit a₀ = some d₀)
      (value : c.toNat = ((d₃ * 16 + d₂) * 16 + d₁) * 16 + d₀) :
      CharText c ['\\', 'u', a₃, a₂, a₁, a₀]

/-- The characters of a string, one after the other. -/
inductive CharsText : List Char → List Char → Prop where
  | nil : CharsText [] []
  | cons {c : Char} {s cs text : List Char} (head : CharText c text) (tail : CharsText s cs) :
      CharsText (c :: s) (text ++ cs)

/-- `string`: a string and its text. -/
def StringText (s : String) (cs : List Char) : Prop :=
  ∃ inner, CharsText s.toList inner ∧ cs = '"' :: inner ++ ['"']

/-- A text for each character is one for all of them. -/
theorem charsText_flatMap {text : Char → List Char} (h : ∀ c, CharText c (text c)) (s : List Char) :
    CharsText s (s.flatMap text) := by
  induction s with
  | nil => exact .nil
  | cons c s ih =>
      rw [List.flatMap_cons]
      exact .cons (h c) ih

/-- A string without anything to escape is its own text. -/
theorem charsText_plain {s : List Char}
    (h : ∀ c ∈ s, 0x20 ≤ c.toNat ∧ c ≠ '"' ∧ c ≠ '\\') : CharsText s s := by
  induction s with
  | nil => exact .nil
  | cons c s ih =>
      obtain ⟨hcontrol, hquote, hbackslash⟩ := h c List.mem_cons_self
      exact .cons (.plain c hcontrol hquote hbackslash)
        (ih fun d hd => h d (List.mem_cons_of_mem c hd))

/-! ## §2. Numbers. -/

/-- At least one digit. -/
def Digits (ds : List Char) : Prop := ds ≠ [] ∧ ∀ c ∈ ds, c.isDigit = true

/-- `int`: digits without a leading zero. -/
def IntText (ds : List Char) : Prop := Digits ds ∧ (ds.head? = some '0' → ds = ['0'])

/-- `frac`, which may be missing. -/
def FracText (cs : List Char) : Prop := cs = [] ∨ ∃ ds, Digits ds ∧ cs = '.' :: ds

/-- `exp`, which may be missing. -/
def ExpText (cs : List Char) : Prop :=
  cs = [] ∨ ∃ e sign ds, (e = 'e' ∨ e = 'E') ∧ (sign = [] ∨ sign = ['+'] ∨ sign = ['-'])
    ∧ Digits ds ∧ cs = e :: (sign ++ ds)

/-- `number`. -/
def NumberText (cs : List Char) : Prop :=
  ∃ sign int frac exp, (sign = [] ∨ sign = ['-']) ∧ IntText int ∧ FracText frac ∧ ExpText exp
    ∧ cs = sign ++ int ++ frac ++ exp

theorem digits_toDigits (n : Nat) : Digits (Nat.toDigits 10 n) :=
  ⟨Nat.toDigits_ne_nil, fun _ hc => Nat.isDigit_of_mem_toDigits (by decide) (by decide) hc⟩

/-- A positive number does not start with a zero. -/
theorem head_toDigits (n : Nat) : 0 < n → (Nat.toDigits 10 n).head? ≠ some '0' := by
  -- the first digit is the one of the quotient, as long as there is a quotient
  induction n using Nat.strongRecOn with
  | ind n ih =>
      intro hpos
      by_cases hlt : n < 10
      · have hdigit : ∀ k, k < 10 → 0 < k → Nat.digitChar k ≠ '0' := by decide
        rw [Nat.toDigits_of_lt_base hlt]
        intro hzero
        exact hdigit n hlt hpos (Option.some.inj hzero)
      · have hle : 10 ≤ n := by omega
        have hquotient := ih (n / 10) (by omega) (by omega)
        rw [Nat.toDigits_of_base_le (by decide) hle, List.head?_append]
        cases hhead : (Nat.toDigits 10 (n / 10)).head? with
        | none => exact absurd (List.head?_eq_none_iff.mp hhead) Nat.toDigits_ne_nil
        | some c =>
            rw [hhead] at hquotient
            exact hquotient

/-- A natural number is an integer. -/
theorem intText_toDigits (n : Nat) : IntText (Nat.toDigits 10 n) := by
  refine ⟨digits_toDigits n, ?_⟩
  intro hhead
  by_cases hpos : 0 < n
  · exact absurd hhead (head_toDigits n hpos)
  · have hzero : n = 0 := by omega
    rw [hzero]
    rfl

/-- The decimal text of an integer is a number. -/
theorem numberText_toString (i : Int) : NumberText (toString i).toList := by
  cases i with
  | ofNat n =>
      refine ⟨[], Nat.toDigits 10 n, [], [], .inl rfl, intText_toDigits n, .inl rfl, .inl rfl, ?_⟩
      show (Nat.repr n).toList = _
      rw [Nat.toList_repr]
      simp
  | negSucc n =>
      refine ⟨['-'], Nat.toDigits 10 (n + 1), [], [], .inr rfl, intText_toDigits (n + 1), .inl rfl,
        .inl rfl, ?_⟩
      show ("-" ++ Nat.repr (n + 1)).toList = _
      rw [String.toList_append, Nat.toList_repr]
      simp

/-! ## §3. Values. -/

/-- A text with whitespace around it. -/
def Spaced (text cs : List Char) : Prop := ∃ a b, Ws a ∧ Ws b ∧ cs = a ++ text ++ b

/-- `member`: the key with the text of the value, and the text of both. -/
def MemberText (m : String × List Char) (cs : List Char) : Prop :=
  ∃ key k v, StringText m.1 key ∧ Spaced key k ∧ Spaced m.2 v ∧ cs = k ++ ':' :: v

/-- One or more parts with commas between them. -/
inductive Separated {α : Type*} (P : α → List Char → Prop) : List α → List Char → Prop where
  | one {a : α} {cs : List Char} (part : P a cs) : Separated P [a] cs
  | more {a : α} {as : List α} {cs cs' : List Char} (part : P a cs) (rest : Separated P as cs') :
      Separated P (a :: as) (cs ++ ',' :: cs')

/-- `value`. -/
inductive ValueText : List Char → Prop where
  | null : ValueText "null".toList
  | true : ValueText "true".toList
  | false : ValueText "false".toList
  | number {cs : List Char} (h : NumberText cs) : ValueText cs
  | string {s : String} {cs : List Char} (h : StringText s cs) : ValueText cs
  | emptyArray {cs : List Char} (h : Ws cs) : ValueText ('[' :: cs ++ [']'])
  | array {es : List (List Char)} {cs : List Char} (values : ∀ e ∈ es, ValueText e)
      (h : Separated Spaced es cs) : ValueText ('[' :: cs ++ [']'])
  | emptyObject {cs : List Char} (h : Ws cs) : ValueText ('\x7b' :: cs ++ ['\x7d'])
  | object {ms : List (String × List Char)} {cs : List Char} (values : ∀ m ∈ ms, ValueText m.2)
      (h : Separated MemberText ms cs) : ValueText ('\x7b' :: cs ++ ['\x7d'])

/-- A non-empty `object` by its keys and the texts of its values. -/
def ObjectText (ms : List (String × List Char)) (cs : List Char) : Prop :=
  ∃ inner, Separated MemberText ms inner ∧ (∀ m ∈ ms, ValueText m.2)
    ∧ cs = '\x7b' :: inner ++ ['\x7d']

theorem ObjectText.ne_nil {ms : List (String × List Char)} {cs : List Char}
    (h : ObjectText ms cs) : cs ≠ [] := by
  obtain ⟨inner, -, -, rfl⟩ := h
  exact List.cons_ne_nil _ _

/-! ## §4. Writing without whitespace. -/

/-- No blanks are fine, too. -/
theorem spaced_self (cs : List Char) : Spaced cs cs := by
  refine ⟨[], [], ?_, ?_, by simp⟩
  · intro c hc
    cases hc
  · intro c hc
    cases hc

/-- Parts joined with commas. -/
theorem separated_intercalate {α : Type*} {P : α → List Char → Prop} {text : α → List Char}
    {as : List α} (h : ∀ a ∈ as, P a (text a)) (hne : as ≠ []) :
    Separated P as ([','].intercalate (as.map text)) := by
  induction as with
  | nil => exact absurd rfl hne
  | cons a as ih =>
      have ha := h a List.mem_cons_self
      cases as with
      | nil => simpa using Separated.one ha
      | cons b bs =>
          have hrest := ih (fun x hx => h x (List.mem_cons_of_mem a hx)) (List.cons_ne_nil b bs)
          have hjoin : [','].intercalate ((a :: b :: bs).map text)
              = text a ++ ',' :: [','].intercalate ((b :: bs).map text) := by
            simp [List.intercalate_cons_cons]
          rw [hjoin]
          exact .more ha hrest

/-- **An object from its members**: keys in quotes, a colon, the value. -/
theorem objectText_compact {key : String → List Char} (hkey : ∀ s, StringText s (key s))
    {ms : List (String × List Char)} (hne : ms ≠ []) (hvalues : ∀ m ∈ ms, ValueText m.2) :
    ObjectText ms
      ('\x7b' :: [','].intercalate (ms.map fun m => key m.1 ++ ':' :: m.2) ++ ['\x7d']) := by
  refine ⟨_, separated_intercalate ?_ hne, hvalues, rfl⟩
  intro m _
  exact ⟨key m.1, key m.1, m.2, hkey m.1, spaced_self _, spaced_self _, rfl⟩

end OrderApi.Lib.JsonText
