/-
  OrderApi.Crow.QueryString
  ─────────────────────────
  **`crow::query_string`** (`qs_parse` and its kin, in `include/crow_all.h`).

  The query string keeps a copy of the URL and decodes it in place, with offsets for
  its pointers.  The memory is the copy, its NUL, and whatever lies behind it:
  `qs_strncmp` looks at it when a key ends in a percent sign.

    • `decodePair_eq`       each pair is decoded inside its own bytes;
    • `lookup_reads_url`    a lookup is the plain reading of the URL, whatever lies
                            behind the copy;
    • `sent_params_found`   the parameters that are sent are the ones that are found.
-/
import OrderApi.Crow.JsonLoad
import OrderApi.Lib.PercentText

namespace OrderApi.Crow

open OrderApi.Lib.JsonText (hexDigit)
open OrderApi.Lib.PercentText

/-- `crow::query_string`: `url_` with what lies behind it, and `key_value_pairs_`. -/
structure QueryString where
  memory : List Char
  keyValuePairs : List Nat
  deriving DecidableEq

namespace QueryString

/-! ## §1. Memory. -/

/-- A byte of the memory. -/
def peek (mem : List Char) (k : Nat) : Char := mem.getD k '\x00'

/-- `strcspn`. -/
def strcspn (mem : List Char) (s : Nat) (stops : List Char) : Nat :=
  ((mem.drop s).takeWhile fun c => c ≠ '\x00' && !stops.contains c).length

/-- The characters in front of the first NUL. -/
def cut (cs : List Char) : List Char := cs.takeWhile (· ≠ '\x00')

/-- The C string that a pointer points to. -/
def cString (mem : List Char) (s : Nat) : List Char := cut (mem.drop s)

/-- `CROW_QS_ISHEX`. -/
def qsIsHex (x : Char) : Bool :=
  ('0' ≤ x && x ≤ '9') || ('A' ≤ x && x ≤ 'F') || ('a' ≤ x && x ≤ 'f')

/-- `CROW_QS_HEX2DEC`. -/
def qsHex2dec (x : Char) : Nat :=
  if '0' ≤ x && x ≤ '9' then x.toNat - 48
  else if 'A' ≤ x && x ≤ 'F' then x.toNat - 55
  else if 'a' ≤ x && x ≤ 'f' then x.toNat - 87
  else 0

/-- `CROW_QS_ISQSCHR`. -/
def qsIsQsChr (x : Char) : Bool := !(x = '=' || x = '#' || x = '&' || x = '\x00')

/-! ## §2. `qs_decode` and `qs_parse`. -/

/-- The loop of `qs_decode`: `j` is where it reads, `i` where it writes. -/
def qsDecodeLoop (qs : Nat) : Nat → List Char → Nat → Nat → List Char × Nat
  | 0, mem, i, _ => (mem, i)
  | fuel + 1, mem, i, j =>
      let c := peek mem (qs + j)
      if qsIsQsChr c = false then (mem.set (qs + i) '\x00', i)
      else if c = '+' then qsDecodeLoop qs fuel (mem.set (qs + i) ' ') (i + 1) (j + 1)
      else if c = '%' then
        let a := peek mem (qs + j + 1)
        let b := peek mem (qs + j + 2)
        if !qsIsHex a || !qsIsHex b then (mem.set (qs + i) '\x00', i)
        else
          qsDecodeLoop qs fuel (mem.set (qs + i) (Char.ofNat (qsHex2dec a * 16 + qsHex2dec b)))
            (i + 1) (j + 3)
      else qsDecodeLoop qs fuel (mem.set (qs + i) c) (i + 1) (j + 1)

/-- `qs_decode`: the memory it leaves, and the length of the text. -/
def qsDecode (mem : List Char) (qs : Nat) : List Char × Nat :=
  qsDecodeLoop qs (mem.length + 1) mem 0 0

/-- The loop of `qs_parse` that finds where the pairs begin. -/
def findPairs (mem : List Char) : Nat → Nat → List Nat
  | 0, _ => []
  | size + 1, s =>
      let j := strcspn mem s ['&']
      if peek mem (s + j) = '\x00' then [s] else s :: findPairs mem size (s + j + 1)

/-- The loop of `qs_parse` that decodes the values, for one pair. -/
def decodePair (mem : List Char) (kv : Nat) : List Char :=
  let s := kv + strcspn mem kv ['=', '&', '#']
  if peek mem s = '&' || peek mem s = '\x00' then mem.set s '\x00' else (qsDecode mem (s + 1)).1

/-- `qs_parse`: the memory it leaves, and `qs_kv` up to its result. -/
def qsParse (mem : List Char) (qs qsKvSize : Nat) (parseUrl : Bool) : List Char × List Nat :=
  let s := if parseUrl then qs + strcspn mem qs ['?', '#'] else qs
  -- no query or fragment
  if parseUrl && peek mem s = '\x00' then (mem, [])
  else
    let qsKv := findPairs mem qsKvSize (if parseUrl then s + 1 else s)
    (qsKv.foldl decodePair mem, qsKv)

/-! ## §3. `qs_strncmp` and `qs_k2v`. -/

/-- What `qs_strncmp` does with either of its strings: the next character, and where
    the one after it is. -/
def qsNext (mem : List Char) (s : Nat) : Char × Nat :=
  let u := peek mem s
  let u := if qsIsQsChr u then u else '\x00'
  let u := if u = '+' then ' ' else u
  if u = '%' then
    let unyb := peek mem (s + 1)
    let lnyb := peek mem (s + 2)
    (if qsIsHex unyb && qsIsHex lnyb then Char.ofNat (qsHex2dec unyb * 16 + qsHex2dec lnyb)
      else '\x00', s + 3)
  else (u, s + 1)

/-- `qs_strncmp`, of a string in the memory `name` and one in `mem`. -/
def qsStrncmp (name mem : List Char) : Nat → Nat → Nat → Int
  | 0, _, qs => if qsIsQsChr (peek mem qs) then -1 else 0
  | n + 1, s, qs =>
      let u₁ := qsNext name s
      let u₂ := qsNext mem qs
      if u₁.1 ≠ u₂.1 then (u₁.1.toNat : Int) - u₂.1.toNat
      else if u₁.1 = '\x00' then 0
      else qsStrncmp name mem n u₁.2 u₂.2

/-- `qs_k2v`: where the value begins. -/
def qsK2v (key mem : List Char) : List Nat → Nat → Option Nat
  | [], _ => none
  | kv :: qsKv, nth =>
      if qsStrncmp key mem (cut key).length 0 kv = 0 then
        let skip := strcspn mem kv ['=']
        let skip := if peek mem (kv + skip) = '=' then skip + 1 else skip
        if nth = 0 then some (kv + skip) else qsK2v key mem qsKv (nth - 1)
      else qsK2v key mem qsKv nth

/-! ## §4. The class. -/

/-- `MAX_KEY_VALUE_PAIRS_COUNT`. -/
def maxKeyValuePairsCount : Nat := 256

/-- `query_string(std::string params, bool url)`, with `beyond` behind the copy. -/
def ofUrl (beyond params : List Char) (url : Bool) : QueryString :=
  let mem := params ++ '\x00' :: beyond
  if params = [] then { memory := mem, keyValuePairs := [] }
  else
    let r := qsParse mem 0 maxKeyValuePairsCount url
    { memory := r.1, keyValuePairs := r.2 }

/-- `query_string::get`: a pointer to the value. -/
def get (qs : QueryString) (name : List Char) : Option Nat :=
  qsK2v (name ++ ['\x00']) qs.memory qs.keyValuePairs 0

/-- The string that the caller of `get` makes of the pointer. -/
def value (qs : QueryString) (name : List Char) : Option (List Char) :=
  (qs.get name).map (cString qs.memory)

/-! ## §5. The plain reading. -/

/-- The characters that end a key or a value. -/
def stop (c : Char) : Bool := !qsIsQsChr c

/-- A character in front of the query string. -/
def inPath (c : Char) : Bool := c ≠ '?' && c ≠ '#'

/-- The texts between the ampersands, as far as there is room for them. -/
def segments (url : List Char) (parseUrl : Bool) : List (List Char) :=
  if parseUrl then
    match (cut url).dropWhile inPath with
    | [] => []
    | _ :: query => (query.splitOn '&').take maxKeyValuePairsCount
  else if url = [] then [] else ((cut url).splitOn '&').take maxKeyValuePairsCount

/-- A character in front of the value. -/
def inKey (c : Char) : Bool := c ≠ '=' && c ≠ '#'

/-- The value of a segment.  Behind a `#` it is what follows the first `=` of the
    decoded text. -/
def segmentValue (seg : List Char) : List Char :=
  match seg.dropWhile inKey with
  | [] => []
  | d :: text =>
      let t := cut (decoded stop text).1
      if d = '=' then t else (t.dropWhile (· ≠ '=')).tail

/-- The key and the value of a segment, if its key can be looked up. -/
def param (seg : List Char) : Option (List Char × List Char) :=
  if (decoded stop seg).2 then some ((decoded stop seg).1, segmentValue seg) else none

/-- The parameters of a URL. -/
def params (url : List Char) (parseUrl : Bool) : List (List Char × List Char) :=
  (segments url parseUrl).filterMap param

/-! ## §6. Characters. -/

/-- `CROW_QS_HEX2DEC` is the value of the hexadecimal digit, where `CROW_QS_ISHEX` says that it is
    one. -/
theorem hexDigit_eq (c : Char) :
    hexDigit c = if qsIsHex c then some (qsHex2dec c) else none := by
  have hF : 'F'.toNat = 70 := rfl
  have ha : 'a'.toNat = 97 := rfl
  unfold hexDigit qsIsHex qsHex2dec
  by_cases h₁ : '0' ≤ c ∧ c ≤ '9'
  · simp [h₁.1, h₁.2]
  · by_cases h₂ : 'A' ≤ c ∧ c ≤ 'F'
    · have h₃ : ¬('a' ≤ c ∧ c ≤ 'f') := by
        intro h₃
        have hle := (char_le_iff _ _).mp h₂.2
        have hge := (char_le_iff _ _).mp h₃.1
        omega
      simp [h₁, h₂, h₃]
    · by_cases h₃ : 'a' ≤ c ∧ c ≤ 'f' <;> simp [h₁, h₂, h₃]

/-- Two of them make a byte. -/
theorem escaped_eq (a b : Char) :
    escaped a b = if qsIsHex a && qsIsHex b
      then some (Char.ofNat (qsHex2dec a * 16 + qsHex2dec b)) else none := by
  unfold escaped
  rw [hexDigit_eq, hexDigit_eq]
  cases qsIsHex a with
  | false => rfl
  | true => cases qsIsHex b <;> rfl

/-- No part of an escape ends a key. -/
theorem stops : Stops stop where
  percent := by decide
  plus := by decide
  digit := by
    intro c hc
    rw [hexDigit_eq] at hc
    have hhex : qsIsHex c = true := by
      cases h : qsIsHex c with
      | true => rfl
      | false => rw [h] at hc; cases hc
    unfold stop
    cases hchr : qsIsQsChr c with
    | true => rfl
    | false =>
        simp only [qsIsQsChr, Bool.not_eq_false', Bool.or_eq_true, decide_eq_true_eq] at hchr
        rcases hchr with ((rfl | rfl) | rfl) | rfl <;> exact absurd hhex (by decide)

theorem isQsChr_eq_not_stop (c : Char) : qsIsQsChr c = !stop c := (Bool.not_not _).symm

/-! ## §7. Reading and writing. -/

theorem peek_append (pre cs : List Char) (k : Nat) :
    peek (pre ++ cs) (pre.length + k) = peek cs k := by
  unfold peek
  rw [List.getD_eq_getElem?_getD, List.getD_eq_getElem?_getD,
    List.getElem?_append_right (Nat.le_add_right _ _), Nat.add_sub_cancel_left]

theorem peek_drop (mem : List Char) (j k : Nat) : peek (mem.drop j) k = peek mem (j + k) := by
  unfold peek
  rw [List.getD_eq_getElem?_getD, List.getD_eq_getElem?_getD, List.getElem?_drop]

/-- A text written over the beginning of another. -/
def overwritten (t orig : List Char) : List Char := t ++ orig.drop t.length

/-- Behind what was written the memory is as it was. -/
theorem peek_overwritten {t orig : List Char} {j : Nat} (h : t.length ≤ j) :
    peek (overwritten t orig) j = peek orig j := by
  obtain ⟨k, rfl⟩ := Nat.exists_eq_add_of_le h
  rw [overwritten, peek_append, peek_drop]

/-- One more character is written over the beginning. -/
theorem set_overwritten {pre t orig : List Char} (h : t.length < orig.length) (c : Char) :
    (pre ++ overwritten t orig).set (pre.length + t.length) c
      = pre ++ overwritten (t ++ [c]) orig := by
  have hdrop : orig.drop t.length = orig[t.length] :: orig.drop (t.length + 1) :=
    List.drop_eq_getElem_cons h
  rw [overwritten, overwritten, List.set_append_right _ _ (Nat.le_add_right _ _),
    Nat.add_sub_cancel_left, List.set_append_right _ _ (Nat.le_refl _), Nat.sub_self, hdrop,
    List.set_cons_zero, List.length_append, List.length_singleton, List.append_assoc]
  rfl

/-! ## §8. Decoding in place. -/

section

variable {pre orig t : List Char} {j fuel : Nat}

/-- One round of the loop that writes a character. -/
theorem qsDecodeLoop_write {c d : Char} {k : Nat} (hc : peek orig j = c)
    (hle : t.length ≤ j) (hroom : t.length < orig.length) (hchr : qsIsQsChr c = true)
    (hd : d = (if c = '+' then ' ' else if c = '%' then
        Char.ofNat (qsHex2dec (peek orig (j + 1)) * 16 + qsHex2dec (peek orig (j + 2))) else c))
    (hk : k = if c = '%' then 3 else 1)
    (hhex : c = '%' → qsIsHex (peek orig (j + 1)) = true ∧ qsIsHex (peek orig (j + 2)) = true) :
    qsDecodeLoop pre.length (fuel + 1) (pre ++ overwritten t orig) t.length j
      = qsDecodeLoop pre.length fuel (pre ++ overwritten (t ++ [d]) orig) (t ++ [d]).length
        (j + k) := by
  have hread : ∀ i, peek (pre ++ overwritten t orig) (pre.length + j + i) = peek orig (j + i) := by
    intro i
    rw [Nat.add_assoc, peek_append, peek_overwritten (by omega)]
  have hfirst : peek (pre ++ overwritten t orig) (pre.length + j) = c := (hread 0).trans hc
  rw [qsDecodeLoop, hfirst, hread 1, hread 2, hchr, List.length_append, List.length_singleton]
  simp only [Bool.true_eq_false, if_false]
  by_cases hplus : c = '+'
  · subst hplus
    rw [if_pos rfl] at hd
    rw [if_pos rfl, set_overwritten hroom, hd, hk]
    rfl
  · rw [if_neg hplus] at hd ⊢
    by_cases hpercent : c = '%'
    · rw [if_pos hpercent] at hd hk ⊢
      obtain ⟨ha, hb⟩ := hhex hpercent
      rw [ha, hb, if_neg (by decide), set_overwritten hroom, hd, hk]
    · rw [if_neg hpercent] at hd hk ⊢
      rw [set_overwritten hroom, hd, hk]

/-- The round that writes the NUL. -/
theorem qsDecodeLoop_last (hle : t.length ≤ j) (hroom : t.length < orig.length)
    (hend : qsIsQsChr (peek orig j) = false ∨ peek orig j = '%'
      ∧ (qsIsHex (peek orig (j + 1)) && qsIsHex (peek orig (j + 2))) = false) :
    qsDecodeLoop pre.length (fuel + 1) (pre ++ overwritten t orig) t.length j
      = (pre ++ overwritten (t ++ ['\x00']) orig, t.length) := by
  have hread : ∀ i, peek (pre ++ overwritten t orig) (pre.length + j + i) = peek orig (j + i) := by
    intro i
    rw [Nat.add_assoc, peek_append, peek_overwritten (by omega)]
  have hfirst : peek (pre ++ overwritten t orig) (pre.length + j) = peek orig j := hread 0
  rw [qsDecodeLoop, hfirst, hread 1, hread 2]
  obtain hstop | ⟨hpercent, hhex⟩ := hend
  · rw [if_pos hstop, set_overwritten hroom]
  · rw [hpercent]
    have hbad : (!qsIsHex (peek orig (j + 1)) || !qsIsHex (peek orig (j + 2))) = true := by
      rw [← Bool.not_and, hhex]
      rfl
    rw [if_neg (by decide), if_neg (by decide), if_pos rfl, if_pos hbad, set_overwritten hroom]

theorem peek_of_drop {rem : List Char} (h : orig.drop j = rem) (k : Nat) :
    peek orig (j + k) = peek rem k := by
  rw [← peek_drop, h]

theorem peek_of_cons {c : Char} {cs : List Char} (h : orig.drop j = c :: cs) : peek orig j = c :=
  peek_of_drop h 0

/-- The loop writes the decoded text and a NUL over the beginning of what it reads.
    `t` is what has been written so far, and it has never got ahead of the reading. -/
theorem qsDecodeLoop_eq {rem text : List Char} {ok : Bool} (hd : Decodes stop rem text ok)
    (hrem : orig.drop j = rem) (hle : t.length ≤ j)
    (hroom : t.length + text.length < orig.length) (hfuel : rem.length ≤ fuel) :
    qsDecodeLoop pre.length (fuel + 1) (pre ++ overwritten t orig) t.length j
      = (pre ++ overwritten (t ++ text ++ ['\x00']) orig, t.length + text.length) := by
  have hsize : ∀ (t : List Char) (d : Char), (t ++ [d]).length = t.length + 1 := fun t d => by
    rw [List.length_append, List.length_singleton]
  have hmoved : ∀ (t text : List Char) (d : Char),
      (pre ++ overwritten (t ++ [d] ++ text ++ ['\x00']) orig, (t ++ [d]).length + text.length)
        = (pre ++ overwritten (t ++ d :: text ++ ['\x00']) orig,
          t.length + (d :: text).length) := by
    intro t text d
    rw [List.append_assoc t, List.singleton_append, hsize, List.length_cons, Nat.add_right_comm]
    rfl
  -- along what is still to be read
  induction hd generalizing t j fuel with
  | empty =>
      have hchr : qsIsQsChr (peek orig j) = false := congrArg qsIsQsChr (peek_of_drop hrem 0)
      rw [qsDecodeLoop_last hle hroom (.inl hchr), List.append_nil]
      rfl
  | stopped hs =>
      have hchr : qsIsQsChr (peek orig j) = false := by
        rw [isQsChr_eq_not_stop, peek_of_cons hrem]
        exact congrArg not hs
      rw [qsDecodeLoop_last hle hroom (.inl hchr), List.append_nil]
      rfl
  | malformed hbad =>
      rename_i cs
      rw [qsDecodeLoop_last hle hroom (.inr ⟨peek_of_cons hrem, ?_⟩), List.append_nil]
      · rfl
      · rw [peek_of_drop hrem 1, peek_of_drop hrem 2]
        match cs, hbad with
        | [], _ => rfl
        | [a], _ => exact Bool.and_false _
        | a :: b :: cs, hbad =>
            have hnone := hbad a b cs rfl
            rw [escaped_eq] at hnone
            by_cases hhex : (qsIsHex a && qsIsHex b) = true
            · rw [if_pos hhex] at hnone
              cases hnone
            · exact Bool.eq_false_iff.mpr hhex
  | escape he tail ih =>
      rename_i a b d cs text ok
      rw [escaped_eq] at he
      by_cases hhex : (qsIsHex a && qsIsHex b) = true
      · rw [if_pos hhex] at he
        rw [Bool.and_eq_true] at hhex
        have hb : peek orig (j + 2) = b := peek_of_drop hrem 2
        have ha : peek orig (j + 1) = a := peek_of_drop hrem 1
        rw [List.length_cons, List.length_cons, List.length_cons] at hfuel
        obtain ⟨fuel, rfl⟩ : ∃ k, fuel = k + 1 := ⟨fuel - 1, by omega⟩
        rw [qsDecodeLoop_write (c := '%') (d := d) (k := 3) (peek_of_cons hrem) hle
          (Nat.lt_of_le_of_lt (Nat.le_add_right _ _) hroom) (by decide)
          (by rw [ha, hb]; exact (Option.some.inj he).symm) rfl fun _ => by rw [ha, hb]; exact hhex,
          ih (by rw [← List.drop_drop, hrem]; rfl) (by rw [hsize]; omega)
          (by rw [hsize, Nat.add_assoc, Nat.add_comm 1]; exact hroom) (by omega), hmoved]
      · rw [if_neg hhex] at he
        cases he
  | blank tail ih =>
      rw [List.length_cons] at hfuel
      obtain ⟨fuel, rfl⟩ : ∃ k, fuel = k + 1 := ⟨fuel - 1, by omega⟩
      rw [qsDecodeLoop_write (c := '+') (d := ' ') (k := 1) (peek_of_cons hrem) hle
        (Nat.lt_of_le_of_lt (Nat.le_add_right _ _) hroom) (by decide) rfl rfl
        fun h => absurd h (by decide),
        ih (by rw [← List.drop_drop, hrem]; rfl) (by rw [hsize]; omega)
        (by rw [hsize, Nat.add_assoc, Nat.add_comm 1]; exact hroom) (by omega), hmoved]
  | plain hs hpercent hplus tail ih =>
      rename_i c cs text ok
      rw [List.length_cons] at hfuel
      obtain ⟨fuel, rfl⟩ : ∃ k, fuel = k + 1 := ⟨fuel - 1, by omega⟩
      rw [qsDecodeLoop_write (c := c) (d := c) (k := 1) (peek_of_cons hrem) hle
        (Nat.lt_of_le_of_lt (Nat.le_add_right _ _) hroom)
        (by rw [isQsChr_eq_not_stop, hs]; rfl) (by rw [if_neg hplus, if_neg hpercent])
        (if_neg hpercent).symm fun h => absurd h hpercent,
        ih (by rw [← List.drop_drop, hrem]; rfl) (by rw [hsize]; omega)
        (by rw [hsize, Nat.add_assoc, Nat.add_comm 1]; exact hroom) (by omega), hmoved]

end

/-! ## §9. The pairs. -/

/-- The bytes of a pair and of the separator behind it, when it has been decoded. -/
def region (seg : List Char) (sep : Char) : List Char :=
  match seg.dropWhile inKey with
  | [] => seg ++ ['\x00']
  | d :: text =>
      seg.takeWhile inKey ++ d :: overwritten ((decoded stop text).1 ++ ['\x00']) (text ++ [sep])

/-- The text of a pair. -/
def Segment (seg : List Char) : Prop := ∀ c ∈ seg, c ≠ '&' ∧ c ≠ '\x00'

/-- What may follow a pair. -/
def Separator (sep : Char) : Prop := sep = '&' ∨ sep = '\x00'

theorem Separator.stop {sep : Char} (h : Separator sep) : stop sep = true := by
  obtain rfl | rfl := h <;> rfl

/-- `strcspn` stops at the first of its characters, or at the NUL. -/
theorem strcspn_append {pre front rest stops : List Char} {d : Char}
    (hfront : ∀ c ∈ front, c ≠ '\x00' ∧ c ∉ stops) (hd : d = '\x00' ∨ d ∈ stops) :
    strcspn (pre ++ (front ++ d :: rest)) pre.length stops = front.length := by
  have hin : ∀ c ∈ front, (decide (c ≠ '\x00') && !stops.contains c) = true := by
    intro c hc
    obtain ⟨hnul, hstops⟩ := hfront c hc
    simp [hnul, hstops]
  have hout : (decide (d ≠ '\x00') && !stops.contains d) = false := by
    obtain rfl | hd := hd
    · rfl
    · simp [hd]
  rw [strcspn, List.drop_left, List.takeWhile_append_of_pos hin, List.takeWhile_cons, hout]
  simp

theorem length_overwritten {t orig : List Char} (h : t.length ≤ orig.length) :
    (overwritten t orig).length = orig.length := by
  rw [overwritten, List.length_append, List.length_drop]
  omega

theorem overwritten_append {t orig : List Char} (h : t.length ≤ orig.length) (rest : List Char) :
    overwritten t (orig ++ rest) = overwritten t orig ++ rest := by
  rw [overwritten, overwritten, List.drop_append_of_le_length h, List.append_assoc]

theorem decoded_length (text : List Char) : (decoded stop text).1.length ≤ text.length :=
  (decodes_decoded text).length

/-- A key ends at `=` or `#`. -/
theorem head_dropWhile_inKey {seg text : List Char} {d : Char}
    (h : seg.dropWhile inKey = d :: text) : d = '=' ∨ d = '#' := by
  have hnot := List.head_dropWhile_not inKey (l := seg) (by rw [h]; exact List.cons_ne_nil _ _)
  simp only [h, List.head_cons] at hnot
  by_cases heq : d = '='
  · exact .inl heq
  · by_cases hhash : d = '#'
    · exact .inr hhash
    · simp [inKey, heq, hhash] at hnot

/-- `qs_decode` behind the key. -/
theorem qsDecode_eq {text : List Char} {sep : Char} (hsep : Separator sep) (pre post : List Char) :
    (qsDecode (pre ++ (text ++ sep :: post)) pre.length).1
      = pre ++ (overwritten ((decoded stop text).1 ++ ['\x00']) (text ++ [sep]) ++ post) := by
  have hle := decoded_length text
  have hdec : Decodes stop (text ++ sep :: post) (decoded stop text).1 (decoded stop text).2 :=
    (decodes_decoded text).append stops hsep.stop post
  have hfuel : (text ++ sep :: post).length ≤ (pre ++ (text ++ sep :: post)).length := by
    exact Nat.le_trans (Nat.le_add_left _ _) (Nat.le_of_eq List.length_append.symm)
  have hloop := @qsDecodeLoop_eq pre _ [] 0 _ _ _ _ hdec rfl (Nat.le_refl 0)
    (by rw [List.length_append, List.length_cons, List.length_nil]; omega) hfuel
  have hfits : ((decoded stop text).1 ++ ['\x00']).length ≤ (text ++ [sep]).length := by
    rw [List.length_append, List.length_append, List.length_singleton, List.length_singleton]
    omega
  have hsplit : text ++ sep :: post = text ++ [sep] ++ post := by simp
  unfold qsDecode
  refine (congrArg Prod.fst hloop).trans ?_
  rw [List.nil_append, hsplit, overwritten_append hfits]

/-- A pair is decoded inside its own bytes. -/
theorem decodePair_eq {seg : List Char} {sep : Char} (hseg : Segment seg) (hsep : Separator sep)
    (pre post : List Char) :
    decodePair (pre ++ (seg ++ sep :: post)) pre.length = pre ++ (region seg sep ++ post) := by
  have hkey : ∀ c ∈ seg.takeWhile inKey, c ≠ '\x00' ∧ c ∉ ['=', '&', '#'] := by
    intro c hc
    obtain ⟨hamp, hnul⟩ := hseg c (List.takeWhile_sublist _ |>.subset hc)
    have hin := List.all_eq_true.mp List.all_takeWhile c hc
    simp only [inKey, Bool.and_eq_true, decide_eq_true_eq] at hin
    simp [hnul, hamp, hin.1, hin.2]
  have hwhole := List.takeWhile_append_dropWhile (p := inKey) (l := seg)
  unfold region decodePair
  cases hdrop : seg.dropWhile inKey with
  | nil =>
      rw [hdrop, List.append_nil] at hwhole
      rw [hwhole] at hkey
      have hspan := @strcspn_append pre _ post _ sep hkey
        (by obtain rfl | rfl := hsep <;> simp)
      have hpeek : peek (pre ++ (seg ++ sep :: post)) (pre.length + seg.length) = sep := by
        rw [peek_append]
        exact peek_append seg (sep :: post) 0
      dsimp only
      rw [hspan, hpeek, if_pos (by obtain rfl | rfl := hsep <;> rfl),
        List.set_append_right _ _ (Nat.le_add_right _ _), Nat.add_sub_cancel_left,
        List.set_append_right _ _ (Nat.le_refl _), Nat.sub_self, List.set_cons_zero,
        List.append_assoc]
      rfl
  | cons d text =>
      have hd := head_dropWhile_inKey hdrop
      rw [hdrop] at hwhole
      have hmem : pre ++ (seg ++ sep :: post)
          = pre ++ (seg.takeWhile inKey ++ d :: (text ++ sep :: post)) := by
        conv_lhs => rw [← hwhole]
        simp
      have hspan := @strcspn_append pre _ (text ++ sep :: post) _ d hkey
        (by obtain rfl | rfl := hd <;> simp)
      have hpeek : peek (pre ++ (seg.takeWhile inKey ++ d :: (text ++ sep :: post)))
          (pre.length + (seg.takeWhile inKey).length) = d := by
        rw [peek_append]
        exact peek_append _ (d :: _) 0
      have hdec := @qsDecode_eq text _ hsep (pre ++ (seg.takeWhile inKey ++ [d])) post
      have hlen : (pre ++ (seg.takeWhile inKey ++ [d])).length
          = pre.length + (seg.takeWhile inKey).length + 1 := by
        simp [Nat.add_assoc]
      dsimp only
      rw [hmem, hspan, hpeek, if_neg (by obtain rfl | rfl := hd <;> decide)]
      rw [hlen] at hdec
      simpa using hdec

/-- A pair fills its place and that of its separator, decoded or not. -/
theorem length_region (seg : List Char) (sep : Char) :
    (region seg sep).length = seg.length + 1 := by
  unfold region
  cases hdrop : seg.dropWhile inKey with
  | nil => exact List.length_append
  | cons d text =>
      have hle := decoded_length text
      have hwhole := congrArg List.length (List.takeWhile_append_dropWhile (p := inKey) (l := seg))
      rw [hdrop, List.length_append, List.length_cons] at hwhole
      dsimp only
      rw [List.length_append, List.length_cons, length_overwritten
        (by rw [List.length_append, List.length_append]; exact Nat.succ_le_succ hle),
        List.length_append, List.length_singleton]
      omega

/-- A pair with the separator behind it. -/
structure Part where
  seg : List Char
  sep : Char
  isSegment : Segment seg
  isSeparator : Separator sep

namespace Part

def raw (p : Part) : List Char := p.seg ++ [p.sep]

def written (p : Part) : List Char := region p.seg p.sep

end Part

/-- Where the pairs begin. -/
def offsets : Nat → List Part → List Nat
  | _, [] => []
  | s, p :: ps => s :: offsets (s + p.seg.length + 1) ps

/-- The pairs do not get in each other's way. -/
theorem foldl_decodePair (ps : List Part) (pre post : List Char) :
    (offsets pre.length ps).foldl decodePair (pre ++ (ps.flatMap Part.raw ++ post))
      = pre ++ (ps.flatMap Part.written ++ post) := by
  induction ps generalizing pre with
  | nil => rfl
  | cons p ps ih =>
      have hlen : (pre ++ p.written).length = pre.length + p.seg.length + 1 := by
        rw [List.length_append, Part.written, length_region, Nat.add_assoc]
      have hfirst := decodePair_eq p.isSegment p.isSeparator pre (ps.flatMap Part.raw ++ post)
      have hrest := ih (pre ++ p.written)
      rw [hlen, List.append_assoc, List.append_assoc] at hrest
      have hraw : (p :: ps).flatMap Part.raw ++ post
          = p.seg ++ p.sep :: (ps.flatMap Part.raw ++ post) := by
        simp [Part.raw]
      rw [offsets, List.foldl_cons, hraw, hfirst, List.flatMap_cons, List.append_assoc]
      exact hrest

theorem segment_of_nul {text : List Char} (hnul : '\x00' ∉ text) (hamp : '&' ∉ text) :
    Segment text :=
  fun _ hc => ⟨fun h => hamp (h ▸ hc), fun h => hnul (h ▸ hc)⟩

/-- The pairs of a text that ends with a NUL. -/
theorem findPairs_eq {size : Nat} {text : List Char} (hnul : '\x00' ∉ text)
    (pre post : List Char) :
    ∃ (ps : List Part) (post' : List Char),
      text ++ '\x00' :: post = ps.flatMap Part.raw ++ post'
        ∧ ps.map Part.seg = (text.splitOn '&').take size
        ∧ findPairs (pre ++ (text ++ '\x00' :: post)) size pre.length = offsets pre.length ps := by
  induction size generalizing text pre with
  | zero => exact ⟨[], _, rfl, rfl, rfl⟩
  | succ size ih =>
      by_cases hamp : '&' ∈ text
      · obtain ⟨a, b, rfl, ha⟩ := List.eq_append_cons_of_mem hamp
        rw [List.mem_append, List.mem_cons, not_or, not_or] at hnul
        let p : Part := ⟨a, '&', segment_of_nul hnul.1 ha, .inl rfl⟩
        obtain ⟨ps, post', hps, hsegs, hfind⟩ := ih hnul.2.2 (pre ++ (a ++ ['&']))
        have hmem : pre ++ (a ++ ['&']) ++ (b ++ '\x00' :: post)
            = pre ++ (a ++ '&' :: (b ++ '\x00' :: post)) := by simp
        have hlen : (pre ++ (a ++ ['&'])).length = pre.length + a.length + 1 := by
          simp [Nat.add_assoc]
        rw [hmem, hlen] at hfind
        refine ⟨p :: ps, post', ?_, ?_, ?_⟩
        · rw [List.flatMap_cons, List.append_assoc p.raw, ← hps]
          simp [p, Part.raw]
        · rw [List.splitOn_append_cons_self_of_not_mem ha, List.map_cons, List.take_succ_cons,
            hsegs]
        · have hspan := @strcspn_append pre a (b ++ '\x00' :: post) ['&'] '&'
            (fun c hc => ⟨fun h => hnul.1 (h ▸ hc), by
              rw [List.mem_singleton]
              exact fun h => ha (h ▸ hc)⟩) (.inr List.mem_cons_self)
          have hpeek : peek (pre ++ (a ++ '&' :: (b ++ '\x00' :: post))) (pre.length + a.length)
              = '&' := by
            rw [peek_append]
            exact peek_append a ('&' :: _) 0
          rw [List.append_assoc, List.cons_append, findPairs, hspan, hpeek, if_neg (by decide),
            hfind, offsets]
      · let p : Part := ⟨text, '\x00', segment_of_nul hnul hamp, .inr rfl⟩
        refine ⟨[p], post, ?_, ?_, ?_⟩
        · simp [p, Part.raw]
        · rw [List.splitOn_eq_singleton hamp]
          simp [p]
        · have hspan := @strcspn_append pre text post ['&'] '\x00'
            (fun c hc => ⟨fun h => hnul (h ▸ hc), by
              rw [List.mem_singleton]
              exact fun h => hamp (h ▸ hc)⟩) (.inl rfl)
          have hpeek : peek (pre ++ (text ++ '\x00' :: post)) (pre.length + text.length)
              = '\x00' := by
            rw [peek_append]
            exact peek_append text ('\x00' :: _) 0
          rw [findPairs, hspan, hpeek, if_pos rfl]
          rfl

/-! ## §10. Looking a name up. -/

/-- A name without anything that `qs_strncmp` would read in another way. -/
def Plain (name : List Char) : Prop := ∀ c ∈ name, qsIsQsChr c = true ∧ c ≠ '+' ∧ c ≠ '%'

instance (name : List Char) : Decidable (Plain name) := List.decidableBAll _ name

theorem Plain.not_nul {name : List Char} (h : Plain name) : '\x00' ∉ name :=
  fun hmem => absurd (h _ hmem).1 (by decide)

/-- A plain character is taken as it is, a `+` as a blank. -/
theorem qsNext_plain {mem : List Char} {s : Nat} {c : Char} (hc : peek mem s = c)
    (hchr : qsIsQsChr c = true) (hpercent : c ≠ '%') :
    qsNext mem s = (if c = '+' then ' ' else c, s + 1) := by
  unfold qsNext
  dsimp only
  rw [hc, if_pos hchr]
  by_cases hplus : c = '+'
  · rw [if_pos hplus, if_neg (by decide)]
  · rw [if_neg hplus, if_neg hpercent]

/-- Where the text ends so does the string. -/
theorem qsNext_stop {mem : List Char} {s : Nat} (h : qsIsQsChr (peek mem s) = false) :
    (qsNext mem s).1 = '\x00' := by
  have hnul : (if qsIsQsChr (peek mem s) then peek mem s else '\x00') = '\x00' :=
    if_neg (by rw [h]; decide)
  unfold qsNext
  dsimp only
  rw [hnul]
  rfl

/-- An escape is taken whole; a broken one ends the string. -/
theorem qsNext_percent {mem : List Char} {s : Nat} (h : peek mem s = '%') :
    qsNext mem s = ((escaped (peek mem (s + 1)) (peek mem (s + 2))).getD '\x00', s + 3) := by
  unfold qsNext
  rw [h, escaped_eq]
  show (if _ then _ else _, s + 3) = _
  cases qsIsHex (peek mem (s + 1)) && qsIsHex (peek mem (s + 2)) <;> rfl

theorem toNat_sub_ne_zero {c d : Char} (h : c ≠ d) : (c.toNat : Int) - d.toNat ≠ 0 := by
  intro heq
  exact h (Char.toNat_inj.mp (by omega))

/-- `qsNext` takes the next character of the decoded text, or finds its end. -/
theorem qsNext_decodes {mem text : List Char} {s : Nat} {ok : Bool}
    (hd : Decodes stop (mem.drop s) text ok) :
    text = [] ∧ (qsNext mem s).1 = '\x00'
      ∨ ∃ d text' k, text = d :: text' ∧ qsNext mem s = (d, s + k)
        ∧ Decodes stop (mem.drop (s + k)) text' ok := by
  generalize hrem : mem.drop s = rem at hd
  have hdrop : ∀ k, mem.drop (s + k) = rem.drop k := fun k => by rw [← List.drop_drop, hrem]
  cases hd with
  | empty => exact .inl ⟨rfl, qsNext_stop (congrArg qsIsQsChr (peek_of_drop hrem 0))⟩
  | stopped hs =>
      refine .inl ⟨rfl, qsNext_stop ?_⟩
      rw [isQsChr_eq_not_stop, peek_of_cons hrem, hs]
      rfl
  | malformed hbad =>
      rename_i cs
      refine .inl ⟨rfl, ?_⟩
      rw [qsNext_percent (peek_of_cons hrem), peek_of_drop hrem 1, peek_of_drop hrem 2]
      match cs, hbad with
      | [], _ => rfl
      | [a], _ =>
          show (escaped a '\x00').getD '\x00' = '\x00'
          rw [escaped_eq, show qsIsHex '\x00' = false from rfl, Bool.and_false]
          rfl
      | a :: b :: cs, hbad =>
          show (escaped a b).getD '\x00' = '\x00'
          rw [hbad a b cs rfl]
          rfl
  | escape he tail =>
      rename_i a b d cs text
      refine .inr ⟨d, text, 3, rfl, ?_, by rw [hdrop]; exact tail⟩
      rw [qsNext_percent (peek_of_cons hrem), peek_of_drop hrem 1, peek_of_drop hrem 2]
      show ((escaped a b).getD '\x00', s + 3) = _
      rw [he]
      rfl
  | blank tail =>
      exact .inr ⟨' ', _, 1, rfl, qsNext_plain (peek_of_cons hrem) (by decide) (by decide),
        by rw [hdrop]; exact tail⟩
  | plain hs hpercent hplus tail =>
      rename_i c cs text
      have hchr : qsIsQsChr c = true := by
        rw [isQsChr_eq_not_stop, hs]
        rfl
      refine .inr ⟨c, text, 1, rfl, ?_, by rw [hdrop]; exact tail⟩
      rw [qsNext_plain (peek_of_cons hrem) hchr hpercent, if_neg hplus]

/-- A decoded text has come to its end where there is no character of a query string. -/
theorem decodes_nil_iff {mem text : List Char} {s : Nat} {ok : Bool}
    (hd : Decodes stop (mem.drop s) text ok) :
    qsIsQsChr (peek mem s) = false ↔ text = [] ∧ ok = true := by
  generalize hrem : mem.drop s = rem at hd
  rw [isQsChr_eq_not_stop, Bool.not_eq_false']
  cases hd with
  | empty =>
      rw [show peek mem s = '\x00' from peek_of_drop hrem 0]
      exact ⟨fun _ => ⟨rfl, rfl⟩, fun _ => rfl⟩
  | stopped hs =>
      rw [peek_of_cons hrem]
      exact ⟨fun _ => ⟨rfl, rfl⟩, fun _ => hs⟩
  | malformed =>
      rw [peek_of_cons hrem]
      exact ⟨fun h => absurd h (by decide), fun h => absurd h.2 (by decide)⟩
  | escape =>
      rw [peek_of_cons hrem]
      exact ⟨fun h => absurd h (by decide), fun h => absurd h.1 (List.cons_ne_nil _ _)⟩
  | blank =>
      rw [peek_of_cons hrem]
      exact ⟨fun h => absurd h (by decide), fun h => absurd h.1 (List.cons_ne_nil _ _)⟩
  | plain hs =>
      rw [peek_of_cons hrem, hs]
      exact ⟨fun h => absurd h (by decide), fun h => absurd h.1 (List.cons_ne_nil _ _)⟩

/-- `qs_strncmp` compares with the decoded key. -/
theorem qsStrncmp_eq_zero_iff {name : List Char} (hname : Plain name) {mem text : List Char}
    {n s qs : Nat} {ok : Bool} (hn : s + n = name.length)
    (hd : Decodes stop (mem.drop qs) text ok) :
    qsStrncmp (name ++ ['\x00']) mem n s qs = 0 ↔ text = name.drop s ∧ ok = true := by
  induction n generalizing s qs text with
  | zero =>
      rw [List.drop_of_length_le (by omega), ← decodes_nil_iff hd, qsStrncmp]
      cases qsIsQsChr (peek mem qs) <;> decide
  | succ n ih =>
      have hlt : s < name.length := by omega
      have hmem : name[s] ∈ name := List.getElem_mem hlt
      obtain ⟨hchr, hplus, hpercent⟩ := hname _ hmem
      have hpeek : peek (name ++ ['\x00']) s = name[s] := by
        unfold peek
        rw [List.getD_eq_getElem?_getD, List.getElem?_append_left hlt, List.getElem?_eq_getElem hlt]
        rfl
      have hnul : name[s] ≠ '\x00' := fun h => hname.not_nul (h ▸ hmem)
      rw [qsStrncmp, qsNext_plain hpeek hchr hpercent, if_neg hplus, List.drop_eq_getElem_cons hlt]
      obtain ⟨rfl, hnext⟩ | ⟨d, text', k, rfl, hnext, htail⟩ := qsNext_decodes hd
      · rw [hnext, if_pos hnul]
        exact ⟨fun h => absurd h (toNat_sub_ne_zero hnul),
          fun h => absurd h.1.symm (List.cons_ne_nil _ _)⟩
      · rw [hnext]
        by_cases heq : name[s] = d
        · subst heq
          rw [if_neg (by simp), if_neg hnul, ih (by omega) htail, List.cons_inj_right]
        · rw [if_pos heq]
          exact ⟨fun h => absurd h (toNat_sub_ne_zero heq),
            fun h => absurd (List.head_eq_of_cons_eq h.1).symm heq⟩

/-! ## §11. What is found. -/

/-- What a caller of `qs_k2v` finds in the memory from the pair on. -/
def valueIn (cs : List Char) : List Char :=
  match cs.dropWhile (fun c => c ≠ '\x00' && c ≠ '=') with
  | [] => []
  | d :: rest => if d = '=' then cut rest else []

theorem drop_length_takeWhile (p : Char → Bool) (cs : List Char) :
    cs.drop (cs.takeWhile p).length = cs.dropWhile p :=
  calc cs.drop (cs.takeWhile p).length
      = (cs.takeWhile p ++ cs.dropWhile p).drop (cs.takeWhile p).length := by
        rw [List.takeWhile_append_dropWhile]
    _ = cs.dropWhile p := List.drop_left

/-- The pointer behind the `=`, or to the NUL. -/
theorem cString_value (mem : List Char) (kv : Nat) :
    cString mem (kv + if peek mem (kv + strcspn mem kv ['=']) = '='
        then strcspn mem kv ['='] + 1 else strcspn mem kv ['='])
      = valueIn (mem.drop kv) := by
  have hdrop : mem.drop (kv + strcspn mem kv ['='])
      = (mem.drop kv).dropWhile fun c => c ≠ '\x00' && c ≠ '=' := by
    rw [← drop_length_takeWhile, List.drop_drop, strcspn]
    simp
  unfold valueIn
  rw [← hdrop]
  generalize strcspn mem kv ['='] = n at hdrop ⊢
  cases hrest : mem.drop (kv + n) with
  | nil =>
      have hpeek : peek mem (kv + n) = '\x00' := peek_of_drop hrest 0
      rw [hpeek, if_neg (by decide), cString, hrest]
      rfl
  | cons d rest =>
      rw [peek_of_cons hrest]
      by_cases heq : d = '='
      · subst heq
        rw [if_pos rfl, cString, ← Nat.add_assoc, ← List.drop_drop, hrest]
        rfl
      · have hnot := List.head_dropWhile_not (fun c => c ≠ '\x00' && c ≠ '=') (l := mem.drop kv)
          (by rw [← hdrop, hrest]; exact List.cons_ne_nil _ _)
        simp only [← hdrop, hrest, List.head_cons] at hnot
        have hnul : d = '\x00' := by
          by_cases h : d = '\x00'
          · exact h
          · simp [h, heq] at hnot
        rw [if_neg heq, cString, hrest, hnul]
        dsimp only
        rw [if_neg (by decide)]
        rfl

/-- The decoded pair has the key of the text it was made of. -/
theorem decoded_region (seg : List Char) {sep : Char} (more : List Char) :
    decoded stop (region seg sep ++ more) = decoded stop seg := by
  have hwhole := List.takeWhile_append_dropWhile (p := inKey) (l := seg)
  unfold region
  cases hdrop : seg.dropWhile inKey with
  | nil =>
      dsimp only
      rw [List.append_assoc]
      exact decoded_append stops seg (by decide) more
  | cons d text =>
      have hd : stop d = true := by
        obtain rfl | rfl := head_dropWhile_inKey hdrop <;> rfl
      rw [hdrop] at hwhole
      dsimp only
      rw [List.append_assoc, List.cons_append, decoded_append stops _ hd]
      conv_rhs => rw [← hwhole]
      exact (decoded_append stops _ hd text).symm

theorem valueIn_append {front : List Char} (h : ∀ c ∈ front, c ≠ '\x00' ∧ c ≠ '=')
    (rest : List Char) : valueIn (front ++ rest) = valueIn rest := by
  unfold valueIn
  rw [List.dropWhile_append_of_pos fun c hc => by simp [h c hc]]

/-- A C string ends at its first NUL. -/
theorem cut_append_nul (t rest : List Char) : cut (t ++ '\x00' :: rest) = cut t := by
  induction t with
  | nil => rfl
  | cons c t ih =>
      unfold cut at ih ⊢
      rw [List.cons_append, List.takeWhile_cons, List.takeWhile_cons, ih]

/-- Behind a `#` the value begins at the first `=` of the decoded text. -/
theorem valueIn_text (t rest : List Char) :
    valueIn (t ++ '\x00' :: rest) = ((cut t).dropWhile (· ≠ '=')).tail := by
  induction t with
  | nil => rfl
  | cons c t ih =>
      by_cases hnul : c = '\x00'
      · subst hnul
        rfl
      · by_cases heq : c = '='
        · subst heq
          exact cut_append_nul t rest
        · have hpass := @valueIn_append [c] (by simp [hnul, heq]) (t ++ '\x00' :: rest)
          rw [List.singleton_append] at hpass
          rw [List.cons_append, hpass, ih]
          simp [cut, hnul, heq]

/-- The decoded pair has the value that the plain reading gives. -/
theorem valueIn_region {seg : List Char} (hseg : Segment seg) {sep : Char} (more : List Char) :
    valueIn (region seg sep ++ more) = segmentValue seg := by
  have hkey : ∀ c ∈ seg.takeWhile inKey, c ≠ '\x00' ∧ c ≠ '=' := by
    intro c hc
    have hin := List.all_eq_true.mp List.all_takeWhile c hc
    simp only [inKey, Bool.and_eq_true, decide_eq_true_eq] at hin
    exact ⟨(hseg c ((List.takeWhile_sublist _).subset hc)).2, hin.1⟩
  have hwhole := List.takeWhile_append_dropWhile (p := inKey) (l := seg)
  unfold region segmentValue
  cases hdrop : seg.dropWhile inKey with
  | nil =>
      rw [hdrop, List.append_nil] at hwhole
      rw [hwhole] at hkey
      dsimp only
      rw [List.append_assoc, valueIn_append hkey]
      rfl
  | cons d text =>
      dsimp only
      rw [List.append_assoc, valueIn_append hkey, overwritten, List.append_assoc, List.cons_append,
        List.append_assoc]
      obtain rfl | rfl := head_dropWhile_inKey hdrop
      · rw [if_pos rfl]
        exact cut_append_nul _ _
      · rw [if_neg (by decide)]
        exact valueIn_text _ _

/-- Without a NUL it is the whole text. -/
theorem cut_eq {cs : List Char} (h : '\x00' ∉ cs) : cut cs = cs := by
  induction cs with
  | nil => rfl
  | cons c cs ih =>
      rw [List.mem_cons, not_or] at h
      unfold cut at ih ⊢
      rw [List.takeWhile_cons, if_pos (by simpa using Ne.symm h.1), ih h.2]

/-- A lookup among decoded pairs. -/
theorem qsK2v_eq {name : List Char} (hname : Plain name) (ps : List Part)
    (pre post : List Char) :
    (qsK2v (name ++ ['\x00']) (pre ++ (ps.flatMap Part.written ++ post))
        (offsets pre.length ps) 0).map (cString (pre ++ (ps.flatMap Part.written ++ post)))
      = (((ps.map Part.seg).filterMap param).find? (·.1 = name)).map Prod.snd := by
  induction ps generalizing pre with
  | nil => rfl
  | cons p ps ih =>
      have hmem : pre ++ ((p :: ps).flatMap Part.written ++ post)
          = pre ++ p.written ++ (ps.flatMap Part.written ++ post) := by simp
      have hlen : (pre ++ p.written).length = pre.length + p.seg.length + 1 := by
        rw [List.length_append, Part.written, length_region, Nat.add_assoc]
      have hmore := ih (pre ++ p.written)
      rw [hlen, ← hmem] at hmore
      have hdrop : (pre ++ ((p :: ps).flatMap Part.written ++ post)).drop pre.length
          = region p.seg p.sep ++ (ps.flatMap Part.written ++ post) := by
        rw [List.drop_left, List.flatMap_cons, List.append_assoc]
        rfl
      have hd : Decodes stop ((pre ++ ((p :: ps).flatMap Part.written ++ post)).drop pre.length)
          (decoded stop p.seg).1 (decoded stop p.seg).2 := by
        rw [hdrop]
        have hdec := @decodes_decoded stop
          (region p.seg p.sep ++ (ps.flatMap Part.written ++ post))
        rwa [decoded_region] at hdec
      have hcut : (cut (name ++ ['\x00'])).length = name.length := by
        rw [cut_append_nul, cut_eq hname.not_nul]
      have hcmp := qsStrncmp_eq_zero_iff hname (Nat.zero_add name.length) hd
      have hvalue := cString_value (pre ++ ((p :: ps).flatMap Part.written ++ post)) pre.length
      rw [hdrop, valueIn_region p.isSegment] at hvalue
      rw [offsets, qsK2v, hcut, List.map_cons, List.filterMap_cons, param]
      by_cases hfound : (decoded stop p.seg).1 = name ∧ (decoded stop p.seg).2 = true
      · rw [if_pos (hcmp.mpr hfound), if_pos rfl, if_pos hfound.2]
        dsimp only
        rw [List.find?_cons_of_pos (by simpa using hfound.1), Option.map_some, Option.map_some,
          hvalue]
      · rw [if_neg (fun h => hfound (hcmp.mp h)), hmore]
        cases hok : (decoded stop p.seg).2 with
        | false => rfl
        | true =>
            have hne : (decoded stop p.seg).1 ≠ name := fun h => hfound ⟨h, hok⟩
            rw [if_pos rfl]
            dsimp only
            rw [List.find?_cons_of_neg (by simpa using hne)]

/-- The first NUL behind a text. -/
theorem append_nul_eq (cs beyond : List Char) :
    ∃ beyond', cs ++ '\x00' :: beyond = cut cs ++ '\x00' :: beyond' := by
  induction cs with
  | nil => exact ⟨beyond, rfl⟩
  | cons c cs ih =>
      by_cases hnul : c = '\x00'
      · subst hnul
        exact ⟨cs ++ '\x00' :: beyond, rfl⟩
      · obtain ⟨beyond', h⟩ := ih
        refine ⟨beyond', ?_⟩
        have hcut : cut (c :: cs) = c :: cut cs := List.takeWhile_cons_of_pos (by simpa using hnul)
        rw [hcut, List.cons_append, List.cons_append, h]

theorem nul_not_mem_cut (cs : List Char) : '\x00' ∉ cut cs := fun h => by
  have hall := List.all_eq_true.mp (List.all_takeWhile (p := (· ≠ '\x00')) (l := cs)) _ h
  exact absurd hall (by decide)

/-- A lookup in the pairs of a text that ends with a NUL. -/
theorem qsK2v_findPairs {name : List Char} (hname : Plain name) {text : List Char}
    (hnul : '\x00' ∉ text) (pre post : List Char) (size : Nat) :
    let mem := pre ++ (text ++ '\x00' :: post)
    let mem' := (findPairs mem size pre.length).foldl decodePair mem
    (qsK2v (name ++ ['\x00']) mem' (findPairs mem size pre.length) 0).map (cString mem')
      = ((((text.splitOn '&').take size).filterMap param).find? (·.1 = name)).map Prod.snd := by
  obtain ⟨ps, post', hps, hsegs, hfind⟩ := @findPairs_eq size _ hnul pre post
  dsimp only
  rw [hfind, hps, foldl_decodePair, qsK2v_eq hname, hsegs]

/-- The query string begins at `?` or `#`. -/
theorem head_dropWhile_inPath {url query : List Char} {d : Char}
    (h : url.dropWhile inPath = d :: query) : d = '?' ∨ d = '#' := by
  have hnot := List.head_dropWhile_not inPath (l := url) (by rw [h]; exact List.cons_ne_nil _ _)
  simp only [h, List.head_cons] at hnot
  by_cases heq : d = '?'
  · exact .inl heq
  · by_cases hhash : d = '#'
    · exact .inr hhash
    · simp [inPath, heq, hhash] at hnot

/-- A lookup behind the `?` or the `#` of a URL. -/
theorem qsParse_url {name : List Char} (hname : Plain name) {url : List Char}
    (hnul : '\x00' ∉ url) (beyond : List Char) (size : Nat) :
    let r := qsParse (url ++ '\x00' :: beyond) 0 size true
    (qsK2v (name ++ ['\x00']) r.1 r.2 0).map (cString r.1)
      = match url.dropWhile inPath with
        | [] => none
        | _ :: query =>
            ((((query.splitOn '&').take size).filterMap param).find? (·.1 = name)).map
              Prod.snd := by
  have hfront : ∀ c ∈ url.takeWhile inPath, c ≠ '\x00' ∧ c ∉ ['?', '#'] := by
    intro c hc
    have hin := List.all_eq_true.mp List.all_takeWhile c hc
    simp only [inPath, Bool.and_eq_true, decide_eq_true_eq] at hin
    exact ⟨fun h => hnul (h ▸ (List.takeWhile_sublist _).subset hc), by simp [hin.1, hin.2]⟩
  have hwhole := List.takeWhile_append_dropWhile (p := inPath) (l := url)
  cases hdrop : url.dropWhile inPath with
  | nil =>
      rw [hdrop, List.append_nil] at hwhole
      rw [hwhole] at hfront
      have hspan := @strcspn_append [] url beyond ['?', '#'] '\x00' hfront (.inl rfl)
      have hpeek : peek (url ++ '\x00' :: beyond) url.length = '\x00' :=
        peek_append url ('\x00' :: beyond) 0
      rw [List.nil_append, List.length_nil] at hspan
      have hnone : qsParse (url ++ '\x00' :: beyond) 0 size true
          = (url ++ '\x00' :: beyond, []) := by
        unfold qsParse
        dsimp only
        rw [if_pos rfl, Nat.zero_add, hspan, hpeek]
        rfl
      rw [hnone]
      rfl
  | cons d query =>
      rw [hdrop] at hwhole
      have hd := head_dropWhile_inPath hdrop
      have hquery : '\x00' ∉ query := by
        rw [← hwhole] at hnul
        exact fun h => hnul (List.mem_append_right _ (List.mem_cons_of_mem _ h))
      have hmem : url ++ '\x00' :: beyond
          = url.takeWhile inPath ++ d :: (query ++ '\x00' :: beyond) := by
        conv_lhs => rw [← hwhole]
        simp
      have hspan := @strcspn_append [] _ (query ++ '\x00' :: beyond) ['?', '#'] d hfront
        (.inr (by obtain rfl | rfl := hd <;> simp))
      rw [List.nil_append, List.length_nil, ← hmem] at hspan
      have hpeek : peek (url ++ '\x00' :: beyond) (url.takeWhile inPath).length = d := by
        rw [hmem]
        exact peek_append _ (d :: (query ++ '\x00' :: beyond)) 0
      have hpre : url.takeWhile inPath ++ [d] ++ (query ++ '\x00' :: beyond)
          = url ++ '\x00' :: beyond := by rw [hmem]; simp
      have hlen : (url.takeWhile inPath ++ [d]).length = (url.takeWhile inPath).length + 1 :=
        List.length_append
      have hfound := qsK2v_findPairs hname hquery (url.takeWhile inPath ++ [d]) beyond size
      dsimp only at hfound
      rw [hpre, hlen] at hfound
      have hparse : qsParse (url ++ '\x00' :: beyond) 0 size true
          = ((findPairs (url ++ '\x00' :: beyond) size ((url.takeWhile inPath).length + 1)).foldl
              decodePair (url ++ '\x00' :: beyond),
            findPairs (url ++ '\x00' :: beyond) size ((url.takeWhile inPath).length + 1)) := by
        unfold qsParse
        dsimp only
        rw [if_pos rfl, Nat.zero_add, hspan, hpeek, if_neg (by obtain rfl | rfl := hd <;> decide),
          if_pos rfl]
      rw [hparse]
      exact hfound

/-- A lookup in the query string of a URL. -/
theorem value_url (beyond url : List Char) {name : List Char} (hname : Plain name) :
    (ofUrl beyond url true).value name
      = ((params url true).find? (·.1 = name)).map Prod.snd := by
  unfold value get ofUrl params segments
  dsimp only
  by_cases hempty : url = []
  · subst hempty
    rfl
  · obtain ⟨beyond', hmem⟩ := append_nul_eq url beyond
    rw [if_neg hempty, hmem]
    have hfound := qsParse_url hname (nul_not_mem_cut url) beyond' maxKeyValuePairsCount
    dsimp only at hfound ⊢
    rw [hfound, if_pos rfl]
    cases (cut url).dropWhile inPath <;> rfl

/-- **A lookup is the plain reading of the URL**, whatever lies behind the copy: the value
    of the first pair whose decoded key is the name. -/
theorem lookup_reads_url (beyond url : List Char) (parseUrl : Bool) {name : List Char}
    (hname : Plain name) :
    (ofUrl beyond url parseUrl).value name
      = ((params url parseUrl).find? (·.1 = name)).map Prod.snd := by
  cases parseUrl with
  | true => exact value_url beyond url hname
  | false =>
      unfold value get ofUrl params segments
      dsimp only
      by_cases hempty : url = []
      · subst hempty
        rfl
      · obtain ⟨beyond', hmem⟩ := append_nul_eq url beyond
        rw [if_neg hempty, hmem]
        have hfound :=
          qsK2v_findPairs hname (nul_not_mem_cut url) [] beyond' maxKeyValuePairsCount
        dsimp only at hfound ⊢
        rw [if_neg (by decide), if_neg hempty]
        exact hfound

/-- An escaped key, a key that ends in a percent sign, and a fragment. -/
theorem lookup_reads_url_status :
    Plain "status".toList ∧
    (ofUrl "zz".toList "/order/list?st%61tus=PA%49D&#x&status%".toList true).value "status".toList
      = ((params "/order/list?st%61tus=PA%49D&#x&status%".toList true).find?
          (·.1 = "status".toList)).map Prod.snd := by
  have hname : Plain "status".toList := by simp [Plain, qsIsQsChr]
  exact ⟨hname, lookup_reads_url "zz".toList _ true hname⟩

/-! ## §12. Parameters as they are sent. -/

/-- A parameter with the text it is sent as. -/
structure Sent where
  key : List Char
  value : List Char
  keyText : List Char
  valueText : List Char
  encodedKey : Encodes stop key keyText
  encodedValue : Encodes stop value valueText

namespace Sent

def text (p : Sent) : List Char := p.keyText ++ '=' :: p.valueText

/-- The query string of parameters. -/
def query (ps : List Sent) : List Char := ['&'].intercalate (ps.map text)

end Sent

theorem noStop_ne {cs : List Char} (h : ∀ c ∈ cs, stop c = false) {d : Char} (hd : stop d = true) :
    d ∉ cs :=
  fun hmem => by rw [h d hmem] at hd; cases hd

theorem Sent.no_ampersand (p : Sent) : '&' ∉ p.text := by
  unfold text
  rw [List.mem_append, List.mem_cons, not_or, not_or]
  exact ⟨noStop_ne (p.encodedKey.noStop stops) (by decide), by decide,
    noStop_ne (p.encodedValue.noStop stops) (by decide)⟩

/-- A parameter that was sent is read as the one it was, up to the first NUL of its value. -/
theorem Sent.param_text (p : Sent) : param p.text = some (p.key, cut p.value) := by
  have hkey : decoded stop p.text = (p.key, true) := by
    unfold text
    rw [decoded_append stops _ (by decide)]
    exact p.encodedKey.decodes.eq stops
  have hin : ∀ c ∈ p.keyText, inKey c = true := by
    intro c hc
    have hno := p.encodedKey.noStop stops
    have heq : c ≠ '=' := fun h => noStop_ne hno (d := '=') (by decide) (h ▸ hc)
    have hhash : c ≠ '#' := fun h => noStop_ne hno (d := '#') (by decide) (h ▸ hc)
    simp [inKey, heq, hhash]
  have hvalue : segmentValue p.text = cut p.value := by
    unfold segmentValue text
    rw [List.dropWhile_append_of_pos hin, List.dropWhile_cons_of_neg (by decide)]
    dsimp only
    rw [if_pos rfl, p.encodedValue.decodes.eq stops]
  rw [param, hkey, if_pos rfl, hvalue]

/-- There is no NUL in what is sent. -/
theorem Sent.no_nul (ps : List Sent) : '\x00' ∉ Sent.query ps := by
  unfold query
  induction ps with
  | nil => exact List.not_mem_nil
  | cons p ps ih =>
      have htext : '\x00' ∉ p.text := by
        unfold text
        rw [List.mem_append, List.mem_cons, not_or, not_or]
        exact ⟨noStop_ne (p.encodedKey.noStop stops) (by decide), by decide,
          noStop_ne (p.encodedValue.noStop stops) (by decide)⟩
      cases ps with
      | nil => simpa using htext
      | cons q ps =>
          rw [List.map_cons, List.map_cons, List.intercalate_cons_cons, List.mem_append,
            List.mem_append, not_or, not_or]
          exact ⟨⟨htext, by decide⟩, ih⟩

theorem url_noNul {path : List Char} (hpath : ∀ c ∈ path, inPath c = true ∧ c ≠ '\x00')
    (ps : List Sent) : '\x00' ∉ path ++ '?' :: Sent.query ps := by
  rw [List.mem_append, List.mem_cons, not_or, not_or]
  exact ⟨fun h => (hpath _ h).2 rfl, by decide, Sent.no_nul ps⟩

theorem dropWhile_url {path : List Char} (hpath : ∀ c ∈ path, inPath c = true ∧ c ≠ '\x00')
    (query : List Char) : (path ++ '?' :: query).dropWhile inPath = '?' :: query := by
  rw [List.dropWhile_append_of_pos fun c hc => (hpath c hc).1,
    List.dropWhile_cons_of_neg (by decide)]

/-- The pairs of a query string are the parameters it was made of. -/
theorem filterMap_query {ps : List Sent} (hsome : ps ≠ [])
    (hroom : ps.length ≤ maxKeyValuePairsCount) :
    (((Sent.query ps).splitOn '&').take maxKeyValuePairsCount).filterMap param
      = ps.map fun p => (p.key, cut p.value) := by
  have hamp : ∀ text ∈ ps.map Sent.text, '&' ∉ text := by
    intro text htext
    obtain ⟨p, -, rfl⟩ := List.mem_map.mp htext
    exact p.no_ampersand
  have hparam : param ∘ Sent.text = some ∘ fun p : Sent => (p.key, cut p.value) :=
    funext Sent.param_text
  rw [Sent.query, List.splitOn_intercalate _ hamp (by simpa using hsome),
    List.take_of_length_le (by rw [List.length_map]; exact hroom), List.filterMap_map, hparam,
    List.filterMap_eq_map]

/-- The parameters of a URL are the ones that were sent. -/
theorem params_sent {path : List Char} (hpath : ∀ c ∈ path, inPath c = true ∧ c ≠ '\x00')
    {ps : List Sent} (hsome : ps ≠ []) (hroom : ps.length ≤ maxKeyValuePairsCount) :
    params (path ++ '?' :: Sent.query ps) true = ps.map fun p => (p.key, cut p.value) := by
  unfold params segments
  rw [if_pos rfl, cut_eq (url_noNul hpath ps), dropWhile_url hpath]
  exact filterMap_query hsome hroom

/-- **What is sent is found**: for parameters that are encoded in any way, a lookup gives
    the value of the first one with that name, as far as a C string goes. -/
theorem sent_params_found (beyond : List Char) {path : List Char}
    (hpath : ∀ c ∈ path, inPath c = true ∧ c ≠ '\x00') {ps : List Sent} (hsome : ps ≠ [])
    (hroom : ps.length ≤ maxKeyValuePairsCount) {name : List Char} (hname : Plain name) :
    (ofUrl beyond (path ++ '?' :: Sent.query ps) true).value name
      = (ps.find? (·.key = name)).map fun p => cut p.value := by
  rw [value_url beyond _ hname, params_sent hpath hsome hroom, List.find?_map, Option.map_map]
  rfl

/-- `st%61tus=PA%49D`. -/
def sampleSent : Sent where
  key := "status".toList
  value := "PAID".toList
  keyText := "st%61tus".toList
  valueText := "PA%49D".toList
  encodedKey := .plain (by decide) (by decide) (by decide) <|
    .plain (by decide) (by decide) (by decide) <| .escape (by decide) <|
    .plain (by decide) (by decide) (by decide) <| .plain (by decide) (by decide) (by decide) <|
    .plain (by decide) (by decide) (by decide) .nil
  encodedValue := .plain (by decide) (by decide) (by decide) <|
    .plain (by decide) (by decide) (by decide) <| .escape (by decide) <|
    .plain (by decide) (by decide) (by decide) .nil

/-- `page=2`. -/
def sampleOther : Sent where
  key := "page".toList
  value := "2".toList
  keyText := "page".toList
  valueText := "2".toList
  encodedKey := .plain (by decide) (by decide) (by decide) <|
    .plain (by decide) (by decide) (by decide) <| .plain (by decide) (by decide) (by decide) <|
    .plain (by decide) (by decide) (by decide) .nil
  encodedValue := .plain (by decide) (by decide) (by decide) .nil

/-- `status=a+b`. -/
def sampleAgain : Sent where
  key := "status".toList
  value := "a b".toList
  keyText := "status".toList
  valueText := "a+b".toList
  encodedKey := .plain (by decide) (by decide) (by decide) <|
    .plain (by decide) (by decide) (by decide) <| .plain (by decide) (by decide) (by decide) <|
    .plain (by decide) (by decide) (by decide) <| .plain (by decide) (by decide) (by decide) <|
    .plain (by decide) (by decide) (by decide) .nil
  encodedValue := .plain (by decide) (by decide) (by decide) <| .blank <|
    .plain (by decide) (by decide) (by decide) .nil

/-- Of two parameters of one name the first is found, with its escapes, and a name that was
    not sent is not. -/
theorem sent_params_found_paid :
    let qs := ofUrl []
      ("/order/list".toList ++ '?' :: Sent.query [sampleOther, sampleSent, sampleAgain]) true
    qs.value "status".toList = some "PAID".toList ∧ qs.value "page".toList = some "2".toList
      ∧ qs.value "stat".toList = none := by
  have hpath : ∀ c ∈ "/order/list".toList, inPath c = true ∧ c ≠ '\x00' := by simp [inPath]
  have hsome : [sampleOther, sampleSent, sampleAgain] ≠ [] := List.cons_ne_nil _ _
  exact ⟨sent_params_found [] hpath hsome (by decide) (by simp [Plain, qsIsQsChr]),
    sent_params_found [] hpath hsome (by decide) (by simp [Plain, qsIsQsChr]),
    sent_params_found [] hpath hsome (by decide) (by simp [Plain, qsIsQsChr])⟩

end QueryString

end OrderApi.Crow
