/-
  OrderApi.Crow.JsonLoad
  ──────────────────────
  **`crow::json::load`** (`include/crow_all.h`), the reader of request bodies.

  The text is a list of characters that stand for bytes; its end is the NUL that
  `load` writes behind its copy.  `decode` is the parser with its three kinds of
  frames: a value, the elements of a list, the members of an object.  Strings are
  first scanned and then unescaped, as `rvalue::s` does on access.  How the
  digits of a number become a double is left to `readDouble`
  (`std::stringstream >> double`).

  The fuel of `load` does not run out (`parse_fuel`).
-/
import OrderApi.Crow.Json
import Mathlib.Data.Nat.Init

namespace OrderApi.Crow

/-! ## §1. Strings. -/

/-- `ws_skip`. -/
def wsSkip : List Char → List Char
  | [] => []
  | c :: cs => if c = ' ' || c = '\t' || c = '\r' || c = '\n' then wsSkip cs else c :: cs

theorem char_le_iff (a b : Char) : a ≤ b ↔ a.toNat ≤ b.toNat := by
  rw [Char.le_def, UInt32.le_iff_toNat_le]
  rfl

/-- The check of a hexadecimal digit in `decode_string`. -/
def isHex (c : Char) : Bool :=
  ('0' ≤ c && c ≤ '9') || ('a' ≤ c && c ≤ 'f') || ('A' ≤ c && c ≤ 'F')

/-- The escapes of one character. -/
def isSimpleEscape (c : Char) : Bool :=
  c = '"' || c = '\\' || c = '/' || c = 'b' || c = 'f' || c = 'n' || c = 'r' || c = 't'

/-- The loop of `decode_string` behind the opening quote: the text of the string,
    escapes and all, and what follows the closing quote. -/
def scanString : List Char → Option (List Char × List Char)
  | [] => none
  | '"' :: cs => some ([], cs)
  | '\\' :: 'u' :: a :: b :: c :: d :: cs =>
      if isHex a && isHex b && isHex c && isHex d then
        (scanString cs).map fun (raw, rest) => ('\\' :: 'u' :: a :: b :: c :: d :: raw, rest)
      else none
  | '\\' :: e :: cs =>
      if isSimpleEscape e then (scanString cs).map fun (raw, rest) => ('\\' :: e :: raw, rest)
      else none
  | c :: cs =>
      if c = '\\' || c = '\x00' then none
      else (scanString cs).map fun (raw, rest) => (c :: raw, rest)

/-- `from_hex`. -/
def fromHex (c : Char) : Nat :=
  if 'a' ≤ c then c.toNat - 'a'.toNat + 10
  else if 'A' ≤ c then c.toNat - 'A'.toNat + 10
  else c.toNat - '0'.toNat

/-- The bytes of a code unit. -/
def encodeUnit (code : Nat) : List Char :=
  if 0x800 ≤ code then
    [Char.ofNat (0xE0 ||| code >>> 12), Char.ofNat (0x80 ||| (code >>> 6 &&& 0x3F)),
      Char.ofNat (0x80 ||| (code &&& 0x3F))]
  else if 0x80 ≤ code then
    [Char.ofNat (0xC0 ||| code >>> 6), Char.ofNat (0x80 ||| (code &&& 0x3F))]
  else [Char.ofNat code]

/-- The code unit of four hexadecimal digits. -/
def codeUnit (a b c d : Char) : Nat :=
  (fromHex a <<< 12) + (fromHex b <<< 8) + (fromHex c <<< 4) + fromHex d

/-- The character an escape of one character stands for. -/
def simpleEscape (c : Char) : List Char :=
  if c = '"' then ['"']
  else if c = '\\' then ['\\']
  else if c = '/' then ['/']
  else if c = 'b' then ['\x08']
  else if c = 'f' then ['\x0c']
  else if c = 'n' then ['\n']
  else if c = 'r' then ['\r']
  else if c = 't' then ['\t']
  else []

/-- `rvalue::unescape`. -/
def unescape : List Char → List Char
  | [] => []
  | '\\' :: 'u' :: a :: b :: c :: d :: cs => encodeUnit (codeUnit a b c d) ++ unescape cs
  | '\\' :: e :: cs => simpleEscape e ++ unescape cs
  | c :: cs => c :: unescape cs

/-- `decode_string`, followed by `rvalue::s`. -/
def decodeString : List Char → Option (String × List Char)
  | '"' :: cs => (scanString cs).map fun (raw, rest) => (String.ofList (unescape raw), rest)
  | _ => none

/-! ## §2. Numbers. -/

/-- `NumberParsingState`. -/
inductive NumberParsingState where
  | minus | afterMinus | zeroFirst | digits | digitsAfterPoints | e | digitsAfterE | invalid
  deriving DecidableEq

namespace NumberParsingState

/-- The states in which a number may end. -/
def accepts : NumberParsingState → Bool
  | zeroFirst => true
  | digits => true
  | digitsAfterPoints => true
  | digitsAfterE => true
  | _ => false

/-- Where a digit leads; the first one decides between `0` and other numbers. -/
def onDigit (first : NumberParsingState) : NumberParsingState → NumberParsingState
  | minus => first
  | afterMinus => first
  | zeroFirst => invalid
  | digits => digits
  | digitsAfterPoints => digitsAfterPoints
  | e => digitsAfterE
  | digitsAfterE => digitsAfterE
  | invalid => invalid

/-- Where a character leads; `none` for one that ends the number. -/
def next (st : NumberParsingState) (c : Char) : Option NumberParsingState :=
  if c = '0' then some (onDigit zeroFirst st)
  else if c.isDigit then some (onDigit digits st)
  else if c = '.' then
    match st with
    | zeroFirst => some digitsAfterPoints
    | digits => some digitsAfterPoints
    | _ => some invalid
  else if c = '-' then
    match st with
    | minus => some afterMinus
    | e => some digitsAfterE
    | _ => some invalid
  else if c = '+' then
    match st with
    | e => some digitsAfterE
    | _ => some invalid
  else if c = 'e' || c = 'E' then
    match st with
    | digits => some e
    | digitsAfterPoints => some e
    | _ => some invalid
  else none

end NumberParsingState

open NumberParsingState in
/-- The loop of `decode_number`: the text of the number and what follows.  After a
    digit other than `0` the further digits are skipped without a look at the
    state (`run`). -/
def scanNumber (st : NumberParsingState) (run : Bool) : List Char → Option (List Char × List Char)
  | [] => if st.accepts then some ([], []) else none
  | c :: cs =>
      if run && c.isDigit then (scanNumber st true cs).map fun (text, rest) => (c :: text, rest)
      else
        match st.next c with
        | none => if st.accepts then some ([], c :: cs) else none
        | some invalid => none
        | some st' =>
            (scanNumber st' (c.isDigit && c ≠ '0') cs).map fun (text, rest) => (c :: text, rest)

/-! ## §3. Values. -/

/-- What the parser is in the middle of. -/
inductive Frame where
  | value (depth : Nat)
  | elements (depth : Nat) (l : List RValue)
  | members (depth : Nat) (ms : List (String × RValue))

/-- `max_depth`. -/
def maxDepth : Nat := 10000

/-- The values without inner values. -/
def decodeScalar (readDouble : String → Double) : List Char → Option (RValue × List Char)
  | '"' :: cs => (decodeString ('"' :: cs)).map fun (s, rest) => (.string s, rest)
  | 't' :: cs =>
      match cs with
      | 'r' :: 'u' :: 'e' :: rest => some (.true, rest)
      | _ => none
  | 'f' :: cs =>
      match cs with
      | 'a' :: 'l' :: 's' :: 'e' :: rest => some (.false, rest)
      | _ => none
  | 'n' :: cs =>
      match cs with
      | 'u' :: 'l' :: 'l' :: rest => some (.null, rest)
      | _ => none
  | cs => (scanNumber .minus false cs).map fun (text, rest) =>
      (.number (readDouble (String.ofList text)), rest)

/-- `decode_value`, and the loops of `decode_list` and `decode_object`. -/
def decode (readDouble : String → Double) : Nat → Frame → List Char → Option (RValue × List Char)
  | 0, _, _ => none
  | fuel + 1, .value depth, '[' :: cs =>
      if maxDepth < depth + 1 then none
      else
        match wsSkip cs with
        | ']' :: rest => some (.list [], rest)
        | cs => decode readDouble fuel (.elements (depth + 1) []) cs
  | fuel + 1, .value depth, '\x7b' :: cs =>
      if maxDepth < depth + 1 then none
      else
        match wsSkip cs with
        | '\x7d' :: rest => some (.object [], rest)
        | cs => decode readDouble fuel (.members (depth + 1) []) cs
  | _ + 1, .value _, cs => decodeScalar readDouble cs
  | fuel + 1, .elements depth l, cs =>
      match decode readDouble fuel (.value (depth + 1)) cs with
      | none => none
      | some (v, cs) =>
          match wsSkip cs with
          | ']' :: rest => some (.list (l ++ [v]), rest)
          | ',' :: rest => decode readDouble fuel (.elements depth (l ++ [v])) (wsSkip rest)
          | _ => none
  | fuel + 1, .members depth ms, cs =>
      match decodeString cs with
      | none => none
      | some (key, cs) =>
          match wsSkip cs with
          | ':' :: cs =>
              match decode readDouble fuel (.value (depth + 1)) (wsSkip cs) with
              | none => none
              | some (v, cs) =>
                  match wsSkip cs with
                  | '\x7d' :: rest => some (.object (ms ++ [(key, v)]), rest)
                  | ',' :: rest =>
                      decode readDouble fuel (.members depth (ms ++ [(key, v)])) (wsSkip rest)
                  | _ => none
          | _ => none

/-- `Parser::parse`: a value, and nothing behind it up to the first NUL. -/
def parse (readDouble : String → Double) (fuel : Nat) (cs : List Char) : Option RValue :=
  match decode readDouble fuel (.value 0) (wsSkip cs) with
  | none => none
  | some (v, rest) =>
      match wsSkip rest with
      | [] => some v
      | c :: _ => if c = '\x00' then some v else none

/-- `crow::json::load`; `none` when the error bit is set. -/
def load (readDouble : String → Double) (s : String) : Option RValue :=
  parse readDouble (2 * s.toList.length + 2) s.toList

/-! ## §4. The fuel of `load` does not run out. -/

/-- Whitespace is skipped forward. -/
theorem length_wsSkip_le (cs : List Char) : (wsSkip cs).length ≤ cs.length := by
  induction cs with
  | nil => exact Nat.le_refl _
  | cons c cs ih =>
      unfold wsSkip
      split
      · exact Nat.le_succ_of_le ih
      · exact Nat.le_refl _

/-- What is left behind the first character of the rest. -/
theorem length_of_wsSkip_eq {cs rest : List Char} {c : Char} (h : wsSkip cs = c :: rest) :
    rest.length < cs.length := by
  have hle := length_wsSkip_le cs
  rw [h, List.length_cons] at hle
  exact hle

/-- What is left behind that character and more whitespace. -/
theorem length_behind {cs rest : List Char} {c : Char} (h : wsSkip cs = c :: rest) :
    (wsSkip rest).length < cs.length :=
  Nat.lt_of_le_of_lt (length_wsSkip_le rest) (length_of_wsSkip_eq h)

/-- A string text that `decode_string` accepts: what the scan keeps of it, and what
    is left behind the closing quote. -/
inductive Scanned : List Char → List Char → List Char → Prop where
  | stop (rest : List Char) : Scanned ('"' :: rest) [] rest
  | unicode {cs raw rest : List Char} (a b c d : Char) (ha : isHex a = true) (hb : isHex b = true)
      (hc : isHex c = true) (hd : isHex d = true) (tail : Scanned cs raw rest) :
      Scanned ('\\' :: 'u' :: a :: b :: c :: d :: cs) ('\\' :: 'u' :: a :: b :: c :: d :: raw) rest
  | escape {cs raw rest : List Char} (e : Char) (simple : isSimpleEscape e = true)
      (tail : Scanned cs raw rest) : Scanned ('\\' :: e :: cs) ('\\' :: e :: raw) rest
  | plain {cs raw rest : List Char} (c : Char) (backslash : c ≠ '\\') (nul : c ≠ '\x00')
      (tail : Scanned cs raw rest) : Scanned (c :: cs) (c :: raw) rest

/-- What `scanString` finds is a string up to its quote. -/
theorem scanned_of_scanString {cs raw rest : List Char} (h : scanString cs = some (raw, rest)) :
    Scanned cs raw rest := by
  induction cs using scanString.induct generalizing raw rest with
  | case1 => cases h
  | case2 cs =>
      cases h
      exact .stop _
  | case3 a b c d cs hhex ih =>
      rw [scanString, if_pos hhex, Option.map_eq_some_iff] at h
      obtain ⟨x, hx, he⟩ := h
      cases he
      simp only [Bool.and_eq_true] at hhex
      obtain ⟨⟨⟨ha, hb⟩, hc⟩, hd⟩ := hhex
      exact .unicode a b c d ha hb hc hd (ih hx)
  | case4 a b c d cs hhex =>
      rw [scanString, if_neg hhex] at h
      cases h
  | case5 e cs hnot hsimple ih =>
      rw [scanString, if_pos hsimple, Option.map_eq_some_iff] at h
      · obtain ⟨x, hx, he⟩ := h
        cases he
        exact .escape e hsimple (ih hx)
      · exact hnot
  | case6 e cs hnot hsimple =>
      rw [scanString, if_neg hsimple] at h
      · cases h
      · exact hnot
  | case7 c cs hquote hesc hsimple hstop =>
      rw [scanString, if_pos hstop] at h
      · cases h
      all_goals assumption
  | case8 c cs hquote hesc hsimple hstop ih =>
      rw [scanString, if_neg hstop, Option.map_eq_some_iff] at h
      · obtain ⟨x, hx, he⟩ := h
        cases he
        simp only [Bool.or_eq_true, decide_eq_true_eq, not_or] at hstop
        exact .plain c hstop.1 hstop.2 (ih hx)
      all_goals assumption

/-- Behind a string less is left. -/
theorem Scanned.length {cs raw rest : List Char} (h : Scanned cs raw rest) :
    rest.length < cs.length := by
  induction h with
  | stop rest => exact Nat.lt_succ_self _
  | unicode a b c d ha hb hc hd tail ih =>
      simp only [List.length_cons]
      omega
  | escape e simple tail ih =>
      simp only [List.length_cons]
      omega
  | plain c backslash nul tail ih =>
      simp only [List.length_cons]
      omega

/-- Behind a number nothing comes back. -/
theorem scanNumber_length {st : NumberParsingState} {run : Bool} {cs text rest : List Char}
    (h : scanNumber st run cs = some (text, rest)) : rest.length ≤ cs.length := by
  induction cs generalizing st run text rest with
  | nil =>
      unfold scanNumber at h
      split at h
      · cases h; exact Nat.le_refl _
      · cases h
  | cons c cs ih =>
      have hmap : ∀ {st run}, (scanNumber st run cs).map
          (fun x : List Char × List Char => (c :: x.1, x.2)) = some (text, rest) →
            rest.length ≤ (c :: cs).length := by
        intro st run hm
        obtain ⟨x, hx, he⟩ := Option.map_eq_some_iff.mp hm
        cases he
        exact Nat.le_succ_of_le (ih hx)
      unfold scanNumber at h
      split at h
      · exact hmap h
      · split at h
        · split at h
          · cases h; exact Nat.le_refl _
          · cases h
        · cases h
        · exact hmap h

/-- A number has at least one character. -/
theorem scanNumber_minus_length {cs text rest : List Char}
    (h : scanNumber .minus false cs = some (text, rest)) : rest.length < cs.length := by
  cases cs with
  | nil => cases h
  | cons c cs =>
      unfold scanNumber at h
      rw [Bool.false_and, if_neg Bool.false_ne_true] at h
      split at h
      · cases h
      · cases h
      · obtain ⟨x, hx, he⟩ := Option.map_eq_some_iff.mp h
        cases he
        exact Nat.lt_succ_of_le (scanNumber_length hx)

/-- A string is shorter than what it is read from. -/
theorem decodeString_length {cs rest : List Char} {s : String}
    (h : decodeString cs = some (s, rest)) : rest.length < cs.length := by
  unfold decodeString at h
  split at h
  · obtain ⟨x, hx, he⟩ := Option.map_eq_some_iff.mp h
    cases he
    exact Nat.lt_succ_of_lt (scanned_of_scanString hx).length
  · cases h

section
variable {readDouble : String → Double}

/-- So is a scalar. -/
theorem decodeScalar_length {cs rest : List Char} {v : RValue}
    (h : decodeScalar readDouble cs = some (v, rest)) : rest.length < cs.length := by
  unfold decodeScalar at h
  split at h
  · obtain ⟨x, hx, he⟩ := Option.map_eq_some_iff.mp h
    cases he
    exact decodeString_length hx
  -- the three words
  · split at h
    · cases h; simp only [List.length_cons]; omega
    · cases h
  · split at h
    · cases h; simp only [List.length_cons]; omega
    · cases h
  · split at h
    · cases h; simp only [List.length_cons]; omega
    · cases h
  · obtain ⟨x, hx, he⟩ := Option.map_eq_some_iff.mp h
    cases he
    exact scanNumber_minus_length hx

/-- What is left behind a key and its colon. -/
theorem length_behind_key {cs cs₁ cs₂ : List Char} {key : String}
    (hkey : decodeString cs = some (key, cs₁)) (hcolon : wsSkip cs₁ = ':' :: cs₂) :
    (wsSkip cs₂).length < cs.length :=
  Nat.lt_trans (length_behind hcolon) (decodeString_length hkey)

/-- Every frame consumes something. -/
theorem decode_length {fuel : Nat} {frame : Frame} {cs rest : List Char} {v : RValue}
    (h : decode readDouble fuel frame cs = some (v, rest)) : rest.length < cs.length := by
  fun_induction decode readDouble fuel frame cs generalizing rest v with
  -- a list, empty or not
  | case3 fuel depth cs hdepth rest' hend =>
      cases h
      exact Nat.lt_succ_of_lt (length_of_wsSkip_eq hend)
  | case4 fuel depth cs hdepth hmore ih =>
      exact Nat.lt_succ_of_lt (Nat.lt_of_lt_of_le (ih h) (length_wsSkip_le cs))
  -- an object, empty or not
  | case6 fuel depth cs hdepth rest' hend =>
      cases h
      exact Nat.lt_succ_of_lt (length_of_wsSkip_eq hend)
  | case7 fuel depth cs hdepth hmore ih =>
      exact Nat.lt_succ_of_lt (Nat.lt_of_lt_of_le (ih h) (length_wsSkip_le cs))
  | case8 fuel depth cs hlist hobject => exact decodeScalar_length h
  -- an element, the last one or not
  | case10 fuel depth l cs v' cs' hv rest' hend ih =>
      cases h
      have hvalue := ih hv
      have hrest := length_of_wsSkip_eq hend
      omega
  | case11 fuel depth l cs v' cs' hv rest' hcomma ihvalue ihmore =>
      have hvalue := ihvalue hv
      have hrest := length_behind hcomma
      have hmore := ihmore h
      omega
  -- a member, the last one or not
  | case15 fuel depth ms cs key cs₁ hkey cs₂ hcolon v' cs₃ hv rest' hend ih =>
      cases h
      have hbehind := length_behind_key hkey hcolon
      have hvalue := ih hv
      have hrest := length_of_wsSkip_eq hend
      omega
  | case16 fuel depth ms cs key cs₁ hkey cs₂ hcolon v' cs₃ hv rest' hcomma ihvalue ihmore =>
      have hbehind := length_behind_key hkey hcolon
      have hvalue := ihvalue hv
      have hrest := length_behind hcomma
      have hmore := ihmore h
      omega
  | _ => cases h

/-- Fuel that is enough for a frame. -/
def enough (cs : List Char) : Frame → Nat
  | .value _ => 2 * cs.length + 1
  | .elements _ _ => 2 * cs.length + 2
  | .members _ _ => 2 * cs.length + 2

/-- A member whose key and colon are there. -/
theorem decode_member {fuel depth : Nat} {ms : List (String × RValue)} {cs cs₁ cs₂ : List Char}
    {key : String} (hkey : decodeString cs = some (key, cs₁)) (hcolon : wsSkip cs₁ = ':' :: cs₂) :
    decode readDouble (fuel + 1) (.members depth ms) cs =
      match decode readDouble fuel (.value (depth + 1)) (wsSkip cs₂) with
      | none => none
      | some (v, cs) =>
          match wsSkip cs with
          | '\x7d' :: rest => some (.object (ms ++ [(key, v)]), rest)
          | ',' :: rest =>
              decode readDouble fuel (.members depth (ms ++ [(key, v)])) (wsSkip rest)
          | _ => none := by
  rw [decode, hkey]
  dsimp only
  rw [hcolon]
  rfl

/-- **Fuel beyond what is enough changes nothing**; the induction is on the fuel. -/
theorem decode_succ {fuel : Nat} {frame : Frame} {cs : List Char}
    (h : enough cs frame ≤ fuel) :
    decode readDouble (fuel + 1) frame cs = decode readDouble fuel frame cs := by
  fun_induction decode readDouble fuel frame cs with
  | case1 frame cs => cases frame <;> simp [enough] at h
  -- a list
  | case2 fuel depth cs hdepth => rw [decode, if_pos hdepth]
  | case3 fuel depth cs hdepth rest hend =>
      rw [decode, if_neg hdepth, hend]
      rfl
  | case4 fuel depth cs hdepth hmore ih =>
      have hskip := length_wsSkip_le cs
      rw [decode, if_neg hdepth]
      split
      · next rest hend => exact (hmore rest hend).elim
      · refine ih ?_
        simp only [enough, List.length_cons] at h ⊢
        omega
  -- an object
  | case5 fuel depth cs hdepth => rw [decode, if_pos hdepth]
  | case6 fuel depth cs hdepth rest hend =>
      rw [decode, if_neg hdepth, hend]
      rfl
  | case7 fuel depth cs hdepth hmore ih =>
      have hskip := length_wsSkip_le cs
      rw [decode, if_neg hdepth]
      split
      · next rest hend => exact (hmore rest hend).elim
      · refine ih ?_
        simp only [enough, List.length_cons] at h ⊢
        omega
  | case8 fuel depth cs hlist hobject =>
      rw [decode]
      · exact fun _ => hlist _
      · exact fun _ => hobject _
  -- an element
  | case9 fuel depth l cs hv ih =>
      rw [decode, ih, hv]
      simp only [enough] at h ⊢
      omega
  | case10 fuel depth l cs v cs' hv rest hend ih =>
      rw [decode, ih, hv]
      · dsimp only
        rw [hend]
        rfl
      · simp only [enough] at h ⊢
        omega
  | case11 fuel depth l cs v cs' hv rest hcomma ihvalue ihmore =>
      have hvalue := decode_length hv
      have hrest := length_behind hcomma
      simp only [enough] at h ihvalue ihmore
      rw [decode, ihvalue (by omega), hv]
      dsimp only
      rw [hcomma]
      exact ihmore (by omega)
  | case12 fuel depth l cs v cs' hv hend hcomma ih =>
      simp only [enough] at h ih
      rw [decode, ih (by omega), hv]
      dsimp only
      split
      · next rest heq => exact (hend rest heq).elim
      · next rest heq => exact (hcomma rest heq).elim
      · rfl
  -- a member
  | case13 fuel depth ms cs hkey => rw [decode, hkey]
  | case14 fuel depth ms cs key cs₁ hkey cs₂ hcolon hv ih =>
      have hbehind := length_behind_key hkey hcolon
      simp only [enough] at h ih
      rw [decode_member hkey hcolon, ih (by omega), hv]
  | case15 fuel depth ms cs key cs₁ hkey cs₂ hcolon v cs₃ hv rest hend ih =>
      have hbehind := length_behind_key hkey hcolon
      simp only [enough] at h ih
      rw [decode_member hkey hcolon, ih (by omega), hv]
      dsimp only
      rw [hend]
      rfl
  | case16 fuel depth ms cs key cs₁ hkey cs₂ hcolon v cs₃ hv rest hcomma ihvalue ihmore =>
      have hbehind := length_behind_key hkey hcolon
      have hvalue := decode_length hv
      have hrest := length_behind hcomma
      simp only [enough] at h ihvalue ihmore
      rw [decode_member hkey hcolon, ihvalue (by omega), hv]
      dsimp only
      rw [hcomma]
      exact ihmore (by omega)
  | case17 fuel depth ms cs key cs₁ hkey cs₂ hcolon v cs₃ hv hend hcomma ih =>
      have hbehind := length_behind_key hkey hcolon
      simp only [enough] at h ih
      rw [decode_member hkey hcolon, ih (by omega), hv]
      dsimp only
      split
      · next rest heq => exact (hend rest heq).elim
      · next rest heq => exact (hcomma rest heq).elim
      · rfl
  | case18 fuel depth ms cs key cs₁ hkey hcolon =>
      rw [decode, hkey]
      dsimp only
      split
      · next cs₂ heq => exact (hcolon cs₂ heq).elim
      · rfl

/-- **The fuel of `load` does not run out**: more of it reads the same. -/
theorem parse_fuel {fuel : Nat} {cs : List Char} (h : 2 * cs.length + 2 ≤ fuel) :
    parse readDouble fuel cs = parse readDouble (2 * cs.length + 2) cs := by
  have hskip := length_wsSkip_le cs
  have hdecode : decode readDouble fuel (.value 0) (wsSkip cs)
      = decode readDouble (2 * cs.length + 2) (.value 0) (wsSkip cs) := by
    induction fuel, h using Nat.le_induction with
    | base => rfl
    | succ fuel hle ih =>
        rw [← ih]
        refine decode_succ ?_
        simp only [enough]
        omega
  unfold parse
  rw [hdecode]

end

end OrderApi.Crow
