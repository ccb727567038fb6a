/-
  OrderApi.Crow.JsonRead
  ──────────────────────
  **WHAT THE READER MAKES OF JSON TEXTS**, against the grammar of RFC 8259.

  Crow writes the code units of an escape out as bytes, so a decoded string is the
  denoted one as long as its characters are ASCII.  With that `load` reads every
  text of an object with one string member, whatever whitespace and escapes the
  text has.
-/
import OrderApi.Crow.JsonLoad
import OrderApi.Lib.JsonText

namespace OrderApi.Crow

open OrderApi.Lib.JsonText

/-! ## §1. Whitespace. -/

/-- Whitespace is skipped. -/
theorem wsSkip_append {ws : List Char} (h : Ws ws) (cs : List Char) :
    wsSkip (ws ++ cs) = wsSkip cs := by
  induction ws with
  | nil => rfl
  | cons c ws ih =>
      have hc := h c List.mem_cons_self
      have hskip : (c = ' ' || c = '\t' || c = '\r' || c = '\n') = true := by
        rcases hc with rfl | rfl | rfl | rfl <;> rfl
      rw [List.cons_append, wsSkip, if_pos hskip]
      exact ih fun d hd => h d (List.mem_cons_of_mem c hd)

theorem wsSkip_ws {ws : List Char} (h : Ws ws) : wsSkip ws = [] := by
  have hnil := wsSkip_append h []
  rwa [List.append_nil] at hnil

/-! ## §2. Strings. -/

/-- Only ASCII characters. -/
def Ascii (s : List Char) : Prop := ∀ c ∈ s, c.toNat < 0x80

/-- The two readings of a hexadecimal digit agree. -/
theorem fromHex_of_hexDigit {c : Char} {d : Nat} (h : hexDigit c = some d) :
    isHex c = true ∧ fromHex c = d ∧ d < 16 := by
  have h0 : '0'.toNat = 48 := rfl
  have h9 : '9'.toNat = 57 := rfl
  have ha : 'a'.toNat = 97 := rfl
  have hf : 'f'.toNat = 102 := rfl
  have hA : 'A'.toNat = 65 := rfl
  have hF : 'F'.toNat = 70 := rfl
  unfold hexDigit at h
  unfold isHex fromHex
  simp only [char_le_iff, h0, h9, ha, hf, hA, hF] at h ⊢
  simp only [Bool.or_eq_true, Bool.and_eq_true, decide_eq_true_eq]
  split at h
  · obtain rfl := Option.some.inj h
    refine ⟨by omega, ?_, by omega⟩
    rw [if_neg (by omega), if_neg (by omega)]
  · split at h
    · obtain rfl := Option.some.inj h
      refine ⟨by omega, ?_, by omega⟩
      rw [if_pos (by omega)]
      omega
    · split at h
      · obtain rfl := Option.some.inj h
        refine ⟨by omega, ?_, by omega⟩
        rw [if_neg (by omega), if_pos (by omega)]
        omega
      · cases h

/-- An ASCII code unit is one byte. -/
theorem encodeUnit_ascii {c : Char} (h : c.toNat < 0x80) : encodeUnit c.toNat = [c] := by
  unfold encodeUnit
  rw [if_neg (by omega), if_neg (by omega), Char.ofNat_toNat]

/-- How one character is scanned and unescaped. -/
theorem scan_charText {c : Char} {text : List Char} (h : CharText c text) (hc : c.toNat < 0x80)
    (cs : List Char) :
    scanString (text ++ cs) = (scanString cs).map (fun x => (text ++ x.1, x.2))
      ∧ unescape (text ++ cs) = c :: unescape cs := by
  cases h with
  | plain _ control quote backslash =>
      have hnul : c ≠ '\x00' := by
        rintro rfl
        exact absurd control (by decide)
      rw [List.singleton_append, scanString, unescape]
      · refine ⟨?_, rfl⟩
        rw [if_neg (by simp [backslash, hnul])]
        rfl
      all_goals simp_all
  | escaped e _ mem =>
      have hsimple : isSimpleEscape e = true ∧ e ≠ 'u' ∧ simpleEscape e = [c] := by
        simp only [escapes, List.mem_cons, Prod.mk.injEq, List.not_mem_nil, or_false] at mem
        rcases mem with ⟨rfl, rfl⟩ | ⟨rfl, rfl⟩ | ⟨rfl, rfl⟩ | ⟨rfl, rfl⟩ | ⟨rfl, rfl⟩ | ⟨rfl, rfl⟩
          | ⟨rfl, rfl⟩ | ⟨rfl, rfl⟩ <;> exact ⟨rfl, by decide, rfl⟩
      obtain ⟨hsimple, hu, hchar⟩ := hsimple
      show scanString ('\\' :: e :: cs) = _ ∧ unescape ('\\' :: e :: cs) = _
      rw [scanString, unescape, if_pos hsimple, hchar]
      · exact ⟨rfl, rfl⟩
      all_goals exact fun _ _ _ _ _ he _ => hu he
  | unicode _ a₃ a₂ a₁ a₀ d₃ d₂ d₁ d₀ h₃ h₂ h₁ h₀ value =>
      obtain ⟨hx₃, hv₃, -⟩ := fromHex_of_hexDigit h₃
      obtain ⟨hx₂, hv₂, -⟩ := fromHex_of_hexDigit h₂
      obtain ⟨hx₁, hv₁, -⟩ := fromHex_of_hexDigit h₁
      obtain ⟨hx₀, hv₀, -⟩ := fromHex_of_hexDigit h₀
      have hunit : codeUnit a₃ a₂ a₁ a₀ = c.toNat := by
        unfold codeUnit
        rw [hv₃, hv₂, hv₁, hv₀, value]
        simp only [Nat.shiftLeft_eq]
        omega
      show scanString ('\\' :: 'u' :: a₃ :: a₂ :: a₁ :: a₀ :: cs) = _
        ∧ unescape ('\\' :: 'u' :: a₃ :: a₂ :: a₁ :: a₀ :: cs) = _
      rw [scanString, unescape, if_pos (by simp [hx₃, hx₂, hx₁, hx₀]), hunit, encodeUnit_ascii hc]
      exact ⟨rfl, rfl⟩

/-- What is written for the characters of a string is scanned to its quote and read as these
    characters. -/
theorem scan_charsText {s inner : List Char} (h : CharsText s inner) (hs : Ascii s)
    (rest : List Char) :
    scanString (inner ++ '"' :: rest) = some (inner, rest) ∧ unescape inner = s := by
  induction h with
  | nil => exact ⟨rfl, rfl⟩
  | @cons c s inner text head tail ih =>
      obtain ⟨hscan, hunescape⟩ := ih fun d hd => hs d (List.mem_cons_of_mem c hd)
      have hc := hs c List.mem_cons_self
      refine ⟨?_, ?_⟩
      · rw [List.append_assoc, (scan_charText head hc _).1, hscan]
        rfl
      · rw [(scan_charText head hc _).2, hunescape]

/-- **A string text is read as the string it denotes.** -/
theorem decodeString_stringText {s : String} {text : List Char} (h : StringText s text)
    (hs : Ascii s.toList) (rest : List Char) :
    decodeString (text ++ rest) = some (s, rest) := by
  obtain ⟨inner, hinner, rfl⟩ := h
  obtain ⟨hscan, hunescape⟩ := scan_charsText hinner hs rest
  show (scanString (inner ++ ['"'] ++ rest)).map _ = _
  rw [List.append_assoc, List.singleton_append, hscan, Option.map_some]
  dsimp only
  rw [hunescape, String.ofList_toList]

/-- A string text starts with a quote. -/
theorem stringText_cons {s : String} {text : List Char} (h : StringText s text) :
    ∃ tail, text = '"' :: tail := by
  obtain ⟨inner, -, rfl⟩ := h
  exact ⟨_, rfl⟩

theorem wsSkip_stringText {s : String} {text : List Char} (h : StringText s text)
    (rest : List Char) : wsSkip (text ++ rest) = text ++ rest := by
  obtain ⟨tail, rfl⟩ := stringText_cons h
  rfl

/-! ## §3. An object with one string member. -/

variable {readDouble : String → Double}

/-- A string is read as itself. -/
theorem decode_stringText {s : String} {text : List Char} (h : StringText s text)
    (hs : Ascii s.toList) (fuel depth : Nat) (rest : List Char) :
    decode readDouble (fuel + 1) (.value depth) (text ++ rest) = some (.string s, rest) := by
  have hstring := decodeString_stringText h hs rest
  obtain ⟨tail, rfl⟩ := stringText_cons h
  show (decodeString ('"' :: tail ++ rest)).map _ = _
  rw [hstring]
  rfl

/-- An object that is not empty. -/
theorem decode_open {fuel depth : Nat} {cs tail : List Char} (hdepth : depth < maxDepth)
    (h : wsSkip cs = '"' :: tail) :
    decode readDouble (fuel + 1) (.value depth) ('\x7b' :: cs)
      = decode readDouble fuel (.members (depth + 1) []) ('"' :: tail) := by
  rw [decode, if_neg (by omega), h]
  rfl

/-- A string member, and the end of the object behind it. -/
theorem decode_stringMember {k s : String} {key v d e g b : List Char} (hkey : StringText k key)
    (hk : Ascii k.toList) (hv : StringText s v) (hs : Ascii s.toList) (hd : Ws d) (he : Ws e)
    (hg : Ws g) (fuel depth : Nat) :
    decode readDouble (fuel + 2) (.members depth [])
        (key ++ (d ++ ':' :: (e ++ (v ++ (g ++ '\x7d' :: b)))))
      = some (.object [(k, .string s)], b) := by
  have hcolon : wsSkip (d ++ ':' :: (e ++ (v ++ (g ++ '\x7d' :: b))))
      = ':' :: (e ++ (v ++ (g ++ '\x7d' :: b))) := wsSkip_append hd _
  have hclose : wsSkip (g ++ '\x7d' :: b) = '\x7d' :: b := wsSkip_append hg _
  rw [decode_member (decodeString_stringText hkey hk _) hcolon, wsSkip_append he,
    wsSkip_stringText hv, decode_stringText hv hs]
  simp only [hclose, List.nil_append]

/-- The text of an object whose only member is the string `s` under the key `k`,
    with whitespace around it. -/
def OneString (k s : String) (cs : List Char) : Prop :=
  ∃ v text, StringText s v ∧ ObjectText [(k, v)] text ∧ Spaced text cs

/-- **Every such text is read as that object.** -/
theorem load_oneString {k s : String} {cs : List Char} (hk : Ascii k.toList)
    (hs : Ascii s.toList) (h : OneString k s cs) :
    load readDouble (String.ofList cs) = some (.object [(k, .string s)]) := by
  obtain ⟨v, text, hv, ⟨inner, hinner, -, rfl⟩, a, b, ha, hb, rfl⟩ := h
  cases hinner with
  | more part rest => cases rest
  | one part =>
  obtain ⟨key, k', v', hkey, ⟨c, d, hc, hd, rfl⟩, ⟨e, g, he, hg, rfl⟩, rfl⟩ := part
  -- the text, piece by piece
  have htext : a ++ ('\x7b' :: (c ++ key ++ d ++ ':' :: (e ++ v ++ g)) ++ ['\x7d']) ++ b
      = a ++ '\x7b' :: (c ++ (key ++ (d ++ ':' :: (e ++ (v ++ (g ++ '\x7d' :: b)))))) := by
    simp
  rw [htext]
  generalize hmembers : key ++ (d ++ ':' :: (e ++ (v ++ (g ++ '\x7d' :: b)))) = members
  obtain ⟨tail, htail⟩ : ∃ tail, members = '"' :: tail := by
    obtain ⟨key', rfl⟩ := stringText_cons hkey
    exact ⟨_, hmembers.symm⟩
  have hstart : wsSkip (c ++ members) = '"' :: tail := by
    rw [wsSkip_append hc, htail]
    rfl
  -- fuel for the object, its member and the value of the member
  obtain ⟨fuel, hfuel⟩ : ∃ fuel, 2 * (a ++ '\x7b' :: (c ++ members)).length + 2 = fuel + 3 := by
    refine ⟨2 * (a ++ '\x7b' :: (c ++ members)).length - 1, ?_⟩
    rw [List.length_append, List.length_cons]
    omega
  have hdecode : decode readDouble (fuel + 3) (.value 0) (wsSkip (a ++ '\x7b' :: (c ++ members)))
      = some (.object [(k, .string s)], b) := by
    have hopen : wsSkip (a ++ '\x7b' :: (c ++ members)) = '\x7b' :: (c ++ members) :=
      wsSkip_append ha _
    rw [hopen, decode_open (by decide) hstart, ← htail, ← hmembers]
    exact decode_stringMember hkey hk hv hs hd he hg _ _
  unfold load parse
  rw [String.toList_ofList, hfuel, hdecode]
  dsimp only
  rw [wsSkip_ws hb]

end OrderApi.Crow
