/-
  OrderApi.Crow.JsonDump
  ──────────────────────
  **WHAT `wvalue::dump` WRITES IS JSON.**

  For the values the service builds its errors from: objects whose members are
  strings, integers, booleans or null.  The one thing `dump` leaves open is the
  order of the members (`FlatDump`), which the grammar does not see, and which is
  none for a single member (`SoleDump`).
-/
import OrderApi.Lib.JsonText
import OrderApi.Crow.Json

namespace OrderApi.Crow

open OrderApi.Lib.JsonText

/-! ## §1. Strings. -/

theorem hexDigit_digitChar {d : Nat} (h : d < 16) : hexDigit (Nat.digitChar d) = some d := by
  have hall : ∀ d, d < 16 → hexDigit (Nat.digitChar d) = some d := by decide
  exact hall d h

theorem charText_letter {c : Char} (e x : Char) (mem : (e, x) ∈ escapes) (h : c = x) :
    CharText c ['\\', e] := by
  rw [h]
  exact .escaped e x mem

/-- `escape` writes a character as JSON wants it. -/
theorem charText_escapeChar (c : Char) : CharText c (escapeChar c).toList := by
  unfold escapeChar
  by_cases hquote : c = '"'
  · rw [if_pos hquote]
    exact charText_letter '"' '"' (by decide) hquote
  rw [if_neg hquote]
  by_cases hbackslash : c = '\\'
  · rw [if_pos hbackslash]
    exact charText_letter '\\' '\\' (by decide) hbackslash
  rw [if_neg hbackslash]
  split
  · exact charText_letter 'n' '\n' (by decide) ‹_›
  split
  · exact charText_letter 'b' '\x08' (by decide) ‹_›
  split
  · exact charText_letter 'f' '\x0c' (by decide) ‹_›
  split
  · exact charText_letter 'r' '\r' (by decide) ‹_›
  split
  · exact charText_letter 't' '\t' (by decide) ‹_›
  split
  · -- the control characters without a letter of their own
    rename_i hcontrol
    rw [String.toList_append, String.toList_ofList, String.toList_ofList]
    refine .unicode c '0' '0' _ _ 0 0 (c.toNat / 16) (c.toNat % 16) (by decide) (by decide)
      (hexDigit_digitChar ?_) (hexDigit_digitChar ?_) ?_
    · omega
    · omega
    · omega
  · rename_i hcontrol
    rw [String.toList_singleton]
    exact .plain c (by omega) hquote hbackslash

/-- `escape` appends character by character. -/
theorem toList_foldl_escape (s : List Char) (out : String) :
    (s.foldl (fun out c => out ++ escapeChar c) out).toList
      = out.toList ++ s.flatMap fun c => (escapeChar c).toList := by
  induction s generalizing out with
  | nil => simp
  | cons c s ih =>
      rw [List.foldl_cons, ih, String.toList_append, List.flatMap_cons, List.append_assoc]

/-- **A string is written as JSON wants it.** -/
theorem stringText_dumpString (s : String) : StringText s (dumpString s).toList := by
  refine ⟨s.toList.flatMap fun c => (escapeChar c).toList,
    charsText_flatMap charText_escapeChar s.toList, ?_⟩
  unfold dumpString
  rw [String.toList_append, String.toList_append, toList_foldl_escape]
  rfl

/-! ## §2. Flat objects. -/

/-- A value that contains neither a double nor another value. -/
def WValue.Flat : WValue → Prop
  | .null => True
  | .bool _ => True
  | .int _ => True
  | .str _ => True
  | _ => False

/-- **A value without members is written as JSON wants it.** -/
theorem valueText_dump (fmt : Double → String) {v : WValue} (h : v.Flat) :
    ValueText (v.dump fmt).toList := by
  cases v with
  | null => exact .null
  | bool b =>
      cases b with
      | true => exact .true
      | false => exact .false
  | int i => exact .number (numberText_toString i)
  | str s => exact .string (stringText_dumpString s)
  | double d => exact h.elim
  | list l => exact h.elim
  | object ms => exact h.elim

/-- Keys and the texts of the values. -/
def WValue.texts (fmt : Double → String) (ms : List (String × WValue)) :
    List (String × List Char) :=
  ms.map fun m => (m.1, (m.2.dump fmt).toList)

/-- The members, each with its name. -/
theorem toList_dumpMembers (fmt : Double → String) (ms : List (String × WValue)) :
    (WValue.dumpMembers fmt ms).map String.toList
      = (WValue.texts fmt ms).map fun m => (dumpString m.1).toList ++ ':' :: m.2 := by
  induction ms with
  | nil => rfl
  | cons m ms ih =>
      unfold WValue.dumpMembers WValue.texts
      rw [List.map_cons, List.map_cons, List.map_cons, ih]
      simp [WValue.texts]

/-- **A flat object is dumped as JSON.** -/
theorem objectText_dump (fmt : Double → String) {ms : List (String × WValue)} (hne : ms ≠ [])
    (hflat : ∀ m ∈ ms, m.2.Flat) :
    ObjectText (WValue.texts fmt ms) ((WValue.object ms).dump fmt).toList := by
  have htext : ((WValue.object ms).dump fmt).toList
      = '\x7b' :: [','].intercalate ((WValue.texts fmt ms).map fun m =>
          (dumpString m.1).toList ++ ':' :: m.2) ++ ['\x7d'] := by
    unfold WValue.dump
    rw [String.toList_append, String.toList_append, String.toList_intercalate, toList_dumpMembers]
    rfl
  rw [htext]
  apply objectText_compact stringText_dumpString
  · unfold WValue.texts
    simpa using hne
  · intro m hm
    obtain ⟨m', hm', rfl⟩ := List.mem_map.mp hm
    exact valueText_dump fmt (hflat m' hm')

/-- A writer of values dumps a flat object like `wvalue::dump`: its members in
    some order. -/
def FlatDump (dump : WValue → String) : Prop :=
  ∀ ms : List (String × WValue), (∀ m ∈ ms, m.2.Flat) →
    ∃ fmt ms', ms'.Perm ms ∧ dump (.object ms) = (WValue.object ms').dump fmt

/-- What such a writer makes of a flat object, with the text of each string in it. -/
theorem FlatDump.objectText {dump : WValue → String} (hdump : FlatDump dump)
    {ms : List (String × WValue)} (hne : ms ≠ []) (hflat : ∀ m ∈ ms, m.2.Flat) :
    ∃ texts, ObjectText texts (dump (.object ms)).toList ∧
      ∀ k s, (k, WValue.str s) ∈ ms → ∃ t, (k, t) ∈ texts ∧ StringText s t := by
  obtain ⟨fmt, ms', hperm, heq⟩ := hdump ms hflat
  refine ⟨WValue.texts fmt ms', ?_, ?_⟩
  · rw [heq]
    refine objectText_dump fmt ?_ fun m hm => hflat m (hperm.mem_iff.mp hm)
    intro hnil
    rw [hnil] at hperm
    exact hne hperm.nil_eq.symm
  · intro k s hmem
    refine ⟨(dumpString s).toList, ?_, stringText_dumpString s⟩
    exact List.mem_map.mpr ⟨(k, .str s), hperm.mem_iff.mpr hmem, rfl⟩

/-! ## §3. Objects with a single member. -/

/-- A value in which there are no members to put in order. -/
def WValue.Memberless : WValue → Prop
  | .list l => l = []
  | .object _ => False
  | _ => True

/-- A writer of values dumps an object with one such member like `wvalue::dump`. -/
def SoleDump (dump : WValue → String) : Prop :=
  ∀ (k : String) (v : WValue), v.Memberless →
    ∃ fmt, dump (.object [(k, v)]) = (WValue.object [(k, v)]).dump fmt

theorem soleDump_dump (fmt : Double → String) : SoleDump (WValue.dump fmt) :=
  fun _ _ _ => ⟨fmt, rfl⟩

/-- The text of an object with one member. -/
theorem dump_sole (fmt : Double → String) (k : String) (v : WValue) :
    (WValue.object [(k, v)]).dump fmt = "\x7b" ++ (dumpString k ++ ":" ++ v.dump fmt) ++ "\x7d" := by
  simp [WValue.dump, WValue.dumpMembers]

/-- The text tells the member's. -/
theorem dump_sole_inj {fmt fmt' : Double → String} {k : String} {v v' : WValue}
    (h : (WValue.object [(k, v)]).dump fmt = (WValue.object [(k, v')]).dump fmt') :
    v.dump fmt = v'.dump fmt' := by
  rw [dump_sole, dump_sole, String.append_left_inj, String.append_right_inj,
    String.append_right_inj] at h
  exact h

/-- So two members with different texts are told apart. -/
theorem SoleDump.ne {dump : WValue → String} (hdump : SoleDump dump) (k : String) {v v' : WValue}
    (hv : v.Memberless) (hv' : v'.Memberless) (hne : ∀ fmt fmt', v.dump fmt ≠ v'.dump fmt') :
    dump (.object [(k, v)]) ≠ dump (.object [(k, v')]) := by
  intro h
  obtain ⟨fmt, heq⟩ := hdump k v hv
  obtain ⟨fmt', heq'⟩ := hdump k v' hv'
  rw [heq, heq'] at h
  exact hne fmt fmt' (dump_sole_inj h)

end OrderApi.Crow
