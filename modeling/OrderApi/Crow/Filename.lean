/-
  OrderApi.Crow.Filename
  ──────────────────────
  **`utility::sanitize_filename`**, which stands between the URL of a static file and the
  file system.

  The function goes through the name once and changes it under way: a directory
  traversal or a device at the start of a segment becomes one letter, and so does each
  character that is not allowed.

    • `sanitizeFilename_clean`   what comes out is clean, and what is clean stays as it is;
    • `static_path_stays`        the file asked for lies under the directory.
-/
import OrderApi.Crow.Http
import Mathlib.Data.List.TakeWhile

namespace OrderApi.Crow

/-! ## §1. The function. -/

/-- `toUpper` of `sanitize_filename`. -/
def asciiUpper (c : Char) : Char := if 'a' ≤ c ∧ c ≤ 'z' then Char.ofNat (c.toNat - 32) else c

/-- `default` of the parameter `replacement`. -/
def replacement : Char := '_'

def isSlash (c : Char) : Bool := c = '/' || c = '\\'

/-- What makes a device name special that is not the whole name. -/
def endsSpecial : List Char → Bool
  | [] => true
  | c :: _ => c = '.' || c = ':' || c = '/' || c = '\\'

/-- The first loop of `sanitizeSpecialFile`: what is behind the pattern. -/
def behindPattern : List Char → List Char → Option (List Char)
  | [], rest => some rest
  | _ :: _, [] => none
  | p :: pattern, c :: rest => if asciiUpper c = p then behindPattern pattern rest else none

/-- The number of `COM1` and the like. -/
def behindNumber (includeNumber : Bool) : List Char → Option (List Char)
  | [] => if includeNumber then none else some []
  | c :: rest =>
      if includeNumber then if c < '1' || c > '9' then none else some rest else some (c :: rest)

/-- What is behind a special name, if there is one. -/
def behindSpecial (pattern : List Char) (includeNumber : Bool) (source : List Char) :
    Option (List Char) :=
  ((behindPattern pattern source).bind (behindNumber includeNumber)).filter endsSpecial

/-- `sanitizeSpecialFile`, on what begins at `ofs`. -/
def sanitizeSpecialFile (source : List Char) (pattern : String) (includeNumber : Bool) :
    List Char :=
  match behindSpecial pattern.toList includeNumber source with
  | some rest => replacement :: rest
  | none => source

/-- The `switch` over the first character of a segment. -/
def sanitizeEntry (source : List Char) : List Char :=
  match source.head?.map asciiUpper with
  | some 'A' => sanitizeSpecialFile source "AUX" false
  | some 'C' => sanitizeSpecialFile (sanitizeSpecialFile source "CON" false) "COM" true
  | some 'L' => sanitizeSpecialFile source "LPT" true
  | some 'N' => sanitizeSpecialFile source "NUL" false
  | some 'P' => sanitizeSpecialFile source "PRN" false
  | some '.' => sanitizeSpecialFile source ".." false
  | _ => source

/-- A byte that is replaced wherever it stands. -/
def isForbidden (c : Char) : Bool :=
  c < ' ' || (0x80 ≤ c.toNat && c.toNat ≤ 0x9F) || c = '?' || c = '<' || c = '>' || c = ':'
    || c = '*' || c = '|' || c = '"'

/-- The loop, with what the name still holds.  `first` is `i == 0`. -/
def sanitizeLoop : Nat → Bool → Bool → List Char → List Char
  | 0, _, _, rest => rest
  | fuel + 1, first, checkForSpecialEntries, rest =>
      match if checkForSpecialEntries then sanitizeEntry rest else rest with
      | [] => []
      | c :: rest =>
          if isForbidden c then replacement :: sanitizeLoop fuel false false rest
          else if isSlash c then
            if first then replacement :: sanitizeLoop fuel false false rest
            else c :: sanitizeLoop fuel false true rest
          else c :: sanitizeLoop fuel false false rest

/-- `sanitize_filename`. -/
def sanitizeFilename (data : List Char) : List Char :=
  sanitizeLoop 255 true true (data.take 255)

/-- The file that the route for static files asks for: `static_dir_` and the sanitized
    parameter. -/
def staticPath (path : List Char) : List Char := "static/".toList ++ sanitizeFilename path

/-! ## §2. Clean names. -/

/-- The patterns of the `switch`, and whether a number follows. -/
def specials : List (String × Bool) :=
  [("AUX", false), ("CON", false), ("COM", true), ("LPT", true), ("NUL", false), ("PRN", false),
    ("..", false)]

/-- A directory traversal or a device begins here. -/
def Special (source : List Char) : Prop :=
  ∃ s ∈ specials, (behindSpecial s.1.toList s.2 source).isSome = true

instance (source : List Char) : Decidable (Special source) :=
  inferInstanceAs (Decidable (∃ s ∈ specials, _))

/-- What the loop has nothing to do with. -/
def CleanFrom : Bool → Bool → List Char → Prop
  | _, _, [] => True
  | first, check, c :: rest =>
      (check = true → ¬ Special (c :: rest)) ∧ isForbidden c = false
        ∧ (isSlash c = true → first = false) ∧ CleanFrom false (isSlash c) rest

/-- **A clean name**: not too long, without a character that is not allowed, not absolute,
    and no segment of it is a directory traversal or a device. -/
def Clean (name : List Char) : Prop := name.length ≤ 255 ∧ CleanFrom true true name

/-! ## §3. Names that are special. -/

/-- What is behind a pattern is shorter by its length. -/
theorem behindPattern_length {pattern source r : List Char}
    (h : behindPattern pattern source = some r) : r.length + pattern.length = source.length := by
  induction pattern generalizing source with
  | nil =>
      obtain rfl := Option.some.inj h
      rfl
  | cons p pattern ih =>
      cases source with
      | nil => cases h
      | cons c rest =>
          unfold behindPattern at h
          split at h
          · have hlen := ih h
            simp only [List.length_cons]
            omega
          · cases h

theorem behindNumber_false (source : List Char) : behindNumber false source = some source := by
  cases source <;> rfl

/-- A number is one character at most. -/
theorem behindNumber_length {number : Bool} {source r : List Char}
    (h : behindNumber number source = some r) : r.length ≤ source.length := by
  cases number with
  | false =>
      rw [behindNumber_false] at h
      obtain rfl := Option.some.inj h
      exact le_rfl
  | true =>
      cases source with
      | nil => cases h
      | cons c rest =>
          rw [behindNumber, if_pos rfl] at h
          split at h
          · cases h
          · obtain rfl := Option.some.inj h
            exact Nat.le_succ _

/-- A special name is its pattern, its number if it has one, and an end. -/
theorem behindSpecial_some {pattern source r : List Char} {number : Bool} :
    behindSpecial pattern number source = some r
      ↔ ∃ rest, behindPattern pattern source = some rest ∧ behindNumber number rest = some r
          ∧ endsSpecial r = true := by
  unfold behindSpecial
  rw [Option.filter_eq_some_iff, Option.bind_eq_some_iff]
  simp only [exists_and_right, ← and_assoc]

/-- Behind a special name less is left. -/
theorem behindSpecial_length {pattern source r : List Char} {number : Bool} (hne : pattern ≠ [])
    (h : behindSpecial pattern number source = some r) : r.length < source.length := by
  obtain ⟨rest, hpattern, hnumber, -⟩ := behindSpecial_some.mp h
  have hpos := List.length_pos_iff.mpr hne
  have hrest := behindPattern_length hpattern
  have hr := behindNumber_length hnumber
  omega

/-- A pattern that begins like this name begins with its first letter. -/
theorem behindSpecial_cons {p c : Char} {pattern rest r : List Char} {number : Bool}
    (h : behindSpecial (p :: pattern) number (c :: rest) = some r) : asciiUpper c = p := by
  unfold behindSpecial behindPattern at h
  by_contra hne
  rw [if_neg hne] at h
  cases h

/-- No special name begins with an underscore or a slash, so that what the loop writes is none: by
    evaluation. -/
theorem specials_letter {s : String × Bool} (hs : s ∈ specials) :
    ∃ p pattern, s.1.toList = p :: pattern ∧ p ≠ replacement ∧ isSlash p = false
      ∧ ∀ q ∈ pattern, q ≠ replacement ∧ isSlash q = false := by
  simp only [specials, List.mem_cons, List.not_mem_nil, or_false] at hs
  rcases hs with rfl | rfl | rfl | rfl | rfl | rfl | rfl
  · exact ⟨'A', ['U', 'X'], rfl, by decide, by decide, by simp [replacement, isSlash]⟩
  · exact ⟨'C', ['O', 'N'], rfl, by decide, by decide, by simp [replacement, isSlash]⟩
  · exact ⟨'C', ['O', 'M'], rfl, by decide, by decide, by simp [replacement, isSlash]⟩
  · exact ⟨'L', ['P', 'T'], rfl, by decide, by decide, by simp [replacement, isSlash]⟩
  · exact ⟨'N', ['U', 'L'], rfl, by decide, by decide, by simp [replacement, isSlash]⟩
  · exact ⟨'P', ['R', 'N'], rfl, by decide, by decide, by simp [replacement, isSlash]⟩
  · exact ⟨'.', ['.'], rfl, by decide, by decide, by simp [replacement, isSlash]⟩

/-- No special name begins with a character that is no first letter of one. -/
theorem not_special_of {c : Char} (rest : List Char)
    (h : asciiUpper c = replacement ∨ isSlash (asciiUpper c) = true) : ¬ Special (c :: rest) := by
  rintro ⟨s, hs, hsome⟩
  obtain ⟨p, pattern, hp, hreplacement, hslash, -⟩ := specials_letter hs
  obtain ⟨r, hr⟩ := Option.isSome_iff_exists.mp hsome
  rw [hp] at hr
  have hc := behindSpecial_cons hr
  rw [hc] at h
  obtain h | h := h
  · exact hreplacement h
  · rw [hslash] at h
    cases h

/-- A slash has no capital. -/
theorem asciiUpper_slash {c : Char} (h : isSlash c = true) : asciiUpper c = c := by
  unfold isSlash at h
  simp only [Bool.or_eq_true, decide_eq_true_eq] at h
  obtain rfl | rfl := h
  · decide
  · decide

theorem sanitizeSpecialFile_eq_self {source : List Char} {pattern : String} {number : Bool}
    (h : behindSpecial pattern.toList number source = none) :
    sanitizeSpecialFile source pattern number = source := by
  unfold sanitizeSpecialFile
  rw [h]

theorem sanitizeSpecialFile_some {source r : List Char} {pattern : String} {number : Bool}
    (h : behindSpecial pattern.toList number source = some r) :
    sanitizeSpecialFile source pattern number = replacement :: r := by
  unfold sanitizeSpecialFile
  rw [h]

/-- What is not special stays. -/
theorem sanitizeEntry_eq_self {source : List Char} (h : ¬ Special source) :
    sanitizeEntry source = source := by
  have hnone : ∀ s ∈ specials, behindSpecial s.1.toList s.2 source = none := by
    intro s hs
    exact Option.not_isSome_iff_eq_none.mp fun hsome => h ⟨s, hs, hsome⟩
  have hself : ∀ s ∈ specials, sanitizeSpecialFile source s.1 s.2 = source :=
    fun s hs => sanitizeSpecialFile_eq_self (hnone s hs)
  simp only [specials, List.forall_mem_cons] at hself
  obtain ⟨haux, hcon, hcom, hlpt, hnul, hprn, hdots, -⟩ := hself
  unfold sanitizeEntry
  split
  · exact haux
  · rw [hcon, hcom]
  · exact hlpt
  · exact hnul
  · exact hprn
  · exact hdots
  · rfl

/-- What is special becomes shorter. -/
theorem sanitizeEntry_special {source : List Char} (h : Special source) :
    ∃ r, sanitizeEntry source = replacement :: r ∧ r.length < source.length := by
  obtain ⟨s, hs, hsome⟩ := h
  obtain ⟨r, hr⟩ := Option.isSome_iff_exists.mp hsome
  cases source with
  | nil =>
      obtain ⟨p, pattern, hp, -⟩ := specials_letter hs
      rw [hp] at hr
      cases hr
  | cons c rest =>
      simp only [specials, List.mem_cons, List.not_mem_nil, or_false] at hs
      rcases hs with rfl | rfl | rfl | rfl | rfl | rfl | rfl
      all_goals
        have hc := behindSpecial_cons hr
        have hlen := behindSpecial_length (by decide) hr
        unfold sanitizeEntry
        rw [List.head?_cons, Option.map_some, hc]
        dsimp only
      · exact ⟨r, sanitizeSpecialFile_some hr, hlen⟩
      · rw [sanitizeSpecialFile_some hr]
        refine ⟨r, sanitizeSpecialFile_eq_self ?_, hlen⟩
        exact Option.eq_none_iff_forall_ne_some.mpr fun r' hr' =>
          absurd (behindSpecial_cons hr') (by decide)
      · cases hcon : behindSpecial "CON".toList false (c :: rest) with
        | none =>
            rw [sanitizeSpecialFile_eq_self hcon]
            exact ⟨r, sanitizeSpecialFile_some hr, hlen⟩
        | some r' =>
            rw [sanitizeSpecialFile_some hcon]
            refine ⟨r', sanitizeSpecialFile_eq_self ?_, behindSpecial_length (by decide) hcon⟩
            exact Option.eq_none_iff_forall_ne_some.mpr fun r' hr' =>
              absurd (behindSpecial_cons hr') (by decide)
      · exact ⟨r, sanitizeSpecialFile_some hr, hlen⟩
      · exact ⟨r, sanitizeSpecialFile_some hr, hlen⟩
      · exact ⟨r, sanitizeSpecialFile_some hr, hlen⟩
      · exact ⟨r, sanitizeSpecialFile_some hr, hlen⟩

/-! ## §4. What the loop writes. -/

/-- Behind the start of a segment the loop leaves a character as it is, or it writes the
    replacement. -/
theorem sanitizeLoop_cons {fuel : Nat} {c : Char} {rest : List Char}
    (hfuel : (c :: rest).length ≤ fuel) :
    ∃ fuel' d out, sanitizeLoop fuel false false (c :: rest) = d :: out ∧ rest.length ≤ fuel'
      ∧ (d = replacement
        ∨ d = c ∧ (isSlash c = false → out = sanitizeLoop fuel' false false rest)) := by
  cases fuel with
  | zero => cases hfuel
  | succ fuel =>
      have hrest : rest.length ≤ fuel := Nat.le_of_succ_le_succ hfuel
      rw [sanitizeLoop]
      simp only [Bool.false_eq_true, if_false]
      split
      · exact ⟨fuel, _, _, rfl, hrest, .inl rfl⟩
      · split
        · rename_i hslash
          exact ⟨fuel, _, _, rfl, hrest, .inr ⟨rfl, fun hno => by rw [hslash] at hno; cases hno⟩⟩
        · exact ⟨fuel, _, _, rfl, hrest, .inr ⟨rfl, fun _ => rfl⟩⟩

theorem sanitizeLoop_nil (fuel : Nat) : sanitizeLoop fuel false false [] = [] := by
  cases fuel <;> rfl

/-- The rest of a pattern that is in the new name was in the old one. -/
theorem behindPattern_sanitized {pattern : List Char}
    (hp : ∀ q ∈ pattern, q ≠ replacement ∧ isSlash q = false) {fuel : Nat} {rest r : List Char}
    (hfuel : rest.length ≤ fuel)
    (h : behindPattern pattern (sanitizeLoop fuel false false rest) = some r) :
    ∃ r' fuel', behindPattern pattern rest = some r' ∧ r'.length ≤ fuel'
      ∧ r = sanitizeLoop fuel' false false r' := by
  induction pattern generalizing fuel rest with
  | nil => exact ⟨rest, fuel, rfl, hfuel, (Option.some.inj h).symm⟩
  | cons q pattern ih =>
      obtain ⟨hreplacement, hslash⟩ := hp q List.mem_cons_self
      cases rest with
      | nil =>
          rw [sanitizeLoop_nil] at h
          cases h
      | cons c rest =>
          obtain ⟨fuel', d, out, hout, hfuel', hd'⟩ := sanitizeLoop_cons hfuel
          rw [hout, behindPattern] at h
          split at h
          · rename_i hd
            obtain rfl | ⟨rfl, hrest⟩ := hd'
            · exact absurd (hd.symm.trans (by decide)) hreplacement
            · have hno : isSlash d = false := by
                by_contra hyes
                rw [Bool.not_eq_false] at hyes
                rw [← hd, asciiUpper_slash hyes, hyes] at hslash
                cases hslash
              rw [hrest hno] at h
              obtain ⟨r', fuel'', hr', hlen, hr⟩ :=
                ih (fun q hq => hp q (List.mem_cons_of_mem _ hq)) hfuel' h
              refine ⟨r', fuel'', ?_, hlen, hr⟩
              rw [behindPattern, if_pos hd]
              exact hr'
          · cases h

/-- A number in front of what the loop wrote was there before. -/
theorem behindNumber_sanitized {number : Bool} {fuel : Nat} {rest r : List Char}
    (hfuel : rest.length ≤ fuel)
    (h : behindNumber number (sanitizeLoop fuel false false rest) = some r) :
    ∃ r' fuel', behindNumber number rest = some r' ∧ r'.length ≤ fuel'
      ∧ r = sanitizeLoop fuel' false false r' := by
  cases number with
  | false =>
      rw [behindNumber_false] at h
      exact ⟨rest, fuel, behindNumber_false rest, hfuel, (Option.some.inj h).symm⟩
  | true =>
      cases rest with
      | nil =>
          rw [sanitizeLoop_nil] at h
          cases h
      | cons c rest =>
          obtain ⟨fuel', d, out, hout, hfuel', hd'⟩ := sanitizeLoop_cons hfuel
          rw [hout, behindNumber, if_pos rfl] at h
          split at h
          · cases h
          · rename_i hd
            obtain rfl | ⟨rfl, hrest⟩ := hd'
            · exact absurd (by decide) hd
            · have hno : isSlash d = false := by
                by_contra hyes
                rw [Bool.not_eq_false] at hyes
                unfold isSlash at hyes
                simp only [Bool.or_eq_true, decide_eq_true_eq] at hyes
                obtain rfl | rfl := hyes
                · exact hd (by decide)
                · exact hd (by decide)
              refine ⟨rest, fuel', ?_, hfuel', ?_⟩
              · rw [behindNumber, if_pos rfl, if_neg hd]
              · rw [← hrest hno]
                exact (Option.some.inj h).symm

/-- So was the end of a special name. -/
theorem endsSpecial_sanitized {fuel : Nat} {rest : List Char} (hfuel : rest.length ≤ fuel)
    (h : endsSpecial (sanitizeLoop fuel false false rest) = true) : endsSpecial rest = true := by
  cases rest with
  | nil => rfl
  | cons c rest =>
      obtain ⟨fuel', d, out, hout, -, hd⟩ := sanitizeLoop_cons hfuel
      rw [hout] at h
      obtain rfl | ⟨rfl, -⟩ := hd
      · exact absurd h (by simp [endsSpecial, replacement])
      · exact h

/-- Nothing becomes special when the characters behind it are replaced. -/
theorem Special.of_sanitized {fuel : Nat} {c : Char} {rest : List Char}
    (hfuel : rest.length ≤ fuel) (h : Special (c :: sanitizeLoop fuel false false rest)) :
    Special (c :: rest) := by
  obtain ⟨s, hs, hsome⟩ := h
  obtain ⟨p, pattern, hp, -, -, hplain⟩ := specials_letter hs
  obtain ⟨r, hr⟩ := Option.isSome_iff_exists.mp hsome
  refine ⟨s, hs, Option.isSome_iff_exists.mpr ?_⟩
  rw [hp] at hr ⊢
  have hc := behindSpecial_cons hr
  obtain ⟨r₁, hpattern, hnumber, hends⟩ := behindSpecial_some.mp hr
  unfold behindPattern at hpattern
  rw [if_pos hc] at hpattern
  obtain ⟨r₂, fuel₂, hpattern', hlen₂, rfl⟩ := behindPattern_sanitized hplain hfuel hpattern
  obtain ⟨r₃, fuel₃, hnumber', hlen₃, rfl⟩ := behindNumber_sanitized hlen₂ hnumber
  refine ⟨r₃, behindSpecial_some.mpr ⟨r₂, ?_, hnumber', endsSpecial_sanitized hlen₃ hends⟩⟩
  unfold behindPattern
  rw [if_pos hc]
  exact hpattern'

/-- What the loop has before it when it looks at a character. -/
theorem entered {check : Bool} {rest : List Char} (hne : rest ≠ []) :
    ∃ c t, (if check then sanitizeEntry rest else rest) = c :: t ∧ t.length < rest.length
      ∧ (check = true → ¬ Special (c :: t)) := by
  cases check with
  | false =>
      obtain ⟨c, t, rfl⟩ := List.exists_cons_of_ne_nil hne
      exact ⟨c, t, rfl, Nat.lt_succ_self _, fun h => by cases h⟩
  | true =>
      by_cases hspecial : Special rest
      · obtain ⟨r, hr, hlen⟩ := sanitizeEntry_special hspecial
        exact ⟨replacement, r, hr, hlen, fun _ => not_special_of r (.inl (by decide))⟩
      · obtain ⟨c, t, rfl⟩ := List.exists_cons_of_ne_nil hne
        exact ⟨c, t, sanitizeEntry_eq_self hspecial, Nat.lt_succ_self _, fun _ => hspecial⟩

/-- **What the loop writes is clean**, and not longer. -/
theorem sanitizeLoop_clean (fuel : Nat) (first check : Bool) {rest : List Char}
    (hfuel : rest.length ≤ fuel) :
    CleanFrom first check (sanitizeLoop fuel first check rest)
      ∧ (sanitizeLoop fuel first check rest).length ≤ rest.length := by
  induction fuel generalizing first check rest with
  | zero =>
      obtain rfl := List.length_eq_zero_iff.mp (Nat.le_zero.mp hfuel)
      exact ⟨trivial, le_rfl⟩
  | succ fuel ih =>
      by_cases hne : rest = []
      · subst hne
        cases check <;> exact ⟨trivial, le_rfl⟩
      · obtain ⟨c, t, heq, hlen, hspecial⟩ := @entered check rest hne
        have hfuel' : t.length ≤ fuel := by omega
        have hreplaced : ∀ out, CleanFrom false false out →
            CleanFrom first check (replacement :: out) := fun out hout =>
          ⟨fun _ => not_special_of out (.inl (by decide)), by decide,
            fun h => absurd h (by decide), hout⟩
        unfold sanitizeLoop
        rw [heq]
        dsimp only
        by_cases hforbidden : isForbidden c = true
        · rw [if_pos hforbidden]
          obtain ⟨hclean, hle⟩ := ih false false hfuel'
          exact ⟨hreplaced _ hclean, (Nat.succ_le_succ hle).trans hlen⟩
        · rw [if_neg hforbidden]
          rw [Bool.not_eq_true] at hforbidden
          by_cases hslash : isSlash c = true
          · rw [if_pos hslash]
            cases first with
            | true =>
                obtain ⟨hclean, hle⟩ := ih false false hfuel'
                exact ⟨hreplaced _ hclean, (Nat.succ_le_succ hle).trans hlen⟩
            | false =>
                obtain ⟨hclean, hle⟩ := ih false true hfuel'
                refine ⟨⟨fun _ => not_special_of _ (.inr ?_), hforbidden, fun _ => rfl, ?_⟩,
                  (Nat.succ_le_succ hle).trans hlen⟩
                · rw [asciiUpper_slash hslash]
                  exact hslash
                · rw [hslash]
                  exact hclean
          · rw [if_neg hslash]
            obtain ⟨hclean, hle⟩ := ih false false hfuel'
            refine ⟨⟨fun hcheck h => hspecial hcheck (h.of_sanitized hfuel'), hforbidden,
              fun h => absurd h hslash, ?_⟩, (Nat.succ_le_succ hle).trans hlen⟩
            rw [Bool.not_eq_true] at hslash
            rw [hslash]
            exact hclean

/-- The loop leaves a clean name as it is. -/
theorem sanitizeLoop_eq_self (fuel : Nat) {first check : Bool} {rest : List Char}
    (h : CleanFrom first check rest) : sanitizeLoop fuel first check rest = rest := by
  induction fuel generalizing first check rest with
  | zero => rfl
  | succ fuel ih =>
      cases rest with
      | nil => cases check <;> rfl
      | cons c t =>
          obtain ⟨hspecial, hforbidden, hfirst, hclean⟩ := h
          have hentry : (if check then sanitizeEntry (c :: t) else c :: t) = c :: t := by
            split
            · rename_i hcheck
              exact sanitizeEntry_eq_self (hspecial hcheck)
            · rfl
          unfold sanitizeLoop
          rw [hentry]
          dsimp only
          rw [hforbidden, if_neg Bool.false_ne_true]
          cases hslash : isSlash c with
          | true =>
              rw [hslash] at hclean
              rw [if_pos rfl, hfirst hslash, if_neg Bool.false_ne_true, ih hclean]
          | false =>
              rw [hslash] at hclean
              rw [if_neg Bool.false_ne_true, ih hclean]

/-- **What the function leaves is clean.** -/
theorem clean_sanitizeFilename (data : List Char) : Clean (sanitizeFilename data) := by
  have hlen : (data.take 255).length ≤ 255 := List.length_take_le 255 data
  obtain ⟨hclean, hle⟩ := sanitizeLoop_clean 255 true true hlen
  exact ⟨hle.trans hlen, hclean⟩

/-- **What comes out is clean, and the clean names are the ones that stay as they are.** -/
theorem sanitizeFilename_clean (data : List Char) :
    Clean (sanitizeFilename data) ∧ (sanitizeFilename data = data ↔ Clean data) := by
  refine ⟨clean_sanitizeFilename data, fun h => ?_, fun h => ?_⟩
  · rw [← h]
    exact clean_sanitizeFilename data
  · unfold sanitizeFilename
    rw [List.take_of_length_le h.1]
    exact sanitizeLoop_eq_self 255 h.2

/-! ## §5. Where a path leads. -/

/-- Where segments lead that start in a directory below the working directory, the
    innermost name in front: an empty one and a `.` nowhere, a `..` out of it.  What leaves
    the working directory leads to a place that is not known. -/
def walk : List (List Char) → List (List Char) → Option (List (List Char))
  | dir, [] => some dir
  | dir, seg :: segs =>
      if seg = [] ∨ seg = ['.'] then walk dir segs
      else if seg = ['.', '.'] then
        match dir with
        | [] => none
        | _ :: up => walk up segs
      else walk (seg :: dir) segs

/-- Without a `..` nobody gets out. -/
theorem walk_stays {segs : List (List Char)} (h : ['.', '.'] ∉ segs) (dir : List (List Char)) :
    ∃ below, walk dir segs = some (below ++ dir) := by
  induction segs generalizing dir with
  | nil => exact ⟨[], rfl⟩
  | cons seg segs ih =>
      rw [List.mem_cons, not_or] at h
      unfold walk
      rw [if_neg (Ne.symm h.1)]
      split
      · exact ih h.2 dir
      · obtain ⟨below, hbelow⟩ := ih h.2 (seg :: dir)
        exact ⟨below ++ [seg], by rw [hbelow, List.append_assoc]; rfl⟩

theorem special_dots : Special ['.', '.'] := by decide

theorem not_special_nil : ¬ Special [] := by decide

/-- A pattern is found in front of anything. -/
theorem behindPattern_append {pattern source r : List Char}
    (h : behindPattern pattern source = some r) (tail : List Char) :
    behindPattern pattern (source ++ tail) = some (r ++ tail) := by
  induction pattern generalizing source with
  | nil =>
      obtain rfl := Option.some.inj h
      rfl
  | cons p pattern ih =>
      cases source with
      | nil => cases h
      | cons c rest =>
          rw [List.cons_append]
          unfold behindPattern at h ⊢
          split at h
          · rename_i hc
            rw [if_pos hc]
            exact ih h
          · cases h

/-- A slash or nothing. -/
def EndsSegment (tail : List Char) : Prop := tail = [] ∨ ∃ c t, tail = c :: t ∧ isSlash c = true

/-- A number is skipped in front of anything. -/
theorem behindNumber_append {number : Bool} {source r : List Char}
    (h : behindNumber number source = some r) (tail : List Char) :
    behindNumber number (source ++ tail) = some (r ++ tail) := by
  cases number with
  | false =>
      rw [behindNumber_false] at h ⊢
      obtain rfl := Option.some.inj h
      rfl
  | true =>
      cases source with
      | nil => cases h
      | cons c rest =>
          rw [List.cons_append, behindNumber, if_pos rfl]
          rw [behindNumber, if_pos rfl] at h
          split at h
          · cases h
          · rename_i hc
            obtain rfl := Option.some.inj h
            rw [if_neg hc]

/-- A special segment is special with what comes behind it. -/
theorem Special.append {seg tail : List Char} (h : Special seg) (htail : EndsSegment tail) :
    Special (seg ++ tail) := by
  obtain ⟨s, hs, hsome⟩ := h
  obtain ⟨r, hr⟩ := Option.isSome_iff_exists.mp hsome
  obtain ⟨rest, hpattern, hnumber, hends⟩ := behindSpecial_some.mp hr
  refine ⟨s, hs, Option.isSome_iff_exists.mpr ⟨r ++ tail, behindSpecial_some.mpr
    ⟨rest ++ tail, behindPattern_append hpattern tail, behindNumber_append hnumber tail, ?_⟩⟩⟩
  cases r with
  | cons c r => exact hends
  | nil =>
      obtain rfl | ⟨c, t, rfl, hc⟩ := htail
      · rfl
      · unfold isSlash at hc
        rw [Bool.or_eq_true] at hc
        show (_ || _ || c = '/' || c = '\\' : Bool) = true
        obtain hc | hc := hc
        · rw [hc, Bool.or_true, Bool.true_or]
        · rw [hc, Bool.or_true]

/-- The first segment, and what is behind it. -/
theorem first_segment {sep : Char → Bool} (hsep : ∀ c, sep c = true → isSlash c = true)
    (name : List Char) :
    ∃ seg segs tail, name.splitOnP sep = seg :: segs ∧ name = seg ++ tail ∧ EndsSegment tail := by
  induction name with
  | nil => exact ⟨[], [], [], rfl, rfl, .inl rfl⟩
  | cons c rest ih =>
      obtain ⟨seg, segs, tail, hsplit, hname, htail⟩ := ih
      rw [List.splitOnP_cons_eq_if_modifyHead]
      by_cases hc : sep c = true
      · rw [if_pos hc]
        exact ⟨[], _, c :: rest, rfl, rfl, .inr ⟨c, rest, rfl, hsep c hc⟩⟩
      · rw [if_neg hc, hsplit]
        exact ⟨c :: seg, segs, tail, rfl, by rw [hname]; rfl, htail⟩

/-- **No segment of a clean name is special**, the first one apart when the loop is not at
    its start. -/
theorem CleanFrom.segments {sep : Char → Bool} (hsep : ∀ c, sep c = true → isSlash c = true)
    {first check : Bool} {name : List Char} (h : CleanFrom first check name) :
    (∀ seg ∈ (name.splitOnP sep).tail, ¬ Special seg)
      ∧ (check = true → ∀ seg ∈ name.splitOnP sep, ¬ Special seg) := by
  have hall : ∀ {first : Bool} {name : List Char}, CleanFrom first true name →
      (∀ seg ∈ (name.splitOnP sep).tail, ¬ Special seg) →
      ∀ seg ∈ name.splitOnP sep, ¬ Special seg := by
    intro first name hclean htails seg hseg
    obtain ⟨seg', segs, tail, hsplit, hname, htail⟩ := first_segment hsep name
    rw [hsplit] at hseg htails
    obtain rfl | hseg := List.mem_cons.mp hseg
    · intro hspecial
      have hnot : ¬ Special name := by
        cases name with
        | nil => exact not_special_nil
        | cons c rest => exact hclean.1 rfl
      exact hnot (hname ▸ hspecial.append htail)
    · exact htails seg hseg
  have htails : ∀ seg ∈ (name.splitOnP sep).tail, ¬ Special seg := by
    induction name generalizing first check with
    | nil => exact fun seg hseg => by cases hseg
    | cons c rest ih =>
        obtain ⟨-, -, -, hclean⟩ := h
        rw [List.splitOnP_cons_eq_if_modifyHead]
        by_cases hc : sep c = true
        · rw [if_pos hc, List.tail_cons]
          rw [hsep c hc] at hclean
          exact hall hclean (ih hclean)
        · rw [if_neg hc, List.tail_modifyHead]
          exact ih hclean
  exact ⟨htails, fun hcheck => by subst hcheck; exact hall h htails⟩

/-- A clean name has no forbidden character. -/
theorem CleanFrom.allowed {first check : Bool} {name : List Char} (h : CleanFrom first check name) :
    ∀ c ∈ name, isForbidden c = false := by
  induction name generalizing first check with
  | nil => exact fun c hc => by cases hc
  | cons d rest ih =>
      obtain ⟨-, hd, -, hclean⟩ := h
      intro c hc
      obtain rfl | hc := List.mem_cons.mp hc
      · exact hd
      · exact ih hclean c hc

/-- A file under the directory: its path starts in the working directory, leads into
    `static` and not out of it again, names no device and has no character that is not
    allowed.  The separators are those of the file system. -/
structure Under (sep : Char → Bool) (file : List Char) : Prop where
  relative : ∀ c ∈ file.head?, sep c = false
  inside : ∃ below, walk [] (file.splitOnP sep) = some (below ++ ["static".toList])
  segments : ∀ seg ∈ file.splitOnP sep, ¬ Special seg
  allowed : ∀ c ∈ file, isForbidden c = false

/-- **The file asked for lies under the directory**, for every path in a URL, on a file
    system that separates by slashes or by both slashes and backslashes. -/
theorem static_path_stays (path : List Char) {sep : Char → Bool}
    (hsep : ∀ c, sep c = true → isSlash c = true) (hslash : sep '/' = true) :
    Under sep (staticPath path) := by
  obtain ⟨-, hclean⟩ := clean_sanitizeFilename path
  have hname : ∀ c ∈ "static".toList, sep c = false := by
    intro c hc
    have hno : ∀ c ∈ "static".toList, isSlash c = false := by simp [isSlash]
    by_contra hyes
    have hslash := hsep c (Bool.not_eq_false _ ▸ hyes)
    rw [hno c hc] at hslash
    cases hslash
  have hsplit : (staticPath path).splitOnP sep
      = "static".toList :: (sanitizeFilename path).splitOnP sep :=
    List.splitOnP_append_cons_of_forall_mem hname '/' hslash _
  have hsegs := (CleanFrom.segments hsep hclean).2 rfl
  refine ⟨?_, ?_, ?_, ?_⟩
  · intro c hc
    obtain rfl : 's' = c := Option.some.inj hc
    exact hname 's' (by decide)
  · rw [hsplit]
    have hdots : ['.', '.'] ∉ (sanitizeFilename path).splitOnP sep :=
      fun hmem => hsegs _ hmem special_dots
    obtain ⟨below, hbelow⟩ := walk_stays hdots ["static".toList]
    exact ⟨below, hbelow⟩
  · rw [hsplit]
    intro seg hseg
    obtain rfl | hseg := List.mem_cons.mp hseg
    · decide
    · exact hsegs seg hseg
  · intro c hc
    obtain hc | hc := List.mem_append.mp hc
    · exact (by simp [isForbidden] : ∀ c ∈ "static/".toList, isForbidden c = false) c hc
    · exact hclean.allowed c hc

/-- Neither an absolute path nor one that goes up first lies under the directory. -/
example : ¬ Under (· = '/') "/static/a".toList ∧ ¬ Under (· = '/') "../static/a".toList := by
  refine ⟨fun h => absurd (h.relative '/' rfl) (by decide), fun h => ?_⟩
  obtain ⟨below, hbelow⟩ := h.inside
  have hsplit : "../static/a".toList.splitOnP (· = '/')
      = [['.', '.'], "static".toList, ['a']] := by decide
  rw [hsplit] at hbelow
  cases hbelow

end OrderApi.Crow
