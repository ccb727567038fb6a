/-
  OrderApi.Crow.Json
  ──────────────────
  **THE JSON VALUES OF CROW** (`crow::json` in `include/crow_all.h`).

  `RValue` is what `crow::json::load` hands to a handler; its accessors throw
  on a value of the wrong type, and `has` on a list with elements reads what
  nobody has written, so they live in `Except`.  `WValue` is what a handler
  assembles and dumps.  A `std::string` is a Lean `String` whose characters
  stand for the bytes.
-/
import Mathlib.Algebra.Group.Nat.Defs
import Mathlib.Data.List.Sort
import Mathlib.Tactic.Common

namespace OrderApi.Crow

/-! ## §1. Doubles. -/

/-- An IEEE-754 double by its bit pattern: the service only stores doubles,
    hands them on and compares them with `0`. -/
structure Double where
  bits : Nat
  lt : bits < 2 ^ 64
  deriving DecidableEq

/-- `d > 0`: sign bit clear, not `+0`, not a NaN (`+inf` is the largest such
    pattern). -/
def Double.gtZero (d : Double) : Bool := 0 < d.bits && d.bits ≤ 0x7FF0000000000000

/-- A NaN, of either sign. -/
def Double.isNaN (d : Double) : Bool := 0x7FF0000000000000 < d.bits % 2 ^ 63

/-- What is greater than zero is a number. -/
theorem Double.not_isNaN {d : Double} (h : d.gtZero = true) : d.isNaN = false := by
  unfold gtZero at h
  simp only [Bool.and_eq_true, decide_eq_true_eq] at h
  unfold isNaN
  simp only [decide_eq_false_iff_not]
  omega

/-! ## §2. Values that are read. -/

/-- `crow::json::type`, without the function type that `load` never builds. -/
inductive JsonType where
  | null | false | true | number | string | list | object
  deriving DecidableEq

/-- A parsed document.  A member of an object is its key and its value. -/
inductive RValue where
  | null
  | false
  | true
  | number (d : Double)
  | string (s : String)
  | list (l : List RValue)
  | object (members : List (String × RValue))

/-- What a handler may throw: `std::runtime_error` by its message, or
    `crow::bad_request`. -/
inductive Exn where
  | runtimeError (what : String)
  | badRequest (what : String)
  deriving DecidableEq

/-- How an accessor ends that does not return: it throws, or its behaviour is
    undefined. -/
inductive Fault where
  | thrown (e : Exn)
  | undefined
  deriving DecidableEq

/-- The `std::sort` by the keys in front of a look-up.  It is not stable: which of
    several members under one key it puts first is up to the library.  In which order it
    puts different keys no look-up can tell. -/
structure MemberSort where
  sort : List (String × RValue) → List (String × RValue)
  perm (members : List (String × RValue)) : (sort members).Perm members

/-- What libstdc++ does with up to 16 members. -/
def MemberSort.insertion : MemberSort where
  sort := List.insertionSort (fun m m' => m.1 ≤ m'.1)
  perm := List.perm_insertionSort _

/-- There is one way to sort a single member. -/
@[simp] theorem MemberSort.sort_singleton (s : MemberSort) (m : String × RValue) :
    s.sort [m] = [m] :=
  (s.perm [m]).eq_singleton

namespace RValue

/-- `rvalue::t`. -/
def t : RValue → JsonType
  | .null => .null
  | .false => .false
  | .true => .true
  | .number _ => .number
  | .string _ => .string
  | .list _ => .list
  | .object _ => .object

/-- `rvalue::d`. -/
def d : RValue → Except Fault Double
  | .number d => .ok d
  | _ => .error (.thrown (.runtimeError "value is not number"))

/-- `rvalue::s`, after unescaping. -/
def s : RValue → Except Fault String
  | .string s => .ok s
  | _ => .error (.thrown (.runtimeError "value is not string"))

/-- `rvalue::has`.  A scalar has no `begin()` and throws. -/
def has (sort : MemberSort) (k : String) : RValue → Except Fault Bool
  | .object members => .ok ((sort.sort members).any (fun m => m.1 = k))
  -- the elements of a list are sorted and searched by keys that only the members of
  -- an object are given: two pointers nobody has set
  | .list l => if l.isEmpty then .ok Bool.false else .error .undefined
  | _ => .error (.thrown (.runtimeError "value is not a container"))

/-- `rvalue::operator[](const std::string&)`: the first member under the key once
    they are sorted. -/
def get (sort : MemberSort) (k : String) : RValue → Except Fault RValue
  | .object members =>
      match (sort.sort members).find? (fun m => m.1 = k) with
      | some m => .ok m.2
      | none => .error (.thrown (.runtimeError ("cannot find key: " ++ k)))
  | _ => .error (.thrown (.runtimeError "value is not an object"))

end RValue

/-! ## §3. The two validity checks. -/

/-- `is_valid_amount` (`helpers.hpp`, and the same body in `main.cpp`). -/
def isValidAmount (v : RValue) : Bool :=
  match v with
  | .number d => d.gtZero
  | _ => false

/-- `is_valid_order_no` as `helpers.hpp` defines it. -/
def Helpers.isValidOrderNo (v : RValue) : Bool :=
  match v with
  | .string s => s ≠ "" && s.toList.take 3 = "ORD".toList
  | _ => false

/-- `is_valid_order_no` as `main.cpp` defines it. -/
def Main.isValidOrderNo (v : RValue) : Bool :=
  match v with
  | .string s => 0 < s.length
  | _ => false

/-! ## §4. Values that are written. -/

/-- `crow::json::wvalue`; a default-constructed one is `null`. -/
inductive WValue where
  | null
  | bool (b : Bool)
  | double (d : Double)
  | int (i : Int)
  | str (s : String)
  | list (l : List WValue)
  | object (members : List (String × WValue))

/-- The member of an object stored under a key. -/
def WValue.member (k : String) : WValue → Option WValue
  | .object members => (members.find? (fun m => m.1 = k)).map Prod.snd
  | _ => none

/-- `crow::json::escape`, one character. -/
def escapeChar (c : Char) : String :=
  if c = '"' then "\\\""
  else if c = '\\' then "\\\\"
  else if c = '\n' then "\\n"
  else if c = '\x08' then "\\b"
  else if c = '\x0c' then "\\f"
  else if c = '\r' then "\\r"
  else if c = '\t' then "\\t"
  else if c.toNat < 0x20 then
    "\\u00" ++ String.ofList [Nat.digitChar (c.toNat / 16), Nat.digitChar (c.toNat % 16)]
  else String.singleton c

/-- A quoted, escaped string. -/
def dumpString (s : String) : String :=
  "\"" ++ s.toList.foldl (fun out c => out ++ escapeChar c) "" ++ "\""

mutual
/-- `wvalue::dump`, with the `printf` of doubles as a parameter and the members
    of an object in the order they were written (the `unordered_map` of Crow
    promises no order). -/
def WValue.dump (fmt : Double → String) : WValue → String
  | .null => "null"
  | .bool b => if b then "true" else "false"
  | .double d => fmt d
  | .int i => toString i
  | .str s => dumpString s
  | .list l => "[" ++ ",".intercalate (WValue.dumpList fmt l) ++ "]"
  | .object members => "\x7b" ++ ",".intercalate (WValue.dumpMembers fmt members) ++ "\x7d"

/-- The elements of a list, dumped. -/
def WValue.dumpList (fmt : Double → String) : List WValue → List String
  | [] => []
  | v :: vs => v.dump fmt :: WValue.dumpList fmt vs

/-- The members of an object, dumped. -/
def WValue.dumpMembers (fmt : Double → String) : List (String × WValue) → List String
  | [] => []
  | (k, v) :: ms => (dumpString k ++ ":" ++ v.dump fmt) :: WValue.dumpMembers fmt ms
end

end OrderApi.Crow
