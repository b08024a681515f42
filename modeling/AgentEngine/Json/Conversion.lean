import AgentEngine.Lib.Parsing
import AgentEngine.Util.OptionParser

/-!
The conversions of strings and numbers that the JSON code builds on (`string_conversion.cpp`,
`string_utf8.cpp`, `string_tools.h`, `string_util.cc`).

A position in a text is the list of the bytes from there on.

* `unescape_escapeOf`: what stands behind a backslash is read back as the byte that was escaped.
* `stringTo_toString`: the decimal text of an integer is converted back to it.
-/

namespace AgentEngine.Json

open Lib Util

/-! ### Integers -/

/-- The fixed-width integer types. -/
inductive IntType where
  | uint8
  | int8
  | uint16
  | int16
  | uint32
  | int32
  | uint64
  | int64
deriving DecidableEq

namespace IntType

def min : IntType → Int
  | .uint8 | .uint16 | .uint32 | .uint64 => 0
  | .int8 => -2 ^ 7
  | .int16 => -2 ^ 15
  | .int32 => -2 ^ 31
  | .int64 => -2 ^ 63

def max : IntType → Int
  | .uint8 => 2 ^ 8 - 1
  | .int8 => 2 ^ 7 - 1
  | .uint16 => 2 ^ 16 - 1
  | .int16 => 2 ^ 15 - 1
  | .uint32 => 2 ^ 32 - 1
  | .int32 => 2 ^ 31 - 1
  | .uint64 => 2 ^ 64 - 1
  | .int64 => 2 ^ 63 - 1

end IntType

/-- `std::to_string`. -/
def toStringInt (n : Int) : List UInt8 :=
  if n < 0 then 45 :: decimal n.natAbs else decimal n.natAbs

namespace StringUtil

open Util.StringUtil

variable (str : List UInt8)

def strToInt16 : Option Int :=
  match strToInt32 str with
  | some v32 => if -2 ^ 15 ≤ v32.toInt ∧ v32.toInt ≤ 2 ^ 15 - 1 then some v32.toInt else none
  | none => none

/-- `StrToUInt32` with a 64 bit `long`. -/
def strToUInt32 : Option Nat :=
  if cstr str = [] ∨ (cstr str).head? = some 45 then none
  else
    let value64 := strtoull str
    if 2 ^ 32 - 1 < value64 then none
    else if strtoullRange str = false ∧ strtolEnd str = [] then some value64
    else none

def strToUInt16 : Option Nat :=
  match strToUInt32 str with
  | some v32 => if v32 ≤ 2 ^ 16 - 1 then some v32 else none
  | none => none

def strToUInt64 : Option Nat :=
  if cstr str = [] ∨ (cstr str).head? = some 45 then none
  else if strtoullRange str = false ∧ strtolEnd str = [] then some (strtoull str)
  else none

end StringUtil

def rightTrimString (string : List UInt8) (trimChar : UInt8 := 32) : List UInt8 :=
  (string.reverse.dropWhile (· == trimChar)).reverse

/-- `StringTo<T>`; there is no result where it throws. The types of one byte are converted by way
of those of two. -/
def stringTo (t : IntType) (str : List UInt8) : Option Int :=
  let s := rightTrimString str
  match t with
  | .uint8 =>
      match StringUtil.strToUInt16 s with
      | some data => if data > 255 then none else some data
      | none => none
  | .int8 =>
      match StringUtil.strToInt16 s with
      | some data => if data > 127 ∨ data < -128 then none else some data
      | none => none
  | .uint16 => (StringUtil.strToUInt16 s).map Int.ofNat
  | .int16 => StringUtil.strToInt16 s
  | .uint32 => (StringUtil.strToUInt32 s).map Int.ofNat
  | .int32 => (Util.StringUtil.strToInt32 s).map BitVec.toInt
  | .uint64 => (StringUtil.strToUInt64 s).map Int.ofNat
  | .int64 => Util.StringUtil.strToInt64 s

theorem numeral_toStringInt (n : Int) : Numeral (toStringInt n) n := by
  unfold toStringInt
  split_ifs with neg
  · have numeral := Numeral.minus (decimal_ne_nil n.natAbs) (isdigit_decimal n.natAbs)
    rw [numeral_decimal] at numeral
    rwa [show -(n.natAbs : Int) = n by omega] at numeral
  · have numeral := Numeral.plain (decimal_ne_nil n.natAbs) (isdigit_decimal n.natAbs)
    rw [numeral_decimal] at numeral
    rwa [show (n.natAbs : Int) = n by omega] at numeral

variable {text : List UInt8}

/-- Nothing is trimmed from a numeral. -/
theorem rightTrimString_numeral {n : Int} (h : Numeral text n) : rightTrimString text = text := by
  obtain ⟨init, last, rfl, isdigit⟩ : ∃ init last, text = init ++ [last] ∧ isdigit last := by
    cases h with
    | plain ne all =>
      exact ⟨_, _, (List.dropLast_append_getLast ne).symm, all _ (List.getLast_mem ne)⟩
    | @minus ds ne all =>
      refine ⟨45 :: ds.dropLast, ds.getLast ne, ?_, all _ (List.getLast_mem ne)⟩
      rw [List.cons_append, List.dropLast_append_getLast]
  have other : last ≠ 32 := by
    rintro rfl
    exact absurd isdigit (by decide)
  rw [rightTrimString, List.reverse_append, List.reverse_singleton, List.singleton_append,
    List.dropWhile_cons_of_neg (by simpa using other), List.reverse_cons, List.reverse_reverse]

theorem strToInt64_numeral {n : Int} (h : Numeral text n) (low : -2 ^ 63 ≤ n)
    (high : n < 2 ^ 63) : Util.StringUtil.strToInt64 text = some n := by
  obtain ⟨value, range⟩ := h.strtol_eq low high
  rw [Util.StringUtil.strToInt64, if_neg h.cstr_ne_nil, if_pos ⟨range, h.strtolEnd_eq_nil⟩, value]

theorem toInt_strToInt32_numeral {n : Int} (h : Numeral text n)
    (low : -2 ^ 31 ≤ n) (high : n < 2 ^ 31) :
    (Util.StringUtil.strToInt32 text).map BitVec.toInt = some n := by
  rw [Util.StringUtil.strToInt32_numeral h low high, Option.map_some, BitVec.toInt_ofInt,
    Int.bmod_eq_of_le (by omega) (by omega)]

theorem strToInt16_numeral {n : Int} (h : Numeral text n) (low : -2 ^ 15 ≤ n)
    (high : n < 2 ^ 15) : StringUtil.strToInt16 text = some n := by
  obtain ⟨v32, found, value⟩ := Option.map_eq_some_iff.mp
    (toInt_strToInt32_numeral h (by omega) (by omega))
  rw [StringUtil.strToInt16, found]
  simp only [value]
  rw [if_pos (by omega)]

section Unsigned

variable {n : Nat}

/-- A printed number is not empty and has no sign. -/
theorem decimal_unsigned (n : Nat) :
    ¬(cstr (decimal n) = [] ∨ (cstr (decimal n)).head? = some 45) := by
  have clean : cstr (decimal n) = decimal n := by
    apply cstr_eq_self
    intro zero
    exact absurd (isdigit_decimal n 0 zero) (by decide)
  rw [clean]
  rintro (empty | minus)
  · exact decimal_ne_nil n empty
  · exact absurd (isdigit_decimal n 45 (List.mem_of_mem_head? minus)) (by decide)

theorem strtoull_decimal (small : n < 2 ^ 64) :
    strtoull (decimal n) = n ∧ strtoullRange (decimal n) = false ∧ strtolEnd (decimal n) = [] := by
  have read := strtoull_digits (decimal_ne_nil n) (isdigit_decimal n)
    (by rw [numeral_decimal]; exact small)
  rw [numeral_decimal] at read
  exact ⟨read.1, read.2, (Numeral.plain (decimal_ne_nil n) (isdigit_decimal n)).strtolEnd_eq_nil⟩

theorem strToUInt64_decimal (small : n < 2 ^ 64) : StringUtil.strToUInt64 (decimal n) = some n := by
  obtain ⟨value, range, stop⟩ := strtoull_decimal small
  rw [StringUtil.strToUInt64, if_neg (decimal_unsigned n), if_pos ⟨range, stop⟩, value]

theorem strToUInt32_decimal (small : n < 2 ^ 32) : StringUtil.strToUInt32 (decimal n) = some n := by
  obtain ⟨value, range, stop⟩ := strtoull_decimal (n := n) (by omega)
  rw [StringUtil.strToUInt32, if_neg (decimal_unsigned n)]
  simp only [value, range, stop, and_self, if_true]
  rw [if_neg (by omega)]

theorem strToUInt16_decimal (small : n < 2 ^ 16) : StringUtil.strToUInt16 (decimal n) = some n := by
  rw [StringUtil.strToUInt16, strToUInt32_decimal (by omega)]
  simp only
  rw [if_pos (by omega)]

end Unsigned

/-- A value that a type holds comes back from its decimal text. -/
theorem stringTo_toString {t : IntType} {n : Int} (low : t.min ≤ n) (high : n ≤ t.max) :
    stringTo t (toStringInt n) = some n := by
  have numeral := numeral_toStringInt n
  have unsigned (nonneg : 0 ≤ n) : toStringInt n = decimal n.toNat ∧ (n.toNat : Int) = n := by
    refine ⟨?_, by omega⟩
    rw [toStringInt, if_neg (by omega), show n.natAbs = n.toNat by omega]
  unfold stringTo
  rw [rightTrimString_numeral numeral]
  cases t <;> simp only [IntType.min, IntType.max] at low high ⊢
  case uint8 =>
    obtain ⟨text, value⟩ := unsigned low
    rw [text, strToUInt16_decimal (by omega)]
    simp only
    rw [if_neg (by omega), value]
  case int8 =>
    rw [strToInt16_numeral numeral (by omega) (by omega)]
    simp only
    rw [if_neg (by omega)]
  case uint16 =>
    obtain ⟨text, value⟩ := unsigned low
    rw [text, strToUInt16_decimal (by omega)]
    exact congrArg some value
  case int16 => exact strToInt16_numeral numeral (by omega) (by omega)
  case uint32 =>
    obtain ⟨text, value⟩ := unsigned low
    rw [text, strToUInt32_decimal (by omega)]
    exact congrArg some value
  case int32 => exact toInt_strToInt32_numeral numeral (by omega) (by omega)
  case uint64 =>
    obtain ⟨text, value⟩ := unsigned low
    rw [text, strToUInt64_decimal (by omega)]
    exact congrArg some value
  case int64 => exact strToInt64_numeral numeral low (by omega)

/-! ### Quoted strings -/

/-- What stands behind the backslash for a byte that is escaped. -/
def escapeOf : UInt8 → Option UInt8
  | 34 => some 34
  | 92 => some 92
  | 47 => some 47
  | 8 => some 98
  | 12 => some 102
  | 10 => some 110
  | 13 => some 114
  | 9 => some 116
  | _ => none

def quoteString (textToEscape : List UInt8) : List UInt8 :=
  textToEscape.flatMap fun byte =>
    match escapeOf byte with
    | some escape => [92, escape]
    | none => [byte]

/-- The byte that one behind a backslash stands for; `u` is treated separately. -/
def unescape : UInt8 → Option UInt8
  | 34 => some 34
  | 92 => some 92
  | 47 => some 47
  | 98 => some 8
  | 102 => some 12
  | 110 => some 10
  | 114 => some 13
  | 116 => some 9
  | _ => none

/-- The value of a hexadecimal digit. -/
def hexValue (b : UInt8) : Option UInt16 :=
  if 48 ≤ b ∧ b ≤ 57 then some (0xF &&& (b - 48).toUInt16)
  else if 97 ≤ b ∧ b ≤ 102 then some (0xF &&& (b - 97 + 10).toUInt16)
  else if 65 ≤ b ∧ b ≤ 70 then some (0xF &&& (b - 65 + 10).toUInt16)
  else none

def unicodeToUtf8 (unicode : UInt16) : List UInt8 :=
  if unicode ≤ 0x7F then [unicode.toUInt8]
  else if unicode ≤ 0x7FF then
    [((unicode &&& 0x7C0) >>> 6).toUInt8 ||| 0xC0, (unicode &&& 0x3F).toUInt8 ||| 0x80]
  else
    [((unicode &&& 0xF000) >>> 12).toUInt8 ||| 0xE0, ((unicode &&& 0x0FC0) >>> 6).toUInt8 ||| 0x80,
      (unicode &&& 0x003F).toUInt8 ||| 0x80]

/-- The exception `BadQuoteString`. -/
structure BadQuoteString where
  message : List UInt8
deriving DecidableEq

/-- The digits behind `\u`, as the parser of strings reads them. -/
def unicodeDigits (data : UInt16) : List UInt8 → Except BadQuoteString UInt16
  | [] => .ok data
  | b :: digits =>
      match hexValue b with
      | some value => unicodeDigits (data <<< 4 ||| value) digits
      | none => .error ⟨ascii "See unknown char after \\u:" ++ [b]⟩

/-- The loop of `UnquoteString` over a string. -/
def unquoteFrom : (escaped : Bool) → (ret escapedText : List UInt8) →
    Except BadQuoteString (List UInt8 × List UInt8)
  | escaped, ret, [] =>
      if escaped then .error ⟨ascii "Missing char after \\"⟩ else .ok (ret, [])
  | true, ret, byte :: rest =>
      if byte = 117 then
        match rest with
        | a :: b :: c :: d :: rest =>
            match unicodeDigits 0 [a, b, c, d] with
            | .ok data => unquoteFrom false (ret ++ unicodeToUtf8 data) rest
            | .error e => .error e
        | _ => .error ⟨ascii "\\u needs 4 digits followed"⟩
      else
        match unescape byte with
        | some byte => unquoteFrom false (ret ++ [byte]) rest
        | none => .error ⟨ascii "unknown char after \\"⟩
  | false, ret, byte :: rest =>
      if byte = 92 then unquoteFrom true ret rest
      else if byte = 34 then .ok (ret, byte :: rest)
      else unquoteFrom false (ret ++ [byte]) rest

/-- `UnquoteString(escapedText, pos, ret)`: it stops at a quotation mark that is not escaped. -/
def unquoteString : Parser (List UInt8) BadQuoteString (List UInt8) := fun escapedText =>
  (unquoteFrom false [] escapedText).mapError .thrown

theorem unescape_escapeOf {byte escape : UInt8} (h : escapeOf byte = some escape) :
    escape ≠ 117 ∧ unescape escape = some byte := by
  unfold escapeOf at h
  split at h
  all_goals cases h
  all_goals exact ⟨by decide, rfl⟩

theorem ne_of_escapeOf_eq_none {byte : UInt8} (h : escapeOf byte = none) : byte ≠ 92 ∧ byte ≠ 34 := by
  constructor
  all_goals
    rintro rfl
    cases h

theorem unquoteFrom_unicode (ret : List UInt8) (a b c d : UInt8) (rest : List UInt8) :
    unquoteFrom true ret (117 :: a :: b :: c :: d :: rest) =
      match unicodeDigits 0 [a, b, c, d] with
      | .ok data => unquoteFrom false (ret ++ unicodeToUtf8 data) rest
      | .error e => .error e := by
  rw [unquoteFrom.eq_def]
  rfl

theorem unquoteFrom_escaped {byte : UInt8} (ne : byte ≠ 117) (ret rest : List UInt8) :
    unquoteFrom true ret (byte :: rest) =
      match unescape byte with
      | some byte => unquoteFrom false (ret ++ [byte]) rest
      | none => .error ⟨ascii "unknown char after \\"⟩ := by
  rw [unquoteFrom.eq_def]
  exact if_neg ne

end AgentEngine.Json
