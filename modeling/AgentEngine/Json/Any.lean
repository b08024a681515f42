import AgentEngine.Json.Conversion
import AgentEngine.Lib.SortedMap

/-!
JSON values (`any.h`, `json.h`), their comparison `Equal` and the printer `ToString`
(`json.cpp`, `json_string_enhanced.cpp`).

An `Any` holds a value of some type. Those of JSON are nothing at all, which is `null`, truth
values, strings, arrays, maps and numbers: a number that was parsed is a `JsonNumber`, which
keeps its text, and a number that a program puts in has one of the fixed-width integer types.

* `numberEqual_toStringInt`: the text that is printed for an integer compares equal to it.
* `IsJson`: the values that are JSON.
-/

namespace AgentEngine.Json

open Lib

/-- A value of one of the integer types. -/
structure Integer where
  type : IntType
  value : Int
  min_le : type.min ≤ value
  le_max : value ≤ type.max
deriving DecidableEq

/-- The contents of an `Any`. A map is the list of its entries in the order of their keys, and
`other` stands for the types that JSON does not know. -/
inductive Any where
  | null
  | bool (b : Bool)
  | string (s : List UInt8)
  | integer (n : Integer)
  | number (text : List UInt8)
  | array (items : List Any)
  | map (entries : List (List UInt8 × Any))
  | other (typeName : List UInt8)

/-- `std::map<std::string, Any>`: strings compare by their bytes. -/
abbrev JsonMap := SortedMap (List UInt8) Any (List.map UInt8.toNat)

theorem JsonMap.sorted_nil : ([] : List (List UInt8 × Any)).Pairwise
    fun e e' => e.1.map UInt8.toNat < e'.1.map UInt8.toNat := .nil

inductive Exception where
  | parameterInvalid (message : List UInt8)
  | invalidOperation (message : List UInt8)
deriving DecidableEq

/-! ### Comparison -/

/-- `JsonNumber::operator==(const Any &)`; what a cast throws is caught. -/
def numberEqual (text : List UInt8) : Any → Bool
  | .number rhs => text == rhs
  | .integer rhs => stringTo rhs.type text == some rhs.value
  | _ => false

mutual

def equal : (lhs rhs : Any) → Except Exception Bool
  | .number lhs, rhs => .ok (numberEqual lhs rhs)
  | lhs, .number rhs => .ok (numberEqual rhs lhs)
  | .null, .null => .ok true
  | .bool lhs, .bool rhs => .ok (lhs == rhs)
  | .string lhs, .string rhs => .ok (lhs == rhs)
  | .array lhs, .array rhs => if lhs.length ≠ rhs.length then .ok false else equalItems lhs rhs
  | .map lhs, .map rhs => if lhs.length ≠ rhs.length then .ok false else equalEntries lhs rhs
  -- values of other types are compared only to find that the types differ
  | .integer lhs, .integer rhs =>
      if lhs.type ≠ rhs.type then .ok false
      else .error (.invalidOperation (ascii "Equal for Any only supports a json-Any."))
  | .other lhs, .other rhs =>
      if lhs ≠ rhs then .ok false
      else .error (.invalidOperation (ascii "Equal for Any only supports a json-Any."))
  | _, _ => .ok false

/-- `Equal` of arrays of one size. -/
def equalItems : (lhs rhs : List Any) → Except Exception Bool
  | a :: lhs, b :: rhs => do if ← equal a b then equalItems lhs rhs else .ok false
  | _, _ => .ok true

/-- `Equal` of maps of one size. -/
def equalEntries : (lhs rhs : List (List UInt8 × Any)) → Except Exception Bool
  | (k, a) :: lhs, (k', b) :: rhs =>
      if k ≠ k' then .ok false
      else do if ← equal a b then equalEntries lhs rhs else .ok false
  | _, _ => .ok true

end

theorem numberEqual_toStringInt (n : Integer) :
    numberEqual (toStringInt n.value) (.integer n) = true := by
  rw [numberEqual, stringTo_toString n.min_le n.le_max]
  exact beq_self_eq_true _

/-! ### Printing -/

/-- The prefix of what stands one level deeper. -/
def deeper (isCompact : Bool) (pre : List UInt8) : List UInt8 :=
  pre ++ if isCompact then [] else [32, 32]

def newline (isCompact : Bool) : List UInt8 := if isCompact then [] else [10]

def toStringBool (data : Bool) : List UInt8 := if data then ascii "true" else ascii "false"

def unsupported (typeName : List UInt8) : Exception :=
  .parameterInvalid (ascii "See unsupported data in Any:" ++ typeName)

mutual

/-- What `ToString(a, os, isCompact, prefix)` appends to `os`. -/
def toString (isCompact : Bool) : (pre : List UInt8) → Any → Except Exception (List UInt8)
  | pre, .null => .ok (pre ++ ascii "null")
  | pre, .array items => do
      let body ← toStringItems isCompact pre true items
      .ok (pre ++ [91] ++ body ++ newline isCompact ++ pre ++ [93])
  | pre, .map entries => do
      let body ← toStringEntries isCompact pre true entries
      .ok (pre ++ [123] ++ body ++ newline isCompact ++ pre ++ [125])
  | pre, .string s => .ok (pre ++ [34] ++ quoteString s ++ [34])
  | pre, .bool b => .ok (pre ++ toStringBool b)
  | pre, .integer n => .ok (pre ++ toStringInt n.value)
  | pre, .number text => .ok (pre ++ text)
  | _, .other typeName => .error (unsupported typeName)

def toStringItems (isCompact : Bool) (pre : List UInt8) :
    (first : Bool) → List Any → Except Exception (List UInt8)
  | _, [] => .ok []
  | first, a :: items => do
      let text ← toString isCompact (deeper isCompact pre) a
      let rest ← toStringItems isCompact pre false items
      .ok ((if first then [] else [44]) ++ newline isCompact ++ text ++ rest)

def toStringEntries (isCompact : Bool) (pre : List UInt8) :
    (first : Bool) → List (List UInt8 × Any) → Except Exception (List UInt8)
  | _, [] => .ok []
  | first, (key, a) :: entries => do
      let text ← toString isCompact (deeper isCompact pre) a
      let rest ← toStringEntries isCompact pre false entries
      .ok ((if first then [] else [44]) ++ newline isCompact ++ pre ++ [34] ++ quoteString key ++
        [34, 58] ++ newline isCompact ++ text ++ rest)

end

/-! ### The values of JSON -/

/-- An optional sign. -/
inductive SignText : List UInt8 → Prop where
  | none : SignText []
  | plus : SignText [43]
  | minus : SignText [45]

/-- The part of a number before its exponent. -/
inductive MantissaText : List UInt8 → Prop where
  | whole {digits : List UInt8} (ne : digits ≠ []) (all : ∀ c ∈ digits, isdigit c) :
      MantissaText digits
  | point {digits fraction : List UInt8} (ne : digits ≠ [] ∨ fraction ≠ [])
      (all : ∀ c ∈ digits, isdigit c) (all' : ∀ c ∈ fraction, isdigit c) :
      MantissaText (digits ++ 46 :: fraction)

/-- An optional exponent. -/
inductive ExponentText : List UInt8 → Prop where
  | none : ExponentText []
  | power {e : UInt8} {sign digits : List UInt8} (letter : e = 101 ∨ e = 69)
      (signed : SignText sign) (ne : digits ≠ []) (all : ∀ c ∈ digits, isdigit c) : ExponentText (e :: (sign ++ digits))

/-- The numbers that the parser says it accepts: `[+|-] x [e|E [+|-] digit+]`, where `x` is
`digit+ [. digit*]` or `digit* . digit+`. -/
inductive NumberText : List UInt8 → Prop where
  | mk {sign mantissa exponent : List UInt8} (signed : SignText sign)
      (value : MantissaText mantissa) (power : ExponentText exponent) :
      NumberText (sign ++ mantissa ++ exponent)

inductive IsJson : Any → Prop where
  | null : IsJson .null
  | bool (b : Bool) : IsJson (.bool b)
  | string (s : List UInt8) : IsJson (.string s)
  | integer (n : Integer) : IsJson (.integer n)
  | number {text : List UInt8} (h : NumberText text) : IsJson (.number text)
  | array {items : List Any} (h : ∀ a ∈ items, IsJson a) : IsJson (.array items)
  | map (m : JsonMap) (h : ∀ e ∈ m.entries, IsJson e.2) : IsJson (.map m.entries)

end AgentEngine.Json
