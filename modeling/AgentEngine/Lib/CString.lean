import Mathlib.Data.List.TakeWhile
import Mathlib.Data.Nat.Digits.Lemmas

/-!
C strings and the conversions of the C library that read and print numbers.

A pointer into a buffer is the list of the bytes from there on; behind its end there is a NUL.
Conversions go through 64 bits, saturate there and are then cut down to an `int`.

* `atoi_digits`: `atoi` on a string of decimal digits.
* `scanHex_digits`: `%x` on hexadecimal digits that end at the end of the string or before some
  other character.
* `atoi_decimal`: what `atoi` makes of the decimal digits of a number.
* `numeral_lt_numeral`: numerals of one length compare as their numbers do.
-/

namespace AgentEngine.Lib

open List Nat

/-- The bytes of an ASCII string. -/
def ascii (s : String) : List UInt8 := s.toList.map fun c => UInt8.ofNat c.toNat

/-- A list is cut at the first `a` in it. -/
theorem cut_append {α : Type} [DecidableEq α] {a : α} {part : List α} (free : a ∉ part)
    (rest : List α) : (part ++ a :: rest).takeWhile (· ≠ a) = part ∧
      (part ++ a :: rest).dropWhile (· ≠ a) = a :: rest := by
  have all : ∀ x ∈ part, decide (x ≠ a) = true := fun x mem =>
    decide_eq_true fun e => free (e ▸ mem)
  rw [takeWhile_append_of_pos all, dropWhile_append_of_pos all]
  simp

variable (s : List UInt8) (c : UInt8)

/-- The string at a pointer: it ends before the first NUL. -/
def cstr : List UInt8 := s.takeWhile (· ≠ 0)

theorem cstr_eq_self {s : List UInt8} (h : 0 ∉ s) : cstr s = s := by
  rw [cstr, takeWhile_eq_self_iff]
  intro c hc
  exact decide_eq_true fun e => h (e ▸ hc)

def isdigit : Bool := 48 ≤ c && c ≤ 57

def isspace : Bool := c == 32 || (9 ≤ c && c ≤ 13)

def tolower : UInt8 := if 65 ≤ c && c ≤ 90 then c + 32 else c

def isxdigit : Bool := isdigit c || (97 ≤ tolower c && tolower c ≤ 102)

/-- The value of a hexadecimal digit. -/
def digit : Nat := if isdigit c then c.toNat - 48 else (tolower c).toNat - 87

/-- The number that digits denote, the most significant first. -/
def numeral (base : Nat) (digits : List UInt8) : Nat :=
  digits.foldl (fun n c => n * base + digit c) 0

/-! ### Reading numbers -/

/-- An optional sign: whether it is a minus, and what follows. -/
def sign : List UInt8 → Bool × List UInt8
  | c :: s => if c = 45 then (true, s) else if c = 43 then (false, s) else (false, c :: s)
  | [] => (false, [])

/-- `strtol(s, NULL, 10)`. -/
def strtol : Int :=
  let (minus, s) := sign ((cstr s).dropWhile isspace)
  let n := numeral 10 (s.takeWhile isdigit)
  if minus then max (-n) (-2 ^ 63) else min n (2 ^ 63 - 1)

/-- Where `strtol(s, &end, 10)` leaves `end`: behind the number, or at the start if there is
none. -/
def strtolEnd : List UInt8 :=
  let digits := (sign ((cstr s).dropWhile isspace)).2
  if digits.takeWhile isdigit = [] then cstr s else digits.dropWhile isdigit

/-- Whether `strtol` sets `errno` to `ERANGE`. -/
def strtolRange : Bool :=
  let (minus, s) := sign ((cstr s).dropWhile isspace)
  let n := numeral 10 (s.takeWhile isdigit)
  if minus then 2 ^ 63 < n else 2 ^ 63 ≤ n

/-- `strtoull(s, NULL, 10)`. -/
def strtoull : Nat :=
  let (minus, s) := sign ((cstr s).dropWhile isspace)
  let n := numeral 10 (s.takeWhile isdigit)
  if 2 ^ 64 ≤ n then 2 ^ 64 - 1 else if minus then (2 ^ 64 - n) % 2 ^ 64 else n

/-- Whether `strtoull` sets `errno` to `ERANGE`. -/
def strtoullRange : Bool :=
  2 ^ 64 ≤ numeral 10 ((sign ((cstr s).dropWhile isspace)).2.takeWhile isdigit)

def atoi : BitVec 32 := BitVec.ofInt 32 (strtol s)

/-- The digits that `%x` reads, behind an optional `0x`, and what follows. -/
def hexDigits : List UInt8 → List UInt8 × List UInt8
  | 48 :: x :: s =>
      if tolower x = 120 then (48 :: s.takeWhile isxdigit, s.dropWhile isxdigit)
      else ((48 :: x :: s).takeWhile isxdigit, (48 :: x :: s).dropWhile isxdigit)
  | s => (s.takeWhile isxdigit, s.dropWhile isxdigit)

/-- `strtoul` of a sign and hexadecimal digits. -/
def strtoul (minus : Bool) (digits : List UInt8) : Nat :=
  let n := numeral 16 digits
  if 2 ^ 64 ≤ n then 2 ^ 64 - 1 else if minus then (2 ^ 64 - n) % 2 ^ 64 else n

/-- The conversion `%x` of `sscanf`: the number and what follows, or nothing if there is no
number. -/
def scanHex : Option (BitVec 32 × List UInt8) :=
  let (minus, s) := sign ((cstr s).dropWhile isspace)
  let (digits, rest) := hexDigits s
  if digits = [] then none else some (BitVec.ofNat 32 (strtoul minus digits), rest)

variable (n : Nat)

/-- The `int` that is left of a number. -/
theorem toInt_ofNat_wrapped : (BitVec.ofNat 32 n).toInt =
    if n % 2 ^ 32 < 2 ^ 31 then ((n % 2 ^ 32 : Nat) : Int)
    else ((n % 2 ^ 32 : Nat) : Int) - 2 ^ 32 := by
  rw [BitVec.toInt_eq_toNat_cond, BitVec.toNat_ofNat]
  split_ifs <;> omega

section Digits

/-- A property of bytes can be checked for all of them. -/
theorem forall_byte {P : UInt8 → Prop} (h : ∀ n : Fin 256, P (UInt8.ofNat n.val)) (c : UInt8) :
    P c := by
  have here := h ⟨c.toNat, c.toNat_lt⟩
  rwa [UInt8.ofNat_toNat] at here

theorem not_isspace_of_isxdigit (c : UInt8) : isxdigit c → isspace c = false := by
  revert c
  apply forall_byte
  decide +kernel

theorem not_sign_of_isxdigit (c : UInt8) :
    isxdigit c → c ≠ 45 ∧ c ≠ 43 ∧ c ≠ 0 ∧ tolower c ≠ 120 := by
  revert c
  apply forall_byte
  decide +kernel

theorem isxdigit_of_isdigit {c : UInt8} (h : isdigit c) : isxdigit c := by
  rw [isxdigit, h, Bool.true_or]

variable {digits : List UInt8}

/-- Neither blanks nor a sign stand before a digit. -/
theorem sign_digits (ne : digits ≠ []) (all : ∀ c ∈ digits, isxdigit c) (rest : List UInt8) :
    sign ((cstr (digits ++ rest)).dropWhile isspace) = (false, digits ++ cstr rest) := by
  have clean : cstr (digits ++ rest) = digits ++ cstr rest := by
    apply takeWhile_append_of_pos
    intro c hc
    exact decide_eq_true (not_sign_of_isxdigit c (all c hc)).2.2.1
  rw [clean]
  cases digits with
  | nil => exact absurd rfl ne
  | cons c cs =>
    have first := all c mem_cons_self
    have nosign := not_sign_of_isxdigit c first
    rw [cons_append, dropWhile_cons_of_neg (by rw [not_isspace_of_isxdigit c first]; decide),
      sign, if_neg nosign.1, if_neg nosign.2.1]

theorem sign_decimal (ne : digits ≠ []) (all : ∀ c ∈ digits, isdigit c) :
    sign ((cstr digits).dropWhile isspace) = (false, digits) := by
  simpa [cstr] using sign_digits ne (fun c hc => isxdigit_of_isdigit (all c hc)) []

theorem strtol_digits (ne : digits ≠ []) (all : ∀ c ∈ digits, isdigit c) :
    strtol digits = min (numeral 10 digits : Int) (2 ^ 63 - 1) := by
  rw [strtol, sign_decimal ne all]
  simp only [takeWhile_eq_self_iff.mpr all, Bool.false_eq_true, if_false]

theorem atoi_digits (ne : digits ≠ []) (all : ∀ c ∈ digits, isdigit c) :
    atoi digits = BitVec.ofNat 32 (min (numeral 10 digits) (2 ^ 63 - 1)) := by
  rw [atoi, strtol_digits ne all, ← BitVec.ofInt_natCast]
  congr 1
  omega

/-- A decimal numeral, with a minus sign or without, and the number it denotes. -/
inductive Numeral : List UInt8 → Int → Prop where
  | plain {ds : List UInt8} (ne : ds ≠ []) (all : ∀ c ∈ ds, isdigit c) :
      Numeral ds (numeral 10 ds)
  | minus {ds : List UInt8} (ne : ds ≠ []) (all : ∀ c ∈ ds, isdigit c) :
      Numeral (45 :: ds) (-(numeral 10 ds : Int))

/-- What the conversions read in a numeral: its sign and its digits, and nothing else. -/
theorem Numeral.read {text : List UInt8} {n : Int} (h : Numeral text n) :
    ∃ neg digits, sign ((cstr text).dropWhile isspace) = (neg, digits) ∧ digits ≠ [] ∧
      (∀ c ∈ digits, isdigit c) ∧
      n = if neg then -(numeral 10 digits : Int) else numeral 10 digits := by
  cases h with
  | plain ne all => exact ⟨false, text, sign_decimal ne all, ne, all, rfl⟩
  | @minus digits ne all =>
    have clean : cstr (45 :: digits) = 45 :: digits := by
      apply cstr_eq_self
      intro zero
      rcases mem_cons.mp zero with first | later
      · exact absurd first (by decide)
      · exact absurd (all 0 later) (by decide)
    exact ⟨true, digits, by rw [clean]; rfl, ne, all, rfl⟩

section

variable {text : List UInt8} {n : Int}

theorem Numeral.isdigit_tail (h : Numeral text n) : ∀ c ∈ text.tail, isdigit c := by
  cases h with
  | plain _ all => exact fun c mem => all c (mem_of_mem_tail mem)
  | minus _ all => exact all

theorem Numeral.strtolEnd_eq_nil (h : Numeral text n) : strtolEnd text = [] := by
  obtain ⟨neg, digits, read, ne, all, -⟩ := h.read
  simp only [strtolEnd, read, takeWhile_eq_self_iff.mpr all, if_neg ne]
  exact dropWhile_eq_nil_iff.mpr all

/-- A numeral that 64 bits can hold is converted to its number. -/
theorem Numeral.strtol_eq (h : Numeral text n) (low : -2 ^ 63 ≤ n) (high : n < 2 ^ 63) :
    strtol text = n ∧ strtolRange text = false := by
  obtain ⟨neg, digits, read, -, all, rfl⟩ := h.read
  simp only [strtol, strtolRange, read, takeWhile_eq_self_iff.mpr all]
  cases neg with
  | true =>
    simp only [if_true] at low high ⊢
    exact ⟨max_eq_left low, decide_eq_false (by omega)⟩
  | false =>
    simp only [Bool.false_eq_true, if_false] at low high ⊢
    exact ⟨min_eq_left (by omega), decide_eq_false (by omega)⟩

theorem Numeral.cstr_ne_nil (h : Numeral text n) : cstr text ≠ [] := by
  intro empty
  obtain ⟨neg, digits, read, ne, -⟩ := h.read
  rw [empty] at read
  exact ne (Prod.ext_iff.mp read).2.symm

/-- Digits whose number 64 bits can hold are converted to it. -/
theorem strtoull_digits (ne : digits ≠ []) (all : ∀ c ∈ digits, isdigit c)
    (small : numeral 10 digits < 2 ^ 64) :
    strtoull digits = numeral 10 digits ∧ strtoullRange digits = false := by
  simp only [strtoull, strtoullRange, sign_decimal ne all, takeWhile_eq_self_iff.mpr all,
    if_neg (not_le.mpr small), Bool.false_eq_true, if_false, true_and]
  exact decide_eq_false (not_le.mpr small)

end

/-- What may follow a hexadecimal number without being taken for a part of it. -/
def Ends (rest : List UInt8) : Prop := ∀ c ∈ rest.head?, isxdigit c = false ∧ tolower c ≠ 120

theorem hexDigits_append (ne : digits ≠ []) (all : ∀ c ∈ digits, isxdigit c) {rest : List UInt8}
    (ends : Ends rest) : hexDigits (digits ++ rest) = (digits, rest) := by
  have split : ((digits ++ rest).takeWhile isxdigit, (digits ++ rest).dropWhile isxdigit) =
      (digits, rest) := by
    have nothing : rest.takeWhile isxdigit = [] ∧ rest.dropWhile isxdigit = rest := by
      cases rest with
      | nil => exact ⟨rfl, rfl⟩
      | cons c cs =>
        have other := (ends c rfl).1
        exact ⟨takeWhile_cons_of_neg (by rw [other]; decide),
          dropWhile_cons_of_neg (by rw [other]; decide)⟩
    rw [takeWhile_append_of_pos all, dropWhile_append_of_pos all, nothing.1, nothing.2, append_nil]
  unfold hexDigits
  split
  · rename_i x s e
    rw [if_neg ?_, ← e, split]
    -- the second character is a digit or the first one of the rest
    intro isX
    match digits, ne, e with
    | [c], _, e =>
      obtain ⟨-, e⟩ := cons.inj e
      have first : rest.head? = some x := congrArg head? e
      exact (ends x first).2 isX
    | c :: c' :: cs, _, e =>
      obtain ⟨-, e⟩ := cons.inj e
      obtain ⟨rfl, -⟩ := cons.inj e
      exact (not_sign_of_isxdigit c' (all c' (by simp))).2.2.2 isX
  · exact split

theorem scanHex_digits (ne : digits ≠ []) (all : ∀ c ∈ digits, isxdigit c) {rest : List UInt8}
    (ends : Ends (cstr rest)) :
    scanHex (digits ++ rest) =
      some (BitVec.ofNat 32 (min (numeral 16 digits) (2 ^ 64 - 1)), cstr rest) := by
  rw [scanHex, sign_digits ne all]
  simp only [hexDigits_append ne all ends, if_neg ne, strtoul, Bool.false_eq_true, if_false]
  split_ifs with large
  · rw [min_eq_right (by omega)]
  · rw [min_eq_left (by omega)]

end Digits

/-! ### Printing numbers -/

/-- `%lu`, or `%d` for a number that is not negative. -/
def decimal (n : Nat) : List UInt8 :=
  if n = 0 then [48] else (digits 10 n).reverse.map fun d => UInt8.ofNat (48 + d)

theorem decimal_ne_nil : decimal n ≠ [] := by
  unfold decimal
  split_ifs with zero
  · exact cons_ne_nil _ _
  · simpa using digits_ne_nil_iff_ne_zero.mpr zero

theorem isdigit_ofNat {d : Nat} (h : d < 10) :
    isdigit (UInt8.ofNat (48 + d)) ∧ digit (UInt8.ofNat (48 + d)) = d := by
  interval_cases d <;> decide

theorem isdigit_decimal : ∀ c ∈ decimal n, isdigit c := by
  unfold decimal
  split_ifs with zero
  · decide +kernel
  · intro c hc
    obtain ⟨d, hd, rfl⟩ := mem_map.mp hc
    exact (isdigit_ofNat (digits_lt_base (by decide) (mem_reverse.mp hd))).1

theorem numeral_decimal : numeral 10 (decimal n) = n := by
  unfold decimal
  split_ifs with zero
  · rw [zero]
    rfl
  · rw [numeral, foldl_map, foldl_reverse]
    have values : ∀ ds : List Nat, (∀ d ∈ ds, d < 10) →
        ds.foldr (fun d n => n * 10 + digit (UInt8.ofNat (48 + d))) 0 = ofDigits 10 ds := by
      intro ds small
      induction ds with
      | nil => rfl
      | cons d ds ih =>
        rw [foldr_cons, ih fun d' hd => small d' (mem_cons_of_mem d hd),
          (isdigit_ofNat (small d mem_cons_self)).2, ofDigits_cons]
        omega
    rw [values _ fun d hd => digits_lt_base (by decide) hd, ofDigits_digits]

/-- `%0*d` for a number that is not negative. -/
def padded (width n : Nat) : List UInt8 :=
  List.replicate (width - (decimal n).length) 48 ++ decimal n

theorem length_padded {width n : Nat} (pos : 0 < width) (small : n < 10 ^ width) :
    (padded width n).length = width := by
  have short : (decimal n).length ≤ width := by
    unfold decimal
    split_ifs with zero
    · exact pos
    · rw [length_map, length_reverse]
      exact (digits_length_le_iff (by decide) n).mpr small
  rw [padded, length_append, length_replicate]
  omega

theorem isdigit_padded (width n : Nat) : ∀ c ∈ padded width n, isdigit c := by
  intro c mem
  rcases mem_append.mp mem with zero | digit
  · rw [eq_of_mem_replicate zero]
    rfl
  · exact isdigit_decimal n c digit

theorem numeral_padded (width n : Nat) : numeral 10 (padded width n) = n := by
  rw [padded, numeral, foldl_append]
  have zeros : ∀ k, (replicate k (48 : UInt8)).foldl (fun n c => n * 10 + digit c) 0 = 0 := by
    intro k
    induction k with
    | zero => rfl
    | succ k ih => exact ih
  rw [zeros]
  exact numeral_decimal n

/-! ### Numerals of one length -/

theorem numeral_cons (base : Nat) (c : UInt8) (s : List UInt8) :
    numeral base (c :: s) = digit c * base ^ s.length + numeral base s := by
  have shift : ∀ (s : List UInt8) (n : Nat), s.foldl (fun n c => n * base + digit c) n =
      n * base ^ s.length + numeral base s := by
    intro s
    induction s with
    | nil => simp [numeral]
    | cons c s ih =>
      intro n
      rw [numeral, foldl_cons, foldl_cons, ih, ih (0 * base + digit c), length_cons, pow_succ]
      ring
  rw [numeral, foldl_cons, shift, zero_mul, zero_add]

theorem digit_lt {c : UInt8} (h : isdigit c) : digit c < 10 := by
  revert c
  apply forall_byte
  decide +kernel

theorem digit_lt_digit {c d : UInt8} (h : isdigit c) (h' : isdigit d) (lt : c.toNat < d.toNat) :
    digit c < digit d := by
  have low : 48 ≤ c.toNat := by
    rw [isdigit, Bool.and_eq_true, decide_eq_true_eq, UInt8.le_iff_toNat_le] at h
    exact h.1
  rw [digit, digit, if_pos h, if_pos h']
  omega

theorem numeral_lt_pow {s : List UInt8} (all : ∀ c ∈ s, isdigit c) : numeral 10 s < 10 ^ s.length := by
  induction s with
  | nil => exact one_pos
  | cons c s ih =>
    have first := digit_lt (all c mem_cons_self)
    have rest := ih fun d mem => all d (mem_cons_of_mem c mem)
    rw [numeral_cons, length_cons, pow_succ]
    calc digit c * 10 ^ s.length + numeral 10 s < (digit c + 1) * 10 ^ s.length := by
          rw [add_mul, one_mul]
          exact Nat.add_lt_add_left rest _
      _ ≤ 10 ^ s.length * 10 := by
          rw [mul_comm]
          exact Nat.mul_le_mul_left _ first

/-- Numerals of one length compare as the numbers do. -/
theorem numeral_lt_numeral {s t : List UInt8} (len : s.length = t.length)
    (all : ∀ c ∈ s, isdigit c) (all' : ∀ c ∈ t, isdigit c)
    (lt : s.map UInt8.toNat < t.map UInt8.toNat) : numeral 10 s < numeral 10 t := by
  induction s generalizing t with
  | nil =>
    obtain rfl := length_eq_zero_iff.mp len.symm
    exact absurd lt (not_lt_nil _)
  | cons c s ih =>
    cases t with
    | nil => cases len
    | cons d t =>
      have len := succ.inj len
      have rest {e : UInt8} (mem : e ∈ s) := all e (mem_cons_of_mem c mem)
      rw [numeral_cons, numeral_cons, len]
      rw [map_cons, map_cons, cons_lt_cons_iff] at lt
      rcases lt with first | ⟨same, later⟩
      · have digits := digit_lt_digit (all c mem_cons_self) (all' d mem_cons_self) first
        have small := len ▸ numeral_lt_pow fun e (mem : e ∈ s) => rest mem
        calc digit c * 10 ^ t.length + numeral 10 s < (digit c + 1) * 10 ^ t.length := by
              rw [add_mul, one_mul]
              exact Nat.add_lt_add_left small _
          _ ≤ digit d * 10 ^ t.length := Nat.mul_le_mul_right _ digits
          _ ≤ digit d * 10 ^ t.length + numeral 10 t := Nat.le_add_right _ _
      · rw [UInt8.toNat_inj.mp same]
        exact Nat.add_lt_add_left (ih len (fun _ mem => rest mem)
          (fun e mem => all' e (mem_cons_of_mem d mem)) later) _

end AgentEngine.Lib
