import AgentEngine.Lib.CString

/-!
`Base64DecodeFast` (`base64.cpp`) and the end of its input.

The decoder is not told how long its input is: it looks for the first byte that is not in the
alphabet.

* `within_iff`: the decoder stays within its input iff one of the bytes is not in the alphabet. A
  `std::string` has the zero behind its last byte.
-/

namespace AgentEngine.Util.Base64

open Lib

/-- The number that a character stands for; 64 if it is not in the alphabet. -/
def pr2six (c : UInt8) : UInt8 :=
  if 65 ≤ c ∧ c ≤ 90 then c - 65
  else if 97 ≤ c ∧ c ≤ 122 then c - 71
  else if 48 ≤ c ∧ c ≤ 57 then c + 4
  else if c = 43 then 62
  else if c = 47 then 63
  else 64

def firstByte (a b : UInt8) : UInt8 := pr2six a <<< 2 ||| pr2six b >>> 4

def secondByte (b c : UInt8) : UInt8 := pr2six b <<< 4 ||| pr2six c >>> 2

def thirdByte (c d : UInt8) : UInt8 := pr2six c <<< 6 ||| pr2six d

/-- The loop that counts the characters. The list has the bytes that may be read; none if others
are. -/
def countChars : List UInt8 → Option Nat
  | [] => none
  | c :: bufin => if pr2six c ≤ 63 then (countChars bufin).map (· + 1) else some 0

/-- The bytes that are written for this many characters. -/
def decodeChars : Nat → List UInt8 → Option (List UInt8)
  | nprbytes + 5, a :: b :: c :: d :: bufin =>
      (decodeChars (nprbytes + 1) bufin).map
        ([firstByte a b, secondByte b c, thirdByte c d] ++ ·)
  | 4, a :: b :: c :: d :: _ => some [firstByte a b, secondByte b c, thirdByte c d]
  | 3, a :: b :: c :: _ => some [firstByte a b, secondByte b c]
  | 2, a :: b :: _ => some [firstByte a b]
  | 1, _ | 0, _ => some []
  | _, _ => none

/-- The number of characters as an `int`. -/
def toInt (chars : Nat) : Int := (chars : Int).bmod (2 ^ 32)

def nbytesdecoded (nprbytes : Int) : Int :=
  ((nprbytes + 3).bmod (2 ^ 32)).tdiv 4 * 3 - (4 - nprbytes) % 4

/-- The bytes that are written to `bufplain`, and the value returned. -/
def base64decode (bufcoded : List UInt8) : Option (List UInt8 × Int) :=
  (countChars bufcoded).bind fun chars =>
    (decodeChars (toInt chars).toNat bufcoded).map fun bufplain =>
      (bufplain ++ [0], nbytesdecoded (toInt chars))

/-- The last `resize`, of the buffer of `size + 1` bytes; none if it throws. -/
def resize (size : Nat) (written : List UInt8) (len : Int) : Option (List UInt8) :=
  let buffer := (written ++ List.replicate (size + 1) 0).take (size + 1)
  if len < 0 then none else some (buffer.takeD len.toNat 0)

/-- The bytes that are written to the buffer, and the string returned. -/
def base64DecodeFast (data : List UInt8) (size : Nat) :
    Option (List UInt8 × Option (List UInt8)) :=
  (base64decode data).map fun r => (r.1, resize size r.1 r.2)

/-- The decoder does not depend on what is behind these bytes and does not read it, and it writes no
byte behind the buffer. -/
def Within (readable : List UInt8) (size : Nat) : Prop :=
  ∃ r, (∀ behind, base64DecodeFast (readable ++ behind) size = some r) ∧ r.1.length ≤ size + 1

variable {data : List UInt8}

theorem countChars_append (stop : ∃ c ∈ data, 63 < pr2six c) :
    ∃ chars < data.length, ∀ behind, countChars (data ++ behind) = some chars := by
  induction data with
  | nil => cases stop.choose_spec.1
  | cons c data ih =>
    by_cases inside : pr2six c ≤ 63
    · rw [List.exists_mem_cons_iff, or_iff_right (UInt8.not_lt.mpr inside)] at stop
      obtain ⟨chars, less, counted⟩ := ih stop
      refine ⟨chars + 1, Nat.succ_lt_succ less, fun behind => ?_⟩
      rw [List.cons_append, countChars, if_pos inside, counted]
      rfl
    · exact ⟨0, Nat.succ_pos _, fun behind => if_neg inside⟩

theorem exists_of_countChars {chars : Nat} (counted : countChars data = some chars) :
    ∃ c ∈ data, 63 < pr2six c := by
  induction data generalizing chars with
  | nil => cases counted
  | cons c data ih =>
    rw [List.exists_mem_cons_iff]
    rw [countChars] at counted
    split at counted
    · obtain ⟨chars', counted', -⟩ := Option.map_eq_some_iff.mp counted
      exact .inr (ih counted')
    · rename_i outside
      exact .inl (UInt8.not_le.mp outside)

theorem decodeChars_append {nprbytes : Nat} (enough : nprbytes ≤ data.length) :
    ∃ bufplain, bufplain.length ≤ nprbytes ∧
      ∀ behind, decodeChars nprbytes (data ++ behind) = some bufplain := by
  fun_induction decodeChars nprbytes data with
  | case1 nprbytes a b c d bufin ih =>
    obtain ⟨bufplain, short, decoded⟩ := ih (by simp at enough; omega)
    refine ⟨[firstByte a b, secondByte b c, thirdByte c d] ++ bufplain, by simp; omega, ?_⟩
    intro behind
    simp [decodeChars, decoded]
  | case2 | case3 | case4 | case5 | case6 =>
    exact ⟨_, by simp, fun behind => rfl⟩
  | case7 nprbytes data more four three two one zero =>
    -- each of the other cases lacks a byte
    exfalso
    have some_chars : 2 ≤ nprbytes := (Nat.two_le_iff _).mpr ⟨zero, one⟩
    rcases data with _ | ⟨a, _ | ⟨b, data⟩⟩
    · exact absurd (some_chars.trans enough) (by simp)
    · exact absurd (some_chars.trans enough) (by simp)
    · have not_two : nprbytes ≠ 2 := fun same => two a b data same rfl
      simp only [List.length_cons] at enough
      rcases data with _ | ⟨c, data⟩
      · simp only [List.length_nil] at enough
        omega
      · have not_three : nprbytes ≠ 3 := fun same => three a b c data same rfl
        rcases data with _ | ⟨d, data⟩
        · simp only [List.length_singleton] at enough
          omega
        · have not_four : nprbytes ≠ 4 := fun same => four a b c d data same rfl
          exact more (nprbytes - 5) a b c d data (by omega) rfl

theorem toNat_bmod_le (chars m : Nat) : ((chars : Int).bmod m).toNat ≤ chars := by
  have le := Nat.mod_le chars m
  rw [Int.bmod_def, ← Int.natCast_mod]
  split_ifs <;> omega

theorem within_of_stop {readable : List UInt8} {size : Nat} (fits : readable.length ≤ size + 1)
    (stop : ∃ c ∈ readable, 63 < pr2six c) : Within readable size := by
  obtain ⟨chars, less, counted⟩ := countChars_append stop
  have fewer : (toInt chars).toNat ≤ chars := toNat_bmod_le chars _
  obtain ⟨bufplain, short, decoded⟩ := decodeChars_append (fewer.trans less.le)
  have decodes : ∀ behind, base64decode (readable ++ behind) =
      some (bufplain ++ [0], nbytesdecoded (toInt chars)) := by
    intro behind
    rw [base64decode, counted, Option.bind_some, decoded, Option.map_some]
  have written : (bufplain ++ [0]).length ≤ size + 1 := by
    rw [List.length_append, List.length_singleton]
    omega
  exact ⟨_, fun behind => congrArg (Option.map _) (decodes behind), written⟩

theorem within_iff (data : List UInt8) :
    (Within data data.length ↔ ∃ c ∈ data, 63 < pr2six c) ∧ Within (data ++ [0]) data.length := by
  refine ⟨⟨?_, within_of_stop (Nat.le_succ _)⟩, within_of_stop (by simp) ⟨0, by simp, by decide⟩⟩
  rintro ⟨r, same, -⟩
  have alone := same []
  rw [List.append_nil, base64DecodeFast, base64decode] at alone
  cases counted : countChars data with
  | none =>
    rw [counted] at alone
    cases alone
  | some chars => exact exists_of_countChars counted

/-- Four bytes of a longer text: seven bytes are written to a buffer of five. -/
theorem slice_overrun : ¬ Within (ascii "QUJD") 4 ∧
    base64DecodeFast (ascii "QUJDREVG" ++ [0]) 4 =
      some (ascii "ABCDEF" ++ [0], some (ascii "ABCDE" ++ [0])) := by
  refine ⟨?_, by decide⟩
  rintro ⟨r, same, -⟩
  cases same []

end AgentEngine.Util.Base64
