import Mathlib.Data.List.Basic
import Mathlib.Tactic.IntervalCases

/-!
Words in byte lists, and overwriting part of a list in place.

* `ofBe32_be32`: a word is read back from its four bytes.
* `overwrite_append`: overwriting the middle of a list by bytes of the same number.
-/

namespace AgentEngine.Lib

variable (w : BitVec 32)

/-- The lowest byte of a word. -/
def lowByte : UInt8 := UInt8.ofBitVec (w.setWidth 8)

/-- The four bytes of a word, most significant first. -/
def be32 : List UInt8 :=
  [lowByte (w >>> 24), lowByte (w >>> 16), lowByte (w >>> 8), lowByte w]

/-- Append a byte at the low end of a word. -/
def shiftIn (b : UInt8) : BitVec 32 := w <<< 8 ||| b.toBitVec.setWidth 32

/-- The word that bytes denote, most significant first. -/
def ofBe32 (bs : List UInt8) : BitVec 32 := bs.foldl shiftIn 0

@[simp] theorem length_be32 : (be32 w).length = 4 := rfl

@[simp] theorem ofBe32_be32 : ofBe32 (be32 w) = w := by
  apply BitVec.eq_of_getLsbD_eq
  intro i hi
  simp only [ofBe32, be32, lowByte, shiftIn, List.foldl_cons, List.foldl_nil, BitVec.getLsbD_or,
    BitVec.getLsbD_shiftLeft, BitVec.getLsbD_setWidth, BitVec.getLsbD_ushiftRight]
  interval_cases i <;> simp

section Overwrite

variable {α : Type}

/-- Store bytes from position `i` on; what falls beyond the end is lost. -/
def overwrite (xs : List α) : Nat → List α → List α
  | _, [] => xs
  | i, b :: bs => overwrite (xs.set i b) (i + 1) bs

@[simp] theorem length_overwrite (xs : List α) (i : Nat) (new : List α) :
    (overwrite xs i new).length = xs.length := by
  induction new generalizing xs i with
  | nil => rfl
  | cons b bs ih => rw [overwrite, ih, List.length_set]

theorem overwrite_append (pre : List α) {old new : List α} (post : List α)
    (same : old.length = new.length) :
    overwrite (pre ++ old ++ post) pre.length new = pre ++ new ++ post := by
  induction new generalizing pre old with
  | nil => rw [overwrite, List.eq_nil_of_length_eq_zero same]
  | cons b bs ih =>
    cases old with
    | nil => simp at same
    | cons a as =>
      have step : (pre ++ a :: as ++ post).set pre.length b = (pre ++ [b]) ++ as ++ post := by
        simp
      have shorter : as.length = bs.length := by simpa using same
      have := ih (pre ++ [b]) shorter
      rw [List.length_append, List.length_singleton] at this
      rw [overwrite, step, this]
      simp

end Overwrite

end AgentEngine.Lib
