import Mathlib.Data.List.Infix
import Mathlib.Algebra.Order.Ring.Nat

/-!
Line positions (`a_LinePositionAwareIstream` in `astream.h`).

The stream counts the line ends and the characters behind the last one. A line feed is meant to
count only if it does not follow a carriage return, but `mLast` is never set.

* `position_iff`: the position is right iff no line read so far ends with CR LF, and both numbers
  have at most 32 bits.
-/

namespace AgentEngine.Util

/-- The stream; the base delivers the bytes of `mBase`, and then -1. -/
structure LinePositionAwareIstream where
  mBase : List UInt8
  mLast : UInt8 := 0
  mLine : UInt32 := 0
  mCol : UInt32 := 0

namespace LinePositionAwareIstream

def get (s : LinePositionAwareIstream) : Option UInt8 × LinePositionAwareIstream :=
  match s.mBase with
  | [] => (none, s)
  | data :: mBase =>
      (some data,
        if data = 13 then { s with mBase, mLine := s.mLine + 1, mCol := 0 }
        else if data = 10 then
          if s.mLast ≠ 13 then { s with mBase, mLine := s.mLine + 1, mCol := 0 }
          else { s with mBase }
        else { s with mBase, mCol := s.mCol + 1 })

/-- The stream over `text` after `n` calls of `get`. -/
def after (text : List UInt8) (n : Nat) : LinePositionAwareIstream :=
  (fun s => s.get.2)^[n] { mBase := text }

end LinePositionAwareIstream

/-- A carriage return or a line feed. -/
def isMark (c : UInt8) : Bool := c = 13 || c = 10

/-- The line ends of a text, of which CR LF is one. -/
def lineEnds : List UInt8 → Nat
  | [] => 0
  | [c] => (isMark c).toNat
  | c :: d :: text =>
      if c = 13 ∧ d = 10 then 1 + lineEnds text else (isMark c).toNat + lineEnds (d :: text)

/-- The characters behind the last line end. -/
def column (text : List UInt8) : Nat := (text.reverse.takeWhile fun c => !isMark c).length

theorem column_concat (text : List UInt8) (c : UInt8) :
    column (text ++ [c]) = if isMark c then 0 else column text + 1 := by
  unfold column
  rw [List.reverse_append, List.reverse_singleton, List.singleton_append, List.takeWhile_cons]
  cases isMark c <;> rfl

/-- Each CR LF has two marks, and every other line end has one. -/
theorem countP_isMark (text : List UInt8) :
    lineEnds text ≤ text.countP isMark ∧ text.countP isMark ≤ 2 * lineEnds text ∧
      (text.countP isMark = lineEnds text ↔ ¬[13, 10] <:+: text) := by
  fun_induction lineEnds text with
  | case1 => simp
  | case2 c => cases h : isMark c <;> simp [h, List.infix_cons_iff]
  | case3 c d text ends ih =>
    obtain ⟨rfl, rfl⟩ := ends
    have both : (13 :: 10 :: text).countP isMark = text.countP isMark + 2 := by
      simp [isMark]
    have found : [13, 10] <:+: 13 :: 10 :: text := ⟨[], text, rfl⟩
    refine ⟨by omega, by omega, iff_of_false (by omega) (not_not.mpr found)⟩
  | case4 c d text other ih =>
    have marks : (c :: d :: text).countP isMark =
        (isMark c).toNat + (d :: text).countP isMark := by
      cases h : isMark c <;> simp [List.countP_cons, h, add_comm]
    have infix_iff : [13, 10] <:+: c :: d :: text ↔ [13, 10] <:+: d :: text := by
      rw [List.infix_cons_iff]
      refine or_iff_right fun pre => other ?_
      simpa [List.cons_prefix_cons, eq_comm] using pre
    have := Bool.toNat_le (isMark c)
    rw [infix_iff, ← ih.2.2, marks]
    omega

namespace LinePositionAwareIstream

/-- What the stream has counted in the text `read` before `rest`. -/
structure Counted (read rest : List UInt8) (s : LinePositionAwareIstream) : Prop where
  base : s.mBase = rest
  last : s.mLast = 0
  line : s.mLine.toNat = read.countP isMark % 2 ^ 32
  col : s.mCol.toNat = column read % 2 ^ 32

variable {read rest : List UInt8} {s : LinePositionAwareIstream}

theorem Counted.get_cons {c : UInt8} (h : Counted read (c :: rest) s) :
    Counted (read ++ [c]) rest s.get.2 := by
  have marks : (read ++ [c]).countP isMark = read.countP isMark + (isMark c).toNat := by
    cases mark : isMark c <;> simp [mark]
  have line := h.line
  have col := h.col
  rw [get, h.base, h.last]
  dsimp only
  constructor
  · split_ifs <;> rfl
  · split_ifs <;> rfl
  · rw [marks]
    split_ifs with cr lf <;> simp_all [isMark, UInt32.toNat_add]
  · rw [column_concat]
    split_ifs with mark <;> simp_all [isMark, UInt32.toNat_add]

theorem Counted.iterate_get (h : Counted read rest s) (n : Nat) :
    Counted (read ++ rest.take n) (rest.drop n) ((fun s => s.get.2)^[n] s) := by
  induction n generalizing read rest s with
  | zero => simpa using h
  | succ n ih =>
    rw [Function.iterate_succ_apply]
    cases rest with
    | nil =>
      have same : s.get.2 = s := by rw [get, h.base]
      rw [same]
      simpa using ih h
    | cons c rest => simpa using ih h.get_cons

theorem position_iff (text : List UInt8) (n : Nat) :
    ((after text n).mLine.toNat = lineEnds (text.take n) ∧
      (after text n).mCol.toNat = column (text.take n)) ↔
    ¬[13, 10] <:+: text.take n ∧ lineEnds (text.take n) < 2 ^ 32 ∧ column (text.take n) < 2 ^ 32 := by
  have start : Counted [] text { mBase := text } := ⟨rfl, rfl, rfl, rfl⟩
  obtain ⟨-, -, line, col⟩ := start.iterate_get n
  obtain ⟨low, high, iff⟩ := countP_isMark (text.take n)
  rw [after, line, col, List.nil_append, ← iff]
  omega

/-- CR LF is counted as two line ends. -/
theorem crlf_counted_twice :
    (after [13, 10] 2).mLine.toNat = 2 ∧ lineEnds [13, 10] = 1 := by decide

end LinePositionAwareIstream

end AgentEngine.Util
