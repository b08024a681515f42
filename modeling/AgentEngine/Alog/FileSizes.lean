import AgentEngine.Alog.LogDelivery

/-!
How large the files of a `FileAppender` become.

The size of the current file is kept beside it and compared with the maximum before a message is
written. Messages are therefore never split, and a file outgrows the maximum only if it holds a
single message that does.

* `Holds.write`: where one message goes.
* `files_bounded`: what is in the files after any number of messages.
-/

namespace AgentEngine.Alog.FileAppender

open List

def setMaxSize (a : FileAppender) (maxSize : BitVec 32) : FileAppender :=
  { a with maxSize := maxSize.toNat * 1024 * 1024 }

/-- `open`, which finds no file of the name. -/
def openNew (a : FileAppender) : FileAppender := { a with rotated := [], current := [], curSize := 0 }

/-- The messages of every file: those in the files that have been rotated, and those in the current
one. -/
structure Holds (a : FileAppender) (limit : Nat) (old : List (List (List UInt8)))
    (now : List (List UInt8)) : Prop where
  limited : a.maxSize = limit
  rotated : a.rotated = old.map List.flatten
  current : a.current = now.flatten
  size : a.curSize = a.current.length
  small : ∀ file ∈ old ++ [now], file.flatten.length < limit ∨ ∃ m, file = [m]

variable {a : FileAppender} {limit : Nat} {old : List (List (List UInt8))} {now : List (List UInt8)}

theorem Holds.rotateLog (pos : 0 < limit) (h : a.Holds limit old now) (times : Times) :
    (a.rotateLog times).Holds limit (old ++ [now]) [] := by
  have small : ∀ file ∈ (old ++ [now]) ++ [[]], file.flatten.length < limit ∨ ∃ m, file = [m] := by
    intro file mem
    rcases mem_append.mp mem with mem | mem
    · exact h.small file mem
    · rw [mem_singleton.mp mem]
      exact .inl pos
  have rotated : a.rotated ++ [a.current] = (old ++ [now]).map flatten := by
    rw [h.rotated, h.current, map_append]
    rfl
  unfold FileAppender.rotateLog
  simp only
  split_ifs <;> exact ⟨h.limited, rotated, rfl, rfl, small⟩

/-- A message is written to the current file as long as that stays small, and to a file of its own
otherwise. -/
theorem Holds.write (pos : 0 < limit) (h : a.Holds limit old now) (m : List UInt8) (times : Times) :
    ∃ old' now', (a.write m times).Holds limit old' now' ∧
      old'.flatten ++ now' = old.flatten ++ now ++ [m] := by
  have put {b : FileAppender} {old : List (List (List UInt8))} {now : List (List UInt8)}
      (h : b.Holds limit old now)
      (small : (now ++ [m]).flatten.length < limit ∨ ∃ n, now ++ [m] = [n]) :
      Holds { b with current := b.current ++ m, curSize := b.curSize + m.length } limit old
        (now ++ [m]) := by
    refine ⟨h.limited, h.rotated, ?_, ?_, ?_⟩
    · simp [h.current]
    · simp [h.size]
    · intro file mem
      rcases mem_append.mp mem with mem | mem
      · exact h.small file (mem_append_left _ mem)
      · rw [mem_singleton.mp mem]
        exact small
  unfold FileAppender.write
  simp only
  split_ifs with full
  · refine ⟨_, _, put (h.rotateLog pos times) (.inr ⟨m, rfl⟩), ?_⟩
    simp
  · refine ⟨_, _, put h (.inl ?_), (append_assoc _ _ _).symm⟩
    have room : ¬ a.maxSize ≤ a.curSize + m.length := fun le =>
      full (.inl ⟨h.limited ▸ pos, le⟩)
    rw [h.limited, h.size, h.current] at room
    simpa using room

theorem Holds.run (pos : 0 < limit) (h : a.Holds limit old now)
    (writes : List (List UInt8 × Times)) :
    ∃ old' now', (writes.foldl (fun a w => a.write w.1 w.2) a).Holds limit old' now' ∧
      old'.flatten ++ now' = old.flatten ++ now ++ writes.map Prod.fst := by
  induction writes generalizing a old now with
  | nil => exact ⟨old, now, h, (append_nil _).symm⟩
  | cons w writes ih =>
    obtain ⟨old₁, now₁, first, messages⟩ := h.write pos w.1 w.2
    obtain ⟨old₂, now₂, last, messages'⟩ := ih first
    refine ⟨old₂, now₂, last, ?_⟩
    rw [messages', messages, map_cons, append_assoc]
    rfl

/-- The size that is kept is that of the current file; every message is in one file, the messages of
a file follow one another, and a file that reaches the maximum size holds a single message. -/
theorem files_bounded (a : FileAppender) (maxSize : BitVec 32) (set : 0 < maxSize)
    (writes : List (List UInt8 × Times)) :
    let b := writes.foldl (fun a w => a.write w.1 w.2) (a.setMaxSize maxSize).openNew
    b.curSize = b.current.length ∧
    ∃ files : List (List (List UInt8)), files.flatten = writes.map Prod.fst ∧
      files.map flatten = b.rotated ++ [b.current] ∧
      ∀ file ∈ files, file.flatten.length < maxSize.toNat * 1024 * 1024 ∨ ∃ m, file = [m] := by
  intro b
  have pos : 0 < maxSize.toNat * 1024 * 1024 := by
    have : 0 < maxSize.toNat := set
    omega
  have start : (a.setMaxSize maxSize).openNew.Holds (maxSize.toNat * 1024 * 1024) [] [] := by
    refine ⟨rfl, rfl, rfl, rfl, ?_⟩
    intro file mem
    rw [mem_singleton.mp mem]
    exact .inl pos
  obtain ⟨old, now, holds, messages⟩ := start.run pos writes
  refine ⟨holds.size, old ++ [now], ?_, ?_, holds.small⟩
  · simpa using messages
  · rw [holds.rotated, holds.current, map_append]
    rfl

/-- Files of one megabyte at most, the first of which is rotated when its time is over. -/
theorem files_bounded_three_messages :
    let b := [([1, 2], ⟨9, 9, 9⟩), ([3], ⟨10, 10, 10⟩), ([4], ⟨10, 10, 10⟩)].foldl
      (fun a w => a.write w.1 w.2)
      (setMaxSize ⟨[], [], 0, 0, 10, 3600, false, 0, 0, 0, 0, 0, false, [], []⟩ 1).openNew
    b.rotated = [[1, 2]] ∧ b.current = [3, 4] ∧ b.curSize = b.current.length := by
  intro b
  exact ⟨by decide, by decide, (files_bounded _ 1 (by decide) _).1⟩

end AgentEngine.Alog.FileAppender
