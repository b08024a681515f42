import AgentEngine.Anet.AllocBufferRefinement

/-!
Output to a `DataBuffer` that never has much to hold: no call of `expand` fails, and the bytes are
appended to those that are there.
-/

namespace AgentEngine.Anet.AllocBuffer

open Lib List BufferOp

variable {α β : Type}

/-- A computation has a result, which is as told. -/
def Gives (r : Option α) (post : α → Prop) : Prop := ∃ x, r = some x ∧ post x

theorem Gives.bind {r : Option α} {f : α → Option β} {post : α → Prop} {post' : β → Prop}
    (first : Gives r post) (next : ∀ x, post x → Gives (f x) post') : Gives (r >>= f) post' := by
  obtain ⟨x, rfl, told⟩ := first
  exact next x told

/-- A buffer with the bytes of a queue, not too large for the next operation. -/
structure Holds (b : AllocBuffer) (queue : List UInt8) : Prop extends Shows b queue where
  below : b.getSpaceUsed < safeSpace

theorem small_left {xs ys : List UInt8} (small : (xs ++ ys).length ≤ safeLen) :
    xs.length ≤ safeLen := by
  rw [length_append] at small
  omega

variable {b : AllocBuffer} {queue : List UInt8} (h : Holds b queue) (garbage : Nat → UInt8)

include h

theorem Holds.expand {need : Int} (small : queue.length + need ≤ safeLen) :
    Gives (b.expand garbage need) fun b' => Holds b' queue ∧ need ≤ b'.getFreeLen := by
  rw [← h.getDataLen] at small
  obtain ⟨b', run, valid, data, room, safe⟩ :=
    h.valid.expand_spec h.below small garbage
  exact ⟨b', run, ⟨⟨valid, data.trans h.data⟩, safe⟩, room⟩

theorem Holds.writeBytes (src : List UInt8) (small : (queue ++ src).length ≤ safeLen) :
    Gives (b.writeBytes garbage src) (Holds · (queue ++ src)) := by
  rw [length_append, Nat.cast_add, ← h.getDataLen] at small
  obtain ⟨b', run, valid, data, safe⟩ :=
    h.valid.writeBytes_spec h.below small garbage
  exact ⟨b', run, ⟨valid, by rw [data, h.data]⟩, safe⟩

theorem Holds.writeString (src : List UInt8) (small : (queue ++ src).length ≤ safeLen) :
    Gives (b.writeString garbage src) (Holds · (queue ++ src)) := by
  have bound : (src.length : Int) ≤ 2 ^ 24 - 1 := by
    rw [length_append] at small
    exact le_trans (by omega) small
  have len : (BitVec.ofNat 32 src.length).toInt = src.length := by
    rw [BitVec.toInt_ofNat', Int.bmod_eq_of_le (by omega) (by omega)]
  simp only [AllocBuffer.writeString, len, Int.toNat_natCast, take_length,
    if_neg (show ¬ (src.length : Int) < 0 by omega)]
  exact h.writeBytes garbage src small

theorem Holds.writeStrings (srcs : List (List UInt8))
    (small : (queue ++ srcs.flatten).length ≤ safeLen) :
    Gives (b.writeStrings garbage srcs) (Holds · (queue ++ srcs.flatten)) := by
  induction srcs generalizing b queue with
  | nil => exact ⟨b, rfl, by rwa [flatten_nil, append_nil]⟩
  | cons src srcs ih =>
    rw [flatten_cons, ← append_assoc] at small ⊢
    rw [AllocBuffer.writeStrings, foldlM_cons]
    exact (h.writeString garbage src (small_left small)).bind fun _ h => ih h small

theorem Holds.writeInt32 (n : BitVec 32) (small : (queue ++ be32 n).length ≤ safeLen) :
    Gives (b.writeInt32 garbage n) (Holds · (queue ++ be32 n)) :=
  h.writeBytes garbage (be32 n) small

theorem Holds.writeInt8 (n : BitVec 8) (small : (queue ++ [UInt8.ofBitVec n]).length ≤ safeLen) :
    Gives (b.writeInt8 garbage n) (Holds · (queue ++ [UInt8.ofBitVec n])) :=
  h.writeBytes garbage [UInt8.ofBitVec n] small

omit h garbage

/-- Filling in a word that is there. -/
theorem Holds.fillInt32 {pre post : List UInt8} {old : BitVec 32}
    (h : Holds b (pre ++ be32 old ++ post)) (n : BitVec 32) {i : Nat} (here : i = pre.length) :
    Gives (b.fillInt32 i n) (Holds · (pre ++ be32 n ++ post)) := by
  have inside : i + (be32 n).length ≤ b.data.length := by
    simp only [h.data, length_append, length_be32]
    omega
  obtain ⟨b', run, valid, data, space⟩ := h.valid.poke_spec (be32 n) inside
  have same : (be32 old).length = (be32 n).length := rfl
  refine ⟨b', run, ⟨valid, ?_⟩, space ▸ h.below⟩
  rw [data, h.data, here, overwrite_append pre post same]

theorem Holds.peeks (h : Holds b queue) {pre bytes post : List UInt8} (parts : queue = pre ++ bytes ++ post) :
    b.peeks bytes.length pre.length = some bytes := by
  have data : b.data = pre ++ (bytes ++ post) := by
    rw [h.data, parts, append_assoc]
  obtain ⟨valid, rest⟩ := h.valid.advance (n := pre.length) (by simp [data])
  rw [data, drop_left] at rest
  rw [AllocBuffer.peeks, valid.loadData_eq (by simp [rest]), rest, take_left]

end AgentEngine.Anet.AllocBuffer
