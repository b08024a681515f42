import AgentEngine.Anet.BufferOutput
import AgentEngine.Anet.DataBuffer

/-!
Reading from a `DataBuffer` whose memory is followed and which never has much to hold: the memory
shows the unread bytes throughout.
-/

namespace AgentEngine.Anet

open Lib List
open AllocBuffer (Holds safeLen)

/-- A buffer with its allocation. -/
abbrev BackedBuffer := DataBuffer (Option AllocBuffer)

namespace BackedBuffer

open DataBuffer

/-- The unread bytes are there, in memory as in the stream, and they are not many. -/
structure Backed (b : BackedBuffer) (queue : List UInt8) : Prop where
  inside : b.pdata ≤ b.mem.length
  unread : b.unread = queue
  memory : ∃ a, b.memory = some a ∧ Holds a queue
  short : queue.length ≤ safeLen

variable {b : BackedBuffer} {queue bytes post : List UInt8}

/-- What a call does to the memory that shows the bytes. -/
theorem Backed.act (h : Backed b queue) (op : BufferOp)
    (permits : ∀ a, Holds a queue → op.Permits a) (small : queue.length + op.need ≤ safeLen) :
    ∃ a, Memory.act b.memory (some op) = some a ∧ Holds a (op.ideal queue).2 := by
  obtain ⟨a, held, holds⟩ := h.memory
  rw [← holds.getDataLen] at small
  obtain ⟨a', run, shows, safe⟩ := BufferOp.step_spec holds.toShows holds.below
    small (permits a holds) fun _ => 0
  refine ⟨a', ?_, shows, safe⟩
  rw [held]
  exact congrArg (Option.map Prod.snd) run

theorem Backed.ensureFree (h : Backed b queue) {len : Int} (small : queue.length + len ≤ safeLen) :
    Backed (b.ensureFree len) queue :=
  ⟨h.inside, h.unread, h.act (.ensureFree len) (fun _ _ => trivial) small, h.short⟩

theorem Backed.skip (h : Backed b (bytes ++ post)) : Backed (b.skip bytes.length) post := by
  have permits : ∀ a, Holds a (bytes ++ post) → BufferOp.Permits a (.readBytes bytes.length) := by
    intro a holds
    rw [BufferOp.Permits, holds.getDataLen, length_append]
    omega
  have moved := h.act _ permits (by simpa [BufferOp.need] using h.short)
  rw [BufferOp.ideal, drop_left] at moved
  have short := h.short
  rw [length_append] at short
  exact ⟨skip_inside h.unread h.inside, unread_skip h.unread, moved, by omega⟩

theorem Backed.readInt32 {w : BitVec 32} (h : Backed b (be32 w ++ post)) :
    ∃ b', b.readInt32 = (w, b') ∧ Backed b' post :=
  ⟨_, readInt32_unread h.unread, h.skip⟩

theorem Backed.readInt8 {n : UInt8} (h : Backed b ([n] ++ post)) :
    ∃ b', b.readInt8 = (n, b') ∧ Backed b' post :=
  ⟨_, readInt8_unread h.unread, h.skip⟩

theorem Backed.drainData (h : Backed b (bytes ++ post)) :
    Backed (b.drainData bytes.length) post := by
  have moved := h.act (.drainData bytes.length) (fun _ _ => trivial)
    (by simpa [BufferOp.need] using h.short)
  rw [BufferOp.ideal, drop_left] at moved
  have short := h.short
  rw [length_append] at short
  refine ⟨?_, by rw [unread_drainData, h.unread, drop_left], ?_, by omega⟩
  · exact min_le_right _ _
  · simpa [DataBuffer.drainData] using moved

/-- Storing bytes in place. -/
theorem Backed.poke {pre old new : List UInt8} (h : Backed b (pre ++ old ++ post))
    (same : old.length = new.length) : Backed (b.poke pre.length new) (pre ++ new ++ post) := by
  have permits : ∀ a, Holds a (pre ++ old ++ post) → BufferOp.Permits a (.poke pre.length new) := by
    intro a holds
    rw [BufferOp.Permits, holds.getDataLen]
    simp only [length_append]
    omega
  have stored := h.act _ permits (by simpa [BufferOp.need] using h.short)
  rw [BufferOp.ideal, overwrite_append pre post same] at stored
  refine ⟨?_, unread_poke h.unread h.inside same, stored, ?_⟩
  · simpa [DataBuffer.poke] using h.inside
  · have short := h.short
    simp only [length_append] at short ⊢
    omega

/-- What comes from the socket goes to room that was made for it. -/
theorem Backed.pour (h : Backed b queue) {len : Nat} (small : queue.length + len ≤ safeLen)
    (fits : bytes.length ≤ len) : Backed ((b.ensureFree len).pourData bytes) (queue ++ bytes) := by
  have inside : (b.ensureFree len).pdata ≤ (b.ensureFree len).mem.length := h.inside
  have length : ((queue ++ bytes).length : Int) ≤ safeLen := by
    rw [length_append]
    omega
  obtain ⟨a, held, holds⟩ := h.memory
  obtain ⟨a₁, made, holds₁, room⟩ := holds.expand (fun _ => 0) small
  obtain ⟨a₂, stored, valid, data, space⟩ :=
    holds₁.valid.storeFree_spec (show (bytes.length : Int) ≤ a₁.getFreeLen by omega)
  refine ⟨pourData_inside inside bytes, ?_, ⟨a₂, ?_, ⟨valid, by rw [data, holds₁.data]⟩,
    space ▸ holds₁.below⟩, length⟩
  · rw [unread_pourData inside]
    exact congrArg (· ++ bytes) h.unread
  · have enough : a₁.getFreeLen ≥ bytes.length := by omega
    have free : Memory.act b.memory (some (.ensureFree len)) = some a₁ := by
      rw [held]
      exact congrArg (Option.map Prod.snd) (congrArg (Option.map (BufferValue.none, ·)) made)
    have poured : a₁.pourData bytes = some a₂ := by
      rw [AllocBuffer.pourData, if_pos enough, stored]
    change Memory.act (Memory.act b.memory (some (.ensureFree len))) (some (.pourData bytes)) = _
    rw [free]
    exact congrArg (Option.map Prod.snd) (congrArg (Option.map (BufferValue.none, ·)) poured)

end BackedBuffer

end AgentEngine.Anet
