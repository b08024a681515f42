import AgentEngine.Anet.AllocBuffer

/-!
The byte queue of `databuffer.h` as those who read from it see it.

The bytes are kept by their offset in the stream: `mem` holds everything that has come in so far,
`_pdata` is the offset of the next unread byte and `_pfree` is the end of `mem`. Growing,
compacting and clearing the allocation move bytes in memory but not in the stream. Code that looks
past `_pfree` meets whatever the allocation holds there: `slack`, about which nothing is assumed.

What the calls do to the allocation is followed in `memory`, which nothing that is read depends on:
with `Unit` it is left aside, and with an `AllocBuffer` it is the allocation of the code.
-/

namespace AgentEngine.Anet

open Lib List

/-- What is known of the memory of a buffer, and what a call on the buffer does to it. -/
class Memory (M : Type) where
  fresh : M
  act : M → Option BufferOp → M

instance : Memory Unit := ⟨(), fun _ _ => ()⟩

/-- Once something was read or written outside of the allocation, and after a call that `BufferOp` does
not have, nothing is known. -/
instance : Memory (Option AllocBuffer) where
  fresh := some {}
  act m op := m.bind fun b => op.bind fun op => (op.step (fun _ => 0) b).map Prod.snd

/-- A `DataBuffer`. `reach` is ghost state: one past the last byte that was looked at or
stored to in place since the mark was last set. -/
structure DataBuffer (M : Type := Unit) [Memory M] where
  mem : List UInt8 := []
  pdata : Nat := 0
  slack : Nat → UInt8 := fun _ => 0
  reach : Nat := 0
  memory : M := Memory.fresh

namespace DataBuffer

section Calls

variable {M : Type} [Memory M] (b : DataBuffer M)

/-- `getDataLen()`; negative once `_pdata` has been moved past `_pfree`. -/
def getDataLen : Int := (b.mem.length : Int) - b.pdata

/-- The bytes from `getData()` to `getFree()`. -/
def unread : List UInt8 := b.mem.drop b.pdata

/-- The byte at `getData()[i]`. -/
def peek (i : Nat) : UInt8 := b.mem.getD (b.pdata + i) (b.slack (b.pdata + i))

/-- The `n` bytes from `getData() + i` on. -/
def peeks (i n : Nat) : List UInt8 := (List.range' i n).map b.peek

/-- Record an access to the `n` bytes from `getData() + i` on. -/
def touch (i n : Nat) : DataBuffer M := { b with reach := max b.reach (b.pdata + i + n) }

/-- Set the ghost mark to the read position. -/
def mark : DataBuffer M := { b with reach := b.pdata }

def ensureFree (len : Int) : DataBuffer M :=
  { b with memory := Memory.act b.memory (some (.ensureFree len)) }

/-- `clear()`: the unread bytes are dropped. -/
def clear : DataBuffer M :=
  { b with pdata := b.mem.length, memory := Memory.act b.memory (some .clear) }

/-- `drainData(len)`; `len` may be negative, which moves the read position back. -/
def drainData (len : Int) : DataBuffer M :=
  { b with
    pdata := min (b.pdata + len).toNat b.mem.length
    memory := Memory.act b.memory (if 0 ≤ len then some (.drainData len.toNat) else none) }

/-- `pourData` after the bytes were placed at `getFree()`. -/
def pourData (bytes : List UInt8) : DataBuffer M :=
  { b with mem := b.mem ++ bytes, memory := Memory.act b.memory (some (.pourData bytes)) }

/-- A store of bytes at `getData() + i`. -/
def poke (i : Nat) (bytes : List UInt8) : DataBuffer M :=
  { b with
    mem := overwrite b.mem (b.pdata + i) bytes
    memory := Memory.act b.memory (some (.poke i bytes)) }

/-- Look at the next `n` bytes and move past them. -/
def skip (n : Nat) : DataBuffer M :=
  { b.touch 0 n with
    pdata := b.pdata + n
    memory := Memory.act b.memory (some (.readBytes n)) }

/-- Take the next `n` bytes; neither `readInt8` nor `readInt32` checks that they are there. -/
def take (n : Nat) : List UInt8 × DataBuffer M := (b.peeks 0 n, b.skip n)

def readInt32 : BitVec 32 × DataBuffer M :=
  let (bytes, b) := b.take 4
  (ofBe32 bytes, b)

def readInt8 : UInt8 × DataBuffer M :=
  let (bytes, b) := b.take 1
  (bytes.headD 0, b)

end Calls

/-! ### Reading what is there -/

section Generic

variable {M : Type} [Memory M] {b : DataBuffer M}

theorem getDataLen_le (b : DataBuffer M) : b.getDataLen ≤ b.unread.length := by
  rw [getDataLen, unread, length_drop]
  omega

theorem getDataLen_eq (inside : b.pdata ≤ b.mem.length) : b.getDataLen = b.unread.length := by
  rw [getDataLen, unread, length_drop]
  omega

theorem unread_pourData (inside : b.pdata ≤ b.mem.length) (bytes : List UInt8) :
    (b.pourData bytes).unread = b.unread ++ bytes := by
  rw [unread, pourData, drop_append_of_le_length inside, unread]

theorem unread_drainData (b : DataBuffer M) (n : Nat) : (b.drainData n).unread = b.unread.drop n := by
  have position : ((b.pdata : Int) + n).toNat = b.pdata + n := Int.toNat_natCast (b.pdata + n)
  rw [unread, unread, drainData, drop_drop, position]
  by_cases past : b.mem.length ≤ b.pdata + n
  · rw [min_eq_right past, drop_length, drop_eq_nil_of_le past]
  · rw [min_eq_left (by omega)]

theorem pourData_inside (inside : b.pdata ≤ b.mem.length) (bytes : List UInt8) :
    (b.pourData bytes).pdata ≤ (b.pourData bytes).mem.length := by
  simp only [pourData, length_append]
  omega

theorem peeks_unread (pre : List UInt8) {bytes post : List UInt8}
    (h : b.unread = pre ++ bytes ++ post) : b.peeks pre.length bytes.length = bytes := by
  apply ext_getElem
  · simp [peeks]
  · intro i h₁ h₂
    have here : (b.mem.drop b.pdata)[pre.length + i]? = some bytes[i] := by
      rw [show b.mem.drop b.pdata = _ from h, append_assoc, getElem?_append_right (by omega),
        Nat.add_sub_cancel_left, getElem?_append_left h₂, getElem?_eq_getElem h₂]
    rw [getElem?_drop] at here
    simp [peeks, peek, getD_eq_getElem?_getD, here]

theorem peeks_unread_zero {bytes post : List UInt8}
    (h : b.unread = bytes ++ post) : b.peeks 0 bytes.length = bytes :=
  peeks_unread [] h

theorem unread_skip {bytes post : List UInt8} (h : b.unread = bytes ++ post) :
    (b.skip bytes.length).unread = post := by
  rw [unread, skip, ← drop_drop]
  rw [show (b.touch 0 bytes.length).mem.drop b.pdata = _ from h, drop_left]

/-- Moving past bytes that are there keeps the read position inside. -/
theorem skip_inside {bytes post : List UInt8} (h : b.unread = bytes ++ post)
    (inside : b.pdata ≤ b.mem.length) :
    (b.skip bytes.length).pdata ≤ (b.skip bytes.length).mem.length := by
  have len := congrArg length h
  rw [unread, length_drop, length_append] at len
  simp only [skip, touch]
  omega

theorem readInt32_unread {w : BitVec 32} {post : List UInt8} (h : b.unread = be32 w ++ post) :
    b.readInt32 = (w, b.skip 4) := by
  have bytes := peeks_unread_zero h
  rw [length_be32] at bytes
  simp only [readInt32, take, bytes, ofBe32_be32]

theorem readInt8_unread {n : UInt8} {post : List UInt8} (h : b.unread = [n] ++ post) :
    b.readInt8 = (n, b.skip 1) := by
  have bytes := peeks_unread_zero h
  rw [length_singleton] at bytes
  simp only [readInt8, take, bytes, headD_cons]

/-- Storing in place. -/
theorem unread_poke {pre old new post : List UInt8} (h : b.unread = pre ++ old ++ post)
    (inside : b.pdata ≤ b.mem.length) (same : old.length = new.length) :
    (b.poke pre.length new).unread = pre ++ new ++ post := by
  have before : (b.mem.take b.pdata).length = b.pdata := length_take_of_le inside
  have whole : b.mem = (b.mem.take b.pdata ++ pre) ++ old ++ post := by
    rw [append_assoc, append_assoc, ← append_assoc pre, ← h, unread, take_append_drop]
  have start : (b.mem.take b.pdata ++ pre).length = b.pdata + pre.length := by
    rw [length_append, before]
  have stored := overwrite_append (b.mem.take b.pdata ++ pre) post same
  rw [← whole, start] at stored
  rw [unread, poke, stored, append_assoc, append_assoc, ← append_assoc pre]
  exact drop_left' before

end Generic

/-! ### With the memory left aside -/

variable (b : DataBuffer)

@[simp] theorem ensureFree_eq (len : Int) : b.ensureFree len = b := rfl

theorem skip_skip (m n : Nat) : (b.skip m).skip n = b.skip (m + n) := by
  simp only [skip, touch, mk.injEq, true_and, and_true]
  omega

/-- Draining bytes that are there moves past them. -/
theorem drainData_touch {b : DataBuffer} {bytes post : List UInt8}
    (h : b.unread = bytes ++ post) (inside : b.pdata ≤ b.mem.length) :
    (b.touch 0 bytes.length).drainData bytes.length = b.skip bytes.length := by
  have len := congrArg length h
  rw [unread, length_drop, length_append] at len
  simp only [drainData, skip, touch, mk.injEq, true_and, and_true]
  omega

end DataBuffer

end AgentEngine.Anet
