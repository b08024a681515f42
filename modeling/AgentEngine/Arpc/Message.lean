import AgentEngine.Anet.BufferOutput
import AgentEngine.Anet.DataBuffer

/-!
RPC messages in a `DataBuffer` (`RPCMessageSerializable.cpp`, `MessageSerializable.cpp`,
`DataBufferOutputStream.cpp`).

A kind of message is known by what its generated code does with bytes. A version 1 packet holds two
messages, a header and a body, each behind its length. A version 0 packet holds one, without a length.
-/

namespace AgentEngine.Arpc

open Lib Anet List DataBuffer

/-- A kind of protobuf message. -/
structure MessageType (μ : Type) where
  /-- A message as `New` makes it. -/
  fresh : μ
  isInitialized : μ → Bool
  /-- What `SerializeToZeroCopyStream` writes. `ByteSizeLong` is its length. -/
  bytes : μ → List UInt8
  /-- `ParseFromCodedStream` of a range of bytes, followed by `ConsumedEntireMessage`, with what the
  message holds then. -/
  parse : List UInt8 → Bool × μ

/-- A `DataBufferOutputStream`. -/
structure DataBufferOutputStream where
  dataBuffer : AllocBuffer
  byteCount : Int := 0

namespace DataBufferOutputStream

/-- `BLOCK_SIZE`. -/
def blockSize : Nat := 8192

/-- `Next`: all free space becomes data; if there is none, some is made before. -/
def next (garbage : Nat → UInt8) (s : DataBufferOutputStream) :
    Option (Nat × DataBufferOutputStream) := do
  let b ← if s.dataBuffer.getFreeLen = 0 then s.dataBuffer.ensureFree garbage blockSize
    else some s.dataBuffer
  let size := b.getFreeLen.toNat
  return (size, { dataBuffer := { b with pfree := b.pfree + size }, byteCount := s.byteCount + size })

/-- `BackUp`. -/
def backUp (s : DataBufferOutputStream) (count : Nat) : Option DataBufferOutputStream := do
  return { dataBuffer := ← s.dataBuffer.stripData count, byteCount := s.byteCount - count }

/-- `SerializeToZeroCopyStream`: ask for space until the bytes are stored, and give back the rest. It
does not end if it gets no space. -/
def write (garbage : Nat → UInt8) (bytes : List UInt8) (s : DataBufferOutputStream) :
    Option DataBufferOutputStream := do
  let data := s.dataBuffer.getDataLen.toNat
  let (size, s) ← s.next garbage
  let s := { s with dataBuffer := ← s.dataBuffer.poke data (bytes.take size) }
  if bytes.length ≤ size then s.backUp (size - bytes.length)
  else if size = 0 then none
  else write garbage (bytes.drop size) s
termination_by bytes.length
decreasing_by
  rw [List.length_drop]
  omega

end DataBufferOutputStream

/-- `RPCMessageSerializable::deserializeMessage`, with what is left of the packet and of the buffer. -/
def deserializeMessage {μ : Type} (type : MessageType μ) (message : μ) (leftPacketDataLen : Int)
    (input : DataBuffer) : Bool × μ × Int × DataBuffer :=
  let (len, input) := input.readInt32
  let left := leftPacketDataLen - 4
  if len.toInt = 0 ∧ left = 0 then (true, message, left, input)
  else if 0 < len.toInt ∧ len.toInt ≤ left then
    let len := len.toInt.toNat
    let (ret, message) := type.parse (input.peeks 0 len)
    (ret, message, left - len, (input.touch 0 len).drainData len)
  else (false, message, left, input)

/-! ### Packet contents -/

/-- `RPCMessageSerializable`. -/
structure RPCMessageSerializable (η β : Type) where
  headerType : MessageType η
  bodyType : MessageType β
  header : η
  body : β

namespace RPCMessageSerializable

variable {η β : Type}

def deserialize (s : RPCMessageSerializable η β) (input : DataBuffer) (length : Int) :
    Bool × RPCMessageSerializable η β × DataBuffer :=
  if length = 0 then (true, s, input)
  else
    match deserializeMessage s.headerType s.header length input with
    | (false, header, left, input) => (false, { s with header }, input.drainData left)
    | (true, header, left, input) =>
      match deserializeMessage s.bodyType s.body left input with
      | (false, body, left, input) => (false, { s with header, body }, input.drainData left)
      | (true, body, _, input) => (true, { s with header, body }, input)

end RPCMessageSerializable

/-- `MessageSerializable`. -/
structure MessageSerializable (μ : Type) where
  type : MessageType μ
  message : μ

namespace MessageSerializable

variable {μ : Type}

def deserialize (s : MessageSerializable μ) (input : DataBuffer) (length : Int) :
    Bool × MessageSerializable μ × DataBuffer :=
  if length = 0 then (true, s, input)
  else
    let (ret, message) := s.type.parse (input.peeks 0 length.toNat)
    (ret, { s with message }, (input.touch 0 length.toNat).drainData length)

end MessageSerializable

/-! ### What is written -/

namespace DataBufferOutputStream

open AllocBuffer (Gives Holds safeLen small_left)

variable {b : AllocBuffer} {queue : List UInt8} (garbage : Nat → UInt8)

end DataBufferOutputStream

/-! ### What is read -/

/-- The first message of what is left of a packet, and what is behind it. There is none if the length
is not that of bytes which are left. -/
def part (left : List UInt8) : Option (List UInt8 × List UInt8) :=
  let len := (ofBe32 (left.take 4)).toInt
  if 0 < len ∧ len ≤ left.length - 4 then
    some ((left.drop 4).take len.toNat, (left.drop 4).drop len.toNat)
  else none

variable {left bytes more : List UInt8}

theorem part_eq_some_iff :
    part left = some (bytes, more) ↔ 0 < bytes.length ∧ (ofBe32 (left.take 4)).toInt = bytes.length ∧
      4 ≤ left.length ∧ left.drop 4 = bytes ++ more := by
  simp only [part]
  constructor
  · intro h
    split at h
    · rename_i fits
      cases h
      refine ⟨?_, ?_, by omega, (take_append_drop _ _).symm⟩ <;>
        simp only [length_take, length_drop] <;> omega
    · cases h
  · rintro ⟨positive, len, long, split⟩
    have total := congrArg length split
    rw [length_drop, length_append] at total
    rw [if_pos (by omega), len, Int.toNat_natCast, split, take_left, drop_left]

theorem length_part (h : part left = some (bytes, more)) :
    left.length = 4 + bytes.length + more.length := by
  obtain ⟨-, -, long, split⟩ := part_eq_some_iff.mp h
  have total := congrArg length split
  rw [length_drop, length_append] at total
  omega

theorem part_eq_none {left : List UInt8} (h : part left = none) :
    ¬ (0 < (ofBe32 (left.take 4)).toInt ∧ (ofBe32 (left.take 4)).toInt ≤ left.length - 4) := by
  intro fits
  simp only [part, if_pos fits] at h
  cases h

variable {μ : Type} (type : MessageType μ) (message : μ) in
/-- What `deserializeMessage` does with a packet that has a length. -/
theorem deserializeMessage_eq {left rest : List UInt8} {input : DataBuffer}
    (inside : input.pdata ≤ input.mem.length) (h : input.unread = left ++ rest)
    (long : 4 ≤ left.length) :
    deserializeMessage type message left.length input =
      if left.length = 4 ∧ (ofBe32 (left.take 4)).toInt = 0 then (true, message, 0, input.skip 4)
      else match part left with
        | some (bytes, more) =>
          ((type.parse bytes).1, (type.parse bytes).2, (more.length : Int),
            input.skip (4 + bytes.length))
        | none => (false, message, left.length - 4, input.skip 4) := by
  have word : (left.take 4).length = 4 := length_take_of_le long
  have split : input.unread = left.take 4 ++ (left.drop 4 ++ rest) := by
    rw [h, ← append_assoc, take_append_drop]
  have length_read := DataBuffer.peeks_unread_zero split
  have next := DataBuffer.unread_skip split
  have inside' := DataBuffer.skip_inside split inside
  rw [word] at length_read next inside'
  simp only [deserializeMessage, DataBuffer.readInt32, DataBuffer.take, length_read]
  by_cases empty : left.length = 4 ∧ (ofBe32 (left.take 4)).toInt = 0
  · rw [if_pos ⟨empty.2, by omega⟩, if_pos empty, empty.1]
    rfl
  · rw [if_neg (by omega), if_neg empty]
    cases first : part left with
    | none => rw [if_neg (part_eq_none first)]
    | some found =>
      obtain ⟨bytes, more⟩ := found
      obtain ⟨positive, len, -, body⟩ := part_eq_some_iff.mp first
      have total := length_part first
      rw [body, append_assoc] at next
      rw [if_pos (by omega), len, Int.toNat_natCast, DataBuffer.peeks_unread_zero next,
        DataBuffer.drainData_touch next inside', DataBuffer.skip_skip]
      congr 3
      omega

end AgentEngine.Arpc
