import AgentEngine.Anet.Crc
import AgentEngine.Anet.DataBuffer

/-!
The packets that travel in ANET frames (`packet.h`, `defaultpacket.cpp`,
`advancepacket.h`, `controlpacket.h`): their fields, and how they write and read the part
of a frame that follows the 16-byte packet header.

Header words are bit vectors of their width; a signed one is read through `BitVec.toInt`.
`checksumState` is the global flag `flags::ChecksumState` of the process.
-/

namespace AgentEngine.Anet

open Lib

structure PacketHeader where
  chid : BitVec 32 := 0
  pcode : BitVec 32 := 0
  dataLen : BitVec 32 := 0
deriving DecidableEq, Repr

/-- A C++ integer converted to `size_t`. -/
def sizeT (n : Int) : Nat := (n % 2 ^ 64).toNat

/-! ### DefaultPacket -/

/-- `DefaultPacket`; the first `_bodyLength` bytes of `_body` are `body`. -/
structure DefaultPacket where
  header : PacketHeader := {}
  body : List UInt8 := []
  capacity : Nat := 0
deriving DecidableEq, Repr

namespace DefaultPacket

/-- The largest size that `realloc` may succeed for: `PTRDIFF_MAX`. -/
def maxAlloc : Nat := 2 ^ 63 - 1

variable (p : DefaultPacket)

def setCapacity (capacity : Nat) : Option DefaultPacket :=
  if capacity < p.body.length then none
  else if capacity = p.capacity then some p
  else if capacity ≤ maxAlloc then some { p with capacity }
  else none

/-- The `setCapacity` call of `appendBody`, made when the new bytes do not fit. -/
def makeRoom (length : Nat) : Option DefaultPacket :=
  if sizeT (p.capacity - p.body.length) < length then
    p.setCapacity
      (if length ≤ sizeT (p.capacity * 2 - p.body.length) then sizeT (p.capacity * 2)
       else sizeT (length * 2 + p.body.length))
  else some p

/-- `appendBody(str, length)`, where `str n` are the `n` bytes at `str`; `none` is the
result `false`, which leaves the body as it was. -/
def appendBody (str : Nat → List UInt8) (length : Nat) : Option DefaultPacket :=
  if length = 0 then none
  else (p.makeRoom length).map fun p => { p with body := p.body ++ str length }

def setBody (str : Nat → List UInt8) (length : Nat) : Option DefaultPacket :=
  if length = 0 then some { p with body := [], capacity := 0 }
  else { p with body := [] }.appendBody str length

def encode (garbage : Nat → UInt8) (output : AllocBuffer) : Option AllocBuffer :=
  if 0 < p.body.length then output.writeString garbage p.body else some output

/-- `DefaultPacket::decode(input, &_packetHeader)`. The bytes are copied only if there is
room for them; they are drained either way. -/
def decode {M : Type} [Memory M] (input : DataBuffer M) : Bool × DefaultPacket × DataBuffer M :=
  let len := p.header.dataLen.toInt
  match p.setBody (input.peeks 0) (sizeT len) with
  | some p' => (true, p', (input.touch 0 (sizeT len)).drainData len)
  | none => (false, p, input.drainData len)

end DefaultPacket

/-! ### AdvancePacket -/

/-- `AdvancePacketHeader`; `priority` and `packetFlags` share the byte `flagsData`. -/
structure AdvancePacketHeader where
  ttlInMs : BitVec 32 := 0
  packetChecksum : BitVec 32 := 0
  chidHigh : BitVec 32 := 0
  priority : BitVec 3 := 0
  packetFlags : BitVec 5 := 0
  packetVersion : UInt8 := 0
  nextHeaderType : UInt8 := 0
  reserved : UInt8 := 0
deriving DecidableEq, Repr

namespace AdvancePacketHeader

/-- `sizeof(AdvancePacketHeader)`. -/
def size : Nat := 16

/-- The offsets of `packetChecksum` and of `flagsData`. -/
def checksumOffset : Nat := 4

def flagsOffset : Nat := 12

/-- The byte that holds the two bit fields, the priority in the low bits. -/
def flagsData (h : AdvancePacketHeader) : UInt8 := UInt8.ofBitVec (h.packetFlags ++ h.priority)

end AdvancePacketHeader

/-- The packet flags in a `flagsData` byte. -/
def flagsOf (flagsData : UInt8) : BitVec 5 := flagsData.toBitVec.extractLsb' 3 5

/-- The priority in a `flagsData` byte. -/
def priorityOf (flagsData : UInt8) : BitVec 3 := flagsData.toBitVec.extractLsb' 0 3

def PACKET_FLAGS_CHECKSUM_MASK : BitVec 5 := 0x18
def PACKET_FLAGS_NOCHECKSUM : BitVec 5 := 0x00
def PACKET_FLAGS_CHECKSUM_CRC32C : BitVec 5 := 0x08

def getChecksumMethod (flags : BitVec 5) : BitVec 5 := flags &&& PACKET_FLAGS_CHECKSUM_MASK

def setChecksumMethod (method flags : BitVec 5) : BitVec 5 :=
  (flags &&& ~~~PACKET_FLAGS_CHECKSUM_MASK) ||| method

/-- `ADVANCE_PACKET_MASK`. -/
def advancePacketMask : BitVec 32 := 0x8000

/-- `AdvancePacket::IsAdvancePacket`. -/
def isAdvancePacket (pcode : BitVec 32) : Bool := pcode &&& advancePacketMask ≠ 0

/-- `AdvancePacket<DefaultPacket>`. -/
structure AdvancePacket extends DefaultPacket where
  advHeader : AdvancePacketHeader := {}
deriving DecidableEq, Repr

namespace AdvancePacket

variable {M : Type} [Memory M] (garbage : Nat → UInt8) (checksumState : Bool) (p : AdvancePacket)
  (input : DataBuffer M)

def markAdvancePacket : AdvancePacket :=
  { p with header.pcode := p.header.pcode ||| advancePacketMask }

/-- The checksum fields as `encode` sets them before it writes the header. -/
def resetChecksum : AdvancePacket :=
  let method := if checksumState then PACKET_FLAGS_CHECKSUM_CRC32C else PACKET_FLAGS_NOCHECKSUM
  { p with
    advHeader.packetChecksum := 0
    advHeader.packetFlags := setChecksumMethod method p.advHeader.packetFlags }

/-- The fields of the advance header, written one after the other. -/
def writeHeader (h : AdvancePacketHeader) (output : AllocBuffer) : Option AllocBuffer := do
  let output ← output.writeInt32 garbage h.ttlInMs
  let output ← output.writeInt32 garbage h.packetChecksum
  let output ← output.writeInt32 garbage h.chidHigh
  let output ← output.writeInt8 garbage h.flagsData.toBitVec
  let output ← output.writeInt8 garbage h.packetVersion.toBitVec
  let output ← output.writeInt8 garbage h.nextHeaderType.toBitVec
  output.writeInt8 garbage h.reserved.toBitVec

def encode (output : AllocBuffer) : Option (AdvancePacket × AllocBuffer) := do
  let oldLen := output.getDataLen.toNat
  let p := p.resetChecksum checksumState
  let output ← writeHeader garbage p.advHeader output
  let p := p.markAdvancePacket
  let output ← p.toDefaultPacket.encode garbage output
  if checksumState then
    let advPktLen := output.getDataLen.toNat - oldLen
    let crc := doCrc32c 0 (← output.peeks advPktLen oldLen)
    let output ← output.fillInt32 (oldLen + AdvancePacketHeader.checksumOffset) crc
    return ({ p with advHeader.packetChecksum := crc }, output)
  else return (p, output)

/-- The fields of the advance header, read one after the other. -/
def readHeader : AdvancePacketHeader × DataBuffer M :=
  let (ttlInMs, input) := input.readInt32
  let (packetChecksum, input) := input.readInt32
  let (chidHigh, input) := input.readInt32
  let (flagsData, input) := input.readInt8
  let (packetVersion, input) := input.readInt8
  let (nextHeaderType, input) := input.readInt8
  let (reserved, input) := input.readInt8
  (⟨ttlInMs, packetChecksum, chidHigh, priorityOf flagsData, flagsOf flagsData, packetVersion,
    nextHeaderType, reserved⟩, input)

/-- The part of `decode` after the checksum: the advance header, then the body with the
data length that is left for it. -/
def decodeFields : Bool × AdvancePacket × DataBuffer M :=
  let (advHeader, input) := readHeader input
  let dataLen := p.header.dataLen - BitVec.ofNat 32 AdvancePacketHeader.size
  let (ok, base, input) := { p.toDefaultPacket with header.dataLen := dataLen }.decode input
  (ok, { toDefaultPacket := base, advHeader }, input)

/-- The comparison of the two checksums; the packet's is put back only if it is right. -/
def settleChecksum (pktCRC : List UInt8) (checkSum : BitVec 32) (input : DataBuffer M) :
    Bool × DataBuffer M :=
  if ofBe32 pktCRC ≠ checkSum then (false, input)
  else (true, input.poke AdvancePacketHeader.checksumOffset pktCRC)

/-- The part of `decode` before the fields: the checksum is computed over the announced
length with its own field zeroed in the buffer. -/
def verifyChecksum (len : Nat) (input : DataBuffer M) : Bool × DataBuffer M :=
  let pktCRC := input.peeks AdvancePacketHeader.checksumOffset 4
  let method := getChecksumMethod (flagsOf (input.peek AdvancePacketHeader.flagsOffset))
  let input := (input.touch AdvancePacketHeader.checksumOffset 4).touch
    AdvancePacketHeader.flagsOffset 1
  if checksumState = true ∧ method ≠ PACKET_FLAGS_NOCHECKSUM then
    let input := input.poke AdvancePacketHeader.checksumOffset [0, 0, 0, 0]
    if method = PACKET_FLAGS_CHECKSUM_CRC32C then
      settleChecksum pktCRC (doCrc32c 0 (input.peeks 0 len)) (input.touch 0 len)
    else settleChecksum pktCRC 0 input
  else (true, input)

/-- `AdvancePacket::decode(input, &_packetHeader)`; a packet with a wrong checksum is
drained. -/
def decode : Bool × AdvancePacket × DataBuffer M :=
  let len := p.header.dataLen.toInt
  match verifyChecksum checksumState len.toNat input with
  | (true, input) => p.decodeFields input
  | (false, input) => (false, p, input.drainData len)

end AdvancePacket

/-! ### Packets in general -/

/-- The command of a `ControlPacket`. -/
inductive ControlCommand where
  | badPacket
  | timeoutPacket
  | connectionClosed
  | receiveNewConnection
  | closeConnection
deriving DecidableEq, Repr

inductive Packet where
  | default (p : DefaultPacket)
  | advance (p : AdvancePacket)
  | control (command : ControlCommand) (header : PacketHeader)
deriving DecidableEq, Repr

namespace Packet

def header : Packet → PacketHeader
  | default p => p.header
  | advance p => p.header
  | control _ h => h

def setHeader (h : PacketHeader) : Packet → Packet
  | default p => default { p with header := h }
  | advance p => advance { p with header := h }
  | control c _ => control c h

@[simp] theorem header_setHeader (p : Packet) (h : PacketHeader) : (p.setHeader h).header = h := by
  cases p <;> rfl

/-- `isRegularPacket()`. -/
def isRegularPacket : Packet → Bool
  | control _ _ => false
  | _ => true

/-- `getChannelId()`. -/
def getChannelId : Packet → Nat
  | advance p => p.header.chid.toNat + p.advHeader.chidHigh.toNat * 2 ^ 32
  | p => p.header.chid.toNat

/-- `cleanupFlags()`. -/
def cleanupFlags : Packet → Packet
  | advance p => advance { p with header.pcode := p.header.pcode &&& ~~~advancePacketMask }
  | p => p

/-- `encode`; the packet is returned because an advance packet updates its header. -/
def encode (garbage : Nat → UInt8) (checksumState : Bool) (p : Packet) (output : AllocBuffer) :
    Option (Bool × Packet × AllocBuffer) :=
  match p with
  | default p => do return (true, default p, ← p.encode garbage output)
  | advance p => do
      let (p, output) ← p.encode garbage checksumState output
      return (true, advance p, output)
  | control c h => some (false, control c h, output)

/-- `decode` with the packet's own header. -/
def decode {M : Type} [Memory M] (checksumState : Bool) (p : Packet) (input : DataBuffer M) :
    Bool × Packet × DataBuffer M :=
  match p with
  | default p =>
      let (ok, p, input) := p.decode input
      (ok, default p, input)
  | advance p =>
      let (ok, p, input) := p.decode checksumState input
      (ok, advance p, input)
  | control c h => (false, control c h, input)

end Packet

/-- `AdvancePacketFactory<DefaultPacket>::createPacket`. -/
def createPacket (pcode : BitVec 32) : Packet :=
  if isAdvancePacket pcode then .advance {} else .default {}

end AgentEngine.Anet
