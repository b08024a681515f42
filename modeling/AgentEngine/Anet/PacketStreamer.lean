import AgentEngine.Anet.Packet
import AgentEngine.Lib.Incremental

/-!
Framing: `DefaultPacketStreamer` over `AdvancePacketFactory<DefaultPacket>`, the
`StreamingContext` that carries an unfinished packet from one read to the next, and the
read loop of `TCPConnection::readData`, which is generic in the streamer.
-/

namespace AgentEngine.Anet

open Lib

/-! ### The read loop -/

/-- `StreamingContext`; `ext` holds the fields a subclass adds. -/
structure StreamingContext (π ε : Type) where
  packet : Option π := none
  completed : Bool := false
  broken : Bool := false
  eof : Bool := false
  ext : ε
deriving DecidableEq

/-- What the read loop needs of an `IPacketStreamer`: `processData`, the packets'
`cleanupFlags`, and the subclass fields of a context that was just created or reset.
`quota` bounds how many more packets a context can complete from `n` unread bytes. -/
structure IPacketStreamer (π ε : Type) (M : Type := Unit) [Memory M] where
  processData : DataBuffer M → StreamingContext π ε → Bool × DataBuffer M × StreamingContext π ε
  cleanupFlags : π → π
  fresh : ε
  quota : Nat → StreamingContext π ε → Nat

namespace TCPConnection

/-- The fields of the connection that reading uses: `_input` and `_context`. -/
structure Reading (π ε : Type) (M : Type := Unit) [Memory M] where
  input : DataBuffer M
  context : StreamingContext π ε

/-- `READ_WRITE_SIZE`, how much a read asks for if the environment does not say otherwise. -/
def readWriteSize : Nat := 8192

section Loop

variable {π ε M : Type} [Memory M] (streamer : IPacketStreamer π ε M)

/-- One round of the inner loop of `readData`: a completed packet is stolen from the
context, cleaned up and handed to `handlePacket`, and the context is reset. A completed
context always holds a packet, so the last case of the match is never met. -/
def readRound (c : Reading π ε M) : Pass (Reading π ε M) π :=
  let (ok, input, context) := streamer.processData c.input c.context
  if ok && context.completed then
    match context.packet with
    | some packet => .deliver (streamer.cleanupFlags packet) ⟨input, { ext := streamer.fresh }⟩
    | none => .halt ⟨input, context⟩
  else if context.broken then .halt ⟨input, context⟩
  else .starve ⟨input, context⟩

/-- One call of `_socket->read`, for which room is made: no bytes mean end of file. -/
def receive (bytes : List UInt8) (c : Reading π ε M) : Reading π ε M :=
  { input := (c.input.ensureFree readWriteSize).pourData bytes
    context := { c.context with eof := c.context.eof || bytes.isEmpty } }

/-- `readData` as a reader: every piece of input is one call of `_socket->read`, and
reading stops once the context is broken. -/
def readData : Reader (Reading π ε M) π UInt8 where
  pass := readRound streamer
  pour := receive
  pending c := streamer.quota c.input.unread.length c.context

/-- A connection that has read nothing; the buffer may hold anything past its end. -/
def start (slack : Nat → UInt8) : Reading π ε M :=
  { input := { slack }, context := { ext := streamer.fresh } }

end Loop

variable {π ε : Type} {streamer : IPacketStreamer π ε} {c c' : Reading π ε}

theorem pass_deliver {item : π} (h : (readData streamer).pass c = .deliver item c') :
    ∃ packet context, streamer.processData c.input c.context = (true, c'.input, context) ∧
      context.completed = true ∧ context.packet = some packet ∧
      item = streamer.cleanupFlags packet ∧ c'.context = { ext := streamer.fresh } := by
  change readRound streamer c = _ at h
  unfold readRound at h
  split at h
  rename_i ok input context hd
  split at h
  · rename_i done
    obtain ⟨rfl, completed⟩ := Bool.and_eq_true_iff.mp done
    split at h
    · rename_i packet held
      cases h
      exact ⟨packet, context, hd, completed, held, rfl, rfl⟩
    · cases h
  · split at h <;> cases h

theorem pass_starve (h : (readData streamer).pass c = .starve c') :
    ∃ ok, streamer.processData c.input c.context = (ok, c'.input, c'.context) ∧
      (ok = true → c'.context.completed = false) ∧ c'.context.broken = false := by
  change readRound streamer c = _ at h
  unfold readRound at h
  split at h
  rename_i ok input context hd
  split at h
  · split at h <;> cases h
  · rename_i unfinished
    split at h
    · cases h
    · rename_i intact
      cases h
      exact ⟨ok, hd, by rintro rfl; simpa using unfinished, by simpa using intact⟩

theorem pass_halt (h : (readData streamer).pass c = .halt c') :
    ∃ ok, streamer.processData c.input c.context = (ok, c'.input, c'.context) := by
  change readRound streamer c = _ at h
  unfold readRound at h
  split at h
  rename_i ok input context hd
  split at h
  · split at h <;> cases h
    exact ⟨ok, hd⟩
  · split at h <;> cases h
    exact ⟨ok, hd⟩

end TCPConnection

/-! ### The streamer -/

namespace DefaultPacketStreamer

/-- `ANET_PACKET_FLAG`. -/
def anetPacketFlag : BitVec 32 := 0x416e4574

/-- `PACKET_INFO_LEN`. -/
def packetInfoLen : Nat := 16

/-- `max_package_size`, one gigabyte. -/
def maxPackageSize : Int := 0x40000000

/-- What `getPacketInfo` says about the start of the buffer. -/
inductive PacketInfo where
  | incomplete
  | broken
  | header (h : PacketHeader)
deriving DecidableEq, Repr

variable {M : Type} [Memory M] (checksumState : Bool) (input : DataBuffer M)

/-- The four words of a packet header, the flag first. -/
def readInfo : BitVec 32 × PacketHeader × DataBuffer M :=
  let (flag, input) := input.readInt32
  let (chid, input) := input.readInt32
  let (pcode, input) := input.readInt32
  let (dataLen, input) := input.readInt32
  (flag, ⟨chid, pcode, dataLen⟩, input)

def getPacketInfo : PacketInfo × DataBuffer M :=
  if input.getDataLen < packetInfoLen then (.incomplete, input)
  else
    let (flag, h, input) := readInfo input
    if flag ≠ anetPacketFlag ∨ h.dataLen.toInt < 0 ∨ h.dataLen.toInt > maxPackageSize then
      (.broken, input)
    else (.header h, input)

/-- `encode`: the length and the packet code are filled in once the packet has written
itself, and a packet that fails to leaves no byte behind. -/
def encode (garbage : Nat → UInt8) (packet : Packet) (output : AllocBuffer) :
    Option (Bool × Packet × AllocBuffer) := do
  let oldLen := output.getDataLen.toNat
  let output ← output.writeInt32 garbage anetPacketFlag
  let output ← output.writeInt32 garbage packet.header.chid
  let pcodeOffset := output.getDataLen.toNat
  let output ← output.writeInt32 garbage packet.header.pcode
  let dataLenOffset := output.getDataLen.toNat
  let output ← output.writeInt32 garbage 0
  let (ok, packet, output) ← packet.encode garbage checksumState output
  let written := output.getDataLen.toNat - oldLen
  if ok then
    let dataLen := BitVec.ofNat 32 (written - packetInfoLen)
    let packet := packet.setHeader { packet.header with dataLen }
    let output ← output.fillInt32 dataLenOffset dataLen
    return (true, packet, ← output.fillInt32 pcodeOffset packet.header.pcode)
  else return (false, packet, ← output.stripData written)

/-- The part of `processData` that follows once the context holds a packet. -/
def processPacket (packet : Packet) (input : DataBuffer M) (context : StreamingContext Packet Unit) :
    Bool × DataBuffer M × StreamingContext Packet Unit :=
  if input.getDataLen < packet.header.dataLen.toInt then
    (!context.eof, input, { context with packet := some packet, broken := context.eof })
  else
    let (ok, packet, input) := packet.decode checksumState input
    let packet := if ok then packet else .control .badPacket packet.header
    (true, input, { context with packet := some packet, completed := true })

/-- `processData`. The ghost mark is set first, so that it covers this call. -/
def processData (context : StreamingContext Packet Unit) :
    Bool × DataBuffer M × StreamingContext Packet Unit :=
  let input := input.mark
  match context.packet with
  | some packet => processPacket checksumState packet input context
  | none =>
      match getPacketInfo input with
      | (.incomplete, input) => (!context.eof, input, { context with broken := false })
      | (.broken, input) => (false, input, { context with broken := true })
      | (.header h, input) =>
          processPacket checksumState ((createPacket h.pcode).setHeader h)
            (input.ensureFree h.dataLen.toInt) context

/-- Completing a new packet takes its header off the input. For a packet whose header has
been read it takes the data, which moves the read position back if its length is negative. -/
def quota (unread : Nat) (context : StreamingContext Packet Unit) : Nat :=
  match context.packet with
  | none => unread
  | some packet => unread + (-packet.header.dataLen.toInt).toNat + 1

def streamer (M : Type := Unit) [Memory M] : IPacketStreamer Packet Unit M where
  processData := processData checksumState
  cleanupFlags := Packet.cleanupFlags
  fresh := ()
  quota := quota

end DefaultPacketStreamer

end AgentEngine.Anet
