import AgentEngine.Anet.BufferInput
import AgentEngine.Anet.PacketStreamer

/-!
The bytes of a frame, from the sender's side and from the receiver's.

* `encode_eq`: encoding a packet appends one frame, with the length, the packet code and
  the checksum that the code fills in afterwards already in place.
* `decode_received`: from a buffer that starts with the data of an intact frame, a new packet
  is rebuilt, and exactly that data is consumed.
-/

namespace AgentEngine.Anet

open Lib List DataBuffer AdvancePacketHeader
open AllocBuffer (Gives Holds safeLen small_left)
open BackedBuffer (Backed)
open BitVec (ofNat)

/-! ### What a packet writes -/

namespace AdvancePacketHeader

variable (h : AdvancePacketHeader)

/-- The fields after the checksum. -/
def tailBytes : List UInt8 :=
  be32 h.chidHigh ++ [h.flagsData, h.packetVersion, h.nextHeaderType, h.reserved]

/-- The sixteen bytes of an advance header. -/
def bytes : List UInt8 :=
  be32 h.ttlInMs ++ be32 h.packetChecksum ++ h.tailBytes

@[simp] theorem length_bytes : h.bytes.length = size := rfl

theorem bytes_append (xs : List UInt8) :
    h.bytes ++ xs = be32 h.ttlInMs ++ be32 h.packetChecksum ++ (h.tailBytes ++ xs) := by
  rw [bytes, append_assoc]

end AdvancePacketHeader

/-- The data of a frame: what follows its packet header. -/
def Packet.data : Packet → List UInt8
  | .default p => p.body
  | .advance p => p.advHeader.bytes ++ p.body
  | .control _ _ => []

variable (checksumState : Bool) (h : AdvancePacketHeader)

/-- The packet that goes on the wire: the advance packet as `encode` leaves it. -/
def AdvancePacket.wire (p : AdvancePacket) : AdvancePacket :=
  let p := (p.resetChecksum checksumState).markAdvancePacket
  if checksumState then
    { p with advHeader.packetChecksum := doCrc32c 0 (p.advHeader.bytes ++ p.body) }
  else p

def Packet.wire : Packet → Packet
  | .advance p => .advance (p.wire checksumState)
  | p => p

/-- The whole frame of a packet that is on the wire. -/
def Packet.frame (p : Packet) : List UInt8 :=
  be32 DefaultPacketStreamer.anetPacketFlag ++ be32 p.header.chid ++ be32 p.header.pcode ++
    be32 (ofNat 32 p.data.length) ++ p.data

section Writing

variable (garbage : Nat → UInt8) {output : AllocBuffer} {queue : List UInt8}

theorem DefaultPacket.encode_gives (p : DefaultPacket) (holds : output.Holds queue)
    (small : (queue ++ p.body).length ≤ safeLen) :
    Gives (p.encode garbage output) (Holds · (queue ++ p.body)) := by
  unfold encode
  split
  · exact holds.writeString garbage p.body small
  · rename_i empty
    have none : p.body = [] := eq_nil_of_length_eq_zero (by omega)
    exact ⟨output, rfl, by rwa [none, append_nil]⟩

theorem AdvancePacket.writeHeader_gives (holds : output.Holds queue)
    (small : (queue ++ h.bytes).length ≤ safeLen) :
    Gives (writeHeader garbage h output) (Holds · (queue ++ h.bytes)) := by
  have fields : queue ++ h.bytes = queue ++ be32 h.ttlInMs ++ be32 h.packetChecksum ++
      be32 h.chidHigh ++ [h.flagsData] ++ [h.packetVersion] ++ [h.nextHeaderType] ++
      [h.reserved] := by
    simp only [bytes, tailBytes, append_assoc, cons_append, nil_append]
  rw [fields] at small ⊢
  have s₆ := small_left small
  have s₅ := small_left s₆
  have s₄ := small_left s₅
  have s₃ := small_left s₄
  have s₂ := small_left s₃
  refine (holds.writeInt32 garbage _ (small_left s₂)).bind fun _ holds => ?_
  refine (holds.writeInt32 garbage _ s₂).bind fun _ holds => ?_
  refine (holds.writeInt32 garbage _ s₃).bind fun _ holds => ?_
  refine (holds.writeInt8 garbage _ s₄).bind fun _ holds => ?_
  refine (holds.writeInt8 garbage _ s₅).bind fun _ holds => ?_
  refine (holds.writeInt8 garbage _ s₆).bind fun _ holds => ?_
  exact holds.writeInt8 garbage _ small

theorem AdvancePacket.encode_gives (p : AdvancePacket) (holds : output.Holds queue)
    (small : (queue ++ Packet.data (.advance (p.wire checksumState))).length ≤ safeLen) :
    Gives (p.encode garbage checksumState output) fun r => r.1 = p.wire checksumState ∧
      Holds r.2 (queue ++ Packet.data (.advance (p.wire checksumState))) := by
  set q := (p.resetChecksum checksumState).markAdvancePacket with hq
  have length : (queue ++ Packet.data (.advance (p.wire checksumState))).length =
      (queue ++ q.advHeader.bytes ++ q.body).length := by
    cases checksumState <;> simp [Packet.data, wire, hq]
  rw [length] at small
  refine (writeHeader_gives q.advHeader garbage holds (small_left small)).bind fun _ written => ?_
  refine (DefaultPacket.encode_gives garbage q.toDefaultPacket written small).bind fun output' written => ?_
  have old : output.getDataLen.toNat = queue.length := by
    rw [holds.getDataLen, Int.toNat_natCast]
  cases checksumState with
  | false =>
    rw [append_assoc] at written
    exact ⟨_, rfl, rfl, written⟩
  | true =>
    rw [append_assoc] at written
    have new : output'.getDataLen.toNat - queue.length = (q.advHeader.bytes ++ q.body).length := by
      rw [written.getDataLen, Int.toNat_natCast, length_append, Nat.add_sub_cancel_left]
    have payload := written.peeks (show _ = _ ++ _ ++ [] from (append_nil _).symm)
    have parts : queue ++ (q.advHeader.bytes ++ q.body) = queue ++ be32 q.advHeader.ttlInMs ++
        be32 q.advHeader.packetChecksum ++ (q.advHeader.tailBytes ++ q.body) := by
      simp only [bytes_append, append_assoc]
    have here : queue.length + checksumOffset = (queue ++ be32 q.advHeader.ttlInMs).length := by
      rw [length_append]
      rfl
    have filled := (parts ▸ written).fillInt32 (doCrc32c 0 (q.advHeader.bytes ++ q.body)) here
    rw [append_assoc queue, append_assoc queue] at filled
    have data : Packet.data (.advance (p.wire true)) = be32 q.advHeader.ttlInMs ++
        be32 (doCrc32c 0 (q.advHeader.bytes ++ q.body)) ++ (q.advHeader.tailBytes ++ q.body) :=
      bytes_append { q.advHeader with packetChecksum := _ } q.body
    simp only [if_true, old, new, payload, data, Option.bind_eq_bind, Option.bind_some]
    exact filled.bind fun r holds => ⟨_, rfl, rfl, holds⟩

namespace DefaultPacketStreamer

/-- Encoding a packet that is no control packet appends its frame. -/
theorem encode_gives {p : Packet} (regular : p.isRegularPacket) (holds : output.Holds queue)
    (small : (queue ++ (p.wire checksumState).frame).length ≤ safeLen) :
    Gives (encode checksumState garbage p output) fun r =>
      r.1 = true ∧ Holds r.2.2 (queue ++ (p.wire checksumState).frame) := by
  set q := p.wire checksumState with hq
  have chid : q.header.chid = p.header.chid := by
    cases p with
    | advance p => cases checksumState <;> rfl
    | default p | control c h => rfl
  have draft : (queue ++ q.frame).length = (queue ++ be32 anetPacketFlag ++ be32 p.header.chid ++
      be32 p.header.pcode ++ be32 0 ++ q.data).length := by
    simp only [Packet.frame, length_append, length_be32, Nat.add_assoc]
  rw [draft] at small
  have s₄ := small_left small
  have s₃ := small_left s₄
  have s₂ := small_left s₃
  refine (holds.writeInt32 garbage _ (small_left s₂)).bind fun _ h₁ => ?_
  refine (h₁.writeInt32 garbage _ s₂).bind fun b₂ h₂ => ?_
  refine (h₂.writeInt32 garbage _ s₃).bind fun b₃ h₃ => ?_
  refine (h₃.writeInt32 garbage _ s₄).bind fun b₄ h₄ => ?_
  -- the packet writes itself behind a header that still has its first code and no length
  have body : Gives (p.encode garbage checksumState b₄) fun r =>
      r.1 = true ∧ r.2.1 = q ∧ Holds r.2.2 (queue ++ be32 anetPacketFlag ++ be32 p.header.chid ++
        be32 p.header.pcode ++ be32 0 ++ q.data) := by
    cases p with
    | default p =>
      exact (p.encode_gives garbage h₄ small).bind fun _ holds => ⟨_, rfl, rfl, rfl, holds⟩
    | advance p =>
      exact (p.encode_gives checksumState garbage h₄ small).bind fun _ r =>
        ⟨_, rfl, rfl, congrArg Packet.advance r.1, r.2⟩
    | control c h => cases regular
  refine body.bind fun r told => ?_
  obtain ⟨ok, packet, b₅⟩ := r
  obtain ⟨rfl, rfl, h₅⟩ := told
  have old : output.getDataLen.toNat = queue.length := by
    rw [holds.getDataLen, Int.toNat_natCast]
  have written : b₅.getDataLen.toNat - queue.length - packetInfoLen = q.data.length := by
    rw [h₅.getDataLen]
    simp only [Int.toNat_natCast, length_append, length_be32, packetInfoLen]
    omega
  simp only [if_true, old, written]
  refine (h₅.fillInt32 _ (by rw [h₃.getDataLen, Int.toNat_natCast])).bind fun _ h₆ => ?_
  rw [append_assoc _ (be32 _) q.data] at h₆
  refine (h₆.fillInt32 _ (by rw [h₂.getDataLen, Int.toNat_natCast])).bind fun _ h₇ => ?_
  refine ⟨_, rfl, rfl, ?_⟩
  rw [Packet.header_setHeader] at h₇
  simpa only [Packet.frame, chid, append_assoc] using h₇

end DefaultPacketStreamer

end Writing

/-! ### What a packet reads -/

theorem toInt_ofNat {n : Nat} (small : n ≤ 2 ^ 30) : (ofNat 32 n).toInt = n := by
  have exact : (ofNat 32 n).toNat = n := by
    rw [BitVec.toNat_ofNat]
    omega
  rw [BitVec.toInt_eq_toNat_of_lt (by omega), exact]

theorem sizeT_ofNat {n : Nat} (small : n < 2 ^ 64) : sizeT n = n := by
  rw [sizeT]
  omega

namespace DefaultPacket

/-- A new packet takes any body that a frame can carry. -/
theorem setBody_new (h : PacketHeader) (str : Nat → List UInt8) {n : Nat} (small : n ≤ 2 ^ 30)
    (empty : str 0 = []) :
    setBody { header := h } str n = some { header := h, body := str n, capacity := 2 * n } := by
  unfold setBody
  split
  · rename_i zero
    rw [zero, empty]
  · rename_i positive
    have doubled : sizeT ((n : Int) * 2 + (0 : Nat)) = 2 * n := by
      rw [sizeT]
      omega
    have room : makeRoom { header := h } n = some { header := h, capacity := 2 * n } := by
      simp only [makeRoom, length_nil, doubled]
      rw [if_pos (by rw [sizeT]; omega), if_neg (by rw [sizeT]; omega), setCapacity,
        if_neg (by simp), if_neg (by simp [positive]), if_pos (by rw [maxAlloc]; omega)]
    rw [appendBody, if_neg positive, room]
    rfl

theorem decode_backed {h : PacketHeader} {input : BackedBuffer} {body post : List UInt8}
    (backed : Backed input (body ++ post)) (len : h.dataLen.toInt = body.length) :
    ∃ input', decode { header := h } input =
      (true, { header := h, body, capacity := 2 * body.length }, input') ∧ Backed input' post := by
  have small : body.length ≤ 2 ^ 30 := by
    have short := backed.short
    have bound : safeLen ≤ 2 ^ 30 := by decide
    rw [length_append] at short
    omega
  have size : sizeT body.length = body.length := sizeT_ofNat (by omega)
  have touched : Backed (input.touch 0 body.length) (body ++ post) :=
    ⟨backed.inside, backed.unread, backed.memory, backed.short⟩
  refine ⟨_, ?_, touched.drainData⟩
  simp only [decode, len, size, setBody_new h _ small (show input.peeks 0 0 = [] from rfl),
    peeks_unread_zero backed.unread]

end DefaultPacket

/-! ### The advance header -/

theorem flagsOf_flagsData : flagsOf h.flagsData = h.packetFlags := by
  apply BitVec.eq_of_getLsbD_eq
  intro i hi
  simp only [flagsOf, flagsData, BitVec.getLsbD_extractLsb', BitVec.getLsbD_append]
  simp [hi]

theorem priorityOf_flagsData : priorityOf h.flagsData = h.priority := by
  apply BitVec.eq_of_getLsbD_eq
  intro i hi
  simp only [priorityOf, flagsData, BitVec.getLsbD_extractLsb', BitVec.getLsbD_append]
  simp [hi]

namespace AdvancePacket

theorem readHeader_backed {h : AdvancePacketHeader} {input : BackedBuffer} {post : List UInt8}
    (backed : Backed input (h.bytes ++ post)) :
    ∃ input', readHeader input = (h, input') ∧ Backed input' post := by
  -- one read after the other, each from where the last one stopped
  have fields : h.bytes ++ post = be32 h.ttlInMs ++ (be32 h.packetChecksum ++ (be32 h.chidHigh ++
      ([h.flagsData] ++ ([h.packetVersion] ++ ([h.nextHeaderType] ++ ([h.reserved] ++ post)))))) := by
    simp only [bytes, tailBytes, append_assoc, cons_append, nil_append]
  rw [fields] at backed
  obtain ⟨b₁, r₁, backed⟩ := backed.readInt32
  obtain ⟨b₂, r₂, backed⟩ := backed.readInt32
  obtain ⟨b₃, r₃, backed⟩ := backed.readInt32
  obtain ⟨b₄, r₄, backed⟩ := backed.readInt8
  obtain ⟨b₅, r₅, backed⟩ := backed.readInt8
  obtain ⟨b₆, r₆, backed⟩ := backed.readInt8
  obtain ⟨b₇, r₇, backed⟩ := backed.readInt8
  refine ⟨b₇, ?_, backed⟩
  simp only [readHeader, r₁, r₂, r₃, r₄, r₅, r₆, r₇, flagsOf_flagsData, priorityOf_flagsData]

/-- The checksum method of the header is none, or CRC-32C with the right checksum. -/
def Intact (p : AdvancePacket) : Prop :=
  getChecksumMethod p.advHeader.packetFlags ≠ PACKET_FLAGS_NOCHECKSUM →
    getChecksumMethod p.advHeader.packetFlags = PACKET_FLAGS_CHECKSUM_CRC32C ∧
    p.advHeader.packetChecksum =
      doCrc32c 0 ({ p.advHeader with packetChecksum := 0 }.bytes ++ p.body)

/-- The packet that the receiver builds from the frame of `p`. -/
def received (p : AdvancePacket) : AdvancePacket :=
  { header := { p.header with dataLen := ofNat 32 p.body.length }
    body := p.body
    capacity := 2 * p.body.length
    advHeader := p.advHeader }

section Decode

variable {p : AdvancePacket} {input : BackedBuffer} {post : List UInt8}
  (backed : Backed input (p.advHeader.bytes ++ p.body ++ post))

include backed

theorem decodeFields_backed : ∃ input', decodeFields { header := { p.header with
        dataLen := ofNat 32 (size + p.body.length) } } input = (true, p.received, input') ∧
      Backed input' post := by
  rw [append_assoc] at backed
  obtain ⟨input₁, fields, backed⟩ := readHeader_backed backed
  have dataLen : ofNat 32 (size + p.body.length) - ofNat 32 size = ofNat 32 p.body.length := by
    rw [BitVec.ofNat_add, BitVec.add_comm, BitVec.add_sub_cancel]
  have small : p.body.length ≤ 2 ^ 30 := by
    have short := backed.short
    have bound : safeLen ≤ 2 ^ 30 := by decide
    rw [length_append] at short
    omega
  obtain ⟨input₂, body, backed⟩ := DefaultPacket.decode_backed
    (h := { p.header with dataLen := ofNat 32 p.body.length }) backed (toInt_ofNat small)
  refine ⟨input₂, ?_, backed⟩
  simp only [decodeFields, fields, dataLen, body, received]

/-- A checksum that is right or not looked at leaves the bytes as they were. -/
theorem verifyChecksum_backed (intact : p.Intact) (checksumState : Bool) :
    ∃ input', verifyChecksum checksumState (size + p.body.length) input = (true, input') ∧
      Backed input' (p.advHeader.bytes ++ p.body ++ post) := by
  have parts (h : AdvancePacketHeader) : h.bytes ++ p.body ++ post =
      be32 h.ttlInMs ++ be32 h.packetChecksum ++ (h.tailBytes ++ p.body ++ post) := by
    rw [bytes_append, append_assoc, append_assoc]
  have crc : input.peeks 4 4 = be32 p.advHeader.packetChecksum :=
    peeks_unread (be32 p.advHeader.ttlInMs) (backed.unread.trans (parts _))
  have flag : input.peek 12 = p.advHeader.flagsData := by
    have flags : input.unread = (be32 p.advHeader.ttlInMs ++ be32 p.advHeader.packetChecksum ++
        be32 p.advHeader.chidHigh) ++ [p.advHeader.flagsData] ++
          ([p.advHeader.packetVersion, p.advHeader.nextHeaderType, p.advHeader.reserved] ++
            p.body ++ post) := by
      rw [backed.unread, parts, tailBytes]
      simp only [append_assoc, cons_append, nil_append]
    simpa [peeks] using peeks_unread _ flags
  have touched : Backed ((input.touch 4 4).touch 12 1) (p.advHeader.bytes ++ p.body ++ post) :=
    ⟨backed.inside, backed.unread, backed.memory, backed.short⟩
  simp only [verifyChecksum, checksumOffset, flagsOffset, crc, flag, flagsOf_flagsData]
  by_cases verify : checksumState = true ∧
      getChecksumMethod p.advHeader.packetFlags ≠ PACKET_FLAGS_NOCHECKSUM
  · obtain ⟨method, checked⟩ := intact verify.2
    rw [parts] at touched
    have zeroed : Backed (((input.touch 4 4).touch 12 1).poke 4 [0, 0, 0, 0])
        (be32 p.advHeader.ttlInMs ++ be32 0 ++ (p.advHeader.tailBytes ++ p.body ++ post)) :=
      touched.poke rfl
    have whole : (((input.touch 4 4).touch 12 1).poke 4 [0, 0, 0, 0]).unread =
        { p.advHeader with packetChecksum := 0 }.bytes ++ p.body ++ post :=
      zeroed.unread.trans (parts { p.advHeader with packetChecksum := 0 }).symm
    have seen := peeks_unread_zero whole
    rw [length_append, length_bytes] at seen
    have looked : Backed ((((input.touch 4 4).touch 12 1).poke 4 [0, 0, 0, 0]).touch 0
        (size + p.body.length)) _ :=
      ⟨zeroed.inside, zeroed.unread, zeroed.memory, zeroed.short⟩
    have restored := looked.poke (show _ = (be32 p.advHeader.packetChecksum).length from rfl)
    rw [if_pos verify, if_pos method, seen, ← checked, settleChecksum, ofBe32_be32,
      if_neg (not_not_intro rfl)]
    exact ⟨_, rfl, parts p.advHeader ▸ restored⟩
  · rw [if_neg verify]
    exact ⟨_, rfl, touched⟩

/-- With the checksum right or not looked at, decoding rebuilds the packet and consumes
exactly its data. -/
theorem decode_backed (intact : p.Intact) (checksumState : Bool) :
    ∃ input', decode checksumState { header := { p.header with
        dataLen := ofNat 32 (size + p.body.length) } } input = (true, p.received, input') ∧
      Backed input' post := by
  have small : size + p.body.length ≤ 2 ^ 30 := by
    have short := backed.short
    have bound : safeLen ≤ 2 ^ 30 := by decide
    rw [length_append, length_append, length_bytes] at short
    omega
  obtain ⟨input₁, verified, backed⟩ := verifyChecksum_backed backed intact checksumState
  obtain ⟨input₂, fields, backed⟩ := decodeFields_backed backed
  refine ⟨input₂, ?_, backed⟩
  simp only [decode, toInt_ofNat small, Int.toNat_natCast, verified, fields]

end Decode

end AdvancePacket

/-! ### Frames -/

/-- The checksum method and the checksum that `encode` sets are the ones `decode` expects. -/
theorem AdvancePacket.intact_wire (p : AdvancePacket) : (p.wire checksumState).Intact := by
  cases checksumState with
  | false =>
    have none : ∀ flags : BitVec 5,
        getChecksumMethod (setChecksumMethod PACKET_FLAGS_NOCHECKSUM flags) =
          PACKET_FLAGS_NOCHECKSUM := by decide
    exact fun method => absurd (none p.advHeader.packetFlags) method
  | true =>
    have crc32c : ∀ flags : BitVec 5,
        getChecksumMethod (setChecksumMethod PACKET_FLAGS_CHECKSUM_CRC32C flags) =
          PACKET_FLAGS_CHECKSUM_CRC32C := by decide
    exact fun _ => ⟨crc32c p.advHeader.packetFlags, rfl⟩

namespace Packet

/-- A packet on the wire that the receiver can rebuild. -/
def Framed : Packet → Prop
  | .default p => isAdvancePacket p.header.pcode = false ∧ p.body.length ≤ 2 ^ 30
  | .advance p => isAdvancePacket p.header.pcode = true ∧
      AdvancePacketHeader.size + p.body.length ≤ 2 ^ 30 ∧ p.Intact
  | .control _ _ => False

/-- The header that the receiver reads from the frame. -/
def announced (p : Packet) : PacketHeader :=
  { p.header with dataLen := ofNat 32 p.data.length }

/-- The packet that the receiver makes from the header alone. -/
def blank (p : Packet) : Packet := (createPacket p.header.pcode).setHeader p.announced

/-- The packet that the receiver builds from the frame of `p`. -/
def received : Packet → Packet
  | .default p => .default
      { header := { p.header with dataLen := ofNat 32 p.body.length }
        body := p.body
        capacity := 2 * p.body.length }
  | .advance p => .advance p.received
  | .control c h => .control c h

theorem Framed.length_data {p : Packet} (framed : p.Framed) : p.data.length ≤ 2 ^ 30 := by
  cases p with
  | default p => exact framed.2
  | advance p => simpa [data] using framed.2.1
  | control c h => exact framed.elim

theorem Framed.dataLen {p : Packet} (framed : p.Framed) :
    p.announced.dataLen.toInt = p.data.length := toInt_ofNat framed.length_data

/-- From the data of a frame, the receiver's packet is completed and nothing else is read. -/
theorem decode_received {p : Packet} (framed : p.Framed) (checksumState : Bool)
    {input : BackedBuffer} {post : List UInt8} (backed : Backed input (p.data ++ post)) :
    ∃ input', p.blank.decode checksumState input = (true, p.received, input') ∧
      Backed input' post := by
  cases p with
  | default p =>
    obtain ⟨input', decoded, backed⟩ := DefaultPacket.decode_backed backed framed.dataLen
    have kind : createPacket p.header.pcode = .default {} := by simp [createPacket, framed.1]
    refine ⟨input', ?_, backed⟩
    simp only [blank, header, kind, setHeader, Packet.decode, decoded]
    rfl
  | advance p =>
    obtain ⟨input', decoded, backed⟩ := AdvancePacket.decode_backed backed framed.2.2 checksumState
    have kind : createPacket p.header.pcode = .advance {} := by simp [createPacket, framed.1]
    have length : p.advHeader.bytes.length + p.body.length =
      size + p.body.length := rfl
    refine ⟨input', ?_, backed⟩
    simp only [blank, announced, header, kind, setHeader, data, length_append, length,
      Packet.decode, decoded, received]
  | control c h => exact framed.elim

end Packet

end AgentEngine.Anet
