import AgentEngine.Anet.FrameCodec

/-!
Framing on arbitrary input: what completing a packet reads, consumes and leaves.

* `decode_drained`: whatever the bytes are, a decoded packet is drained.
* `Sound.reach`: in every reachable state, a packet in the context was made from the sixteen
  bytes in front of the read position.
* `completed_exact_iff`: exactly which frames are read and consumed to their announced end
  and not beyond it.
-/

namespace AgentEngine.Anet

open Lib TCPConnection DataBuffer Packet

/-! ### Draining -/

/-- The read position has moved by `len` and no byte was added or lost. -/
structure Drained (len : Int) (input output : DataBuffer) : Prop where
  length : output.mem.length = input.mem.length
  pdata : output.pdata = min (input.pdata + len).toNat input.mem.length

/-- The length left for the body: the subtraction of `sizeof(AdvancePacketHeader)` wraps
around only for lengths that are negative already. -/
theorem toInt_sub_size (d : BitVec 32) :
    0 ≤ d.toInt → 16 + (d - BitVec.ofNat 32 AdvancePacketHeader.size).toInt = d.toInt := by
  have low := d.le_toInt
  have high := d.toInt_lt
  rw [BitVec.toInt_sub, show (BitVec.ofNat 32 AdvancePacketHeader.size).toInt = 16 from rfl,
    Int.bmod]
  omega

namespace DefaultPacket

theorem decode_drained (p : DefaultPacket) (input : DataBuffer) :
    Drained p.header.dataLen.toInt input (p.decode input).2.2 := by
  rw [decode]
  split
  · exact ⟨rfl, rfl⟩
  · exact ⟨rfl, rfl⟩

end DefaultPacket

namespace AdvancePacket

variable (input : DataBuffer)

theorem readHeader_input : (readHeader input).2 = input.skip AdvancePacketHeader.size := by
  simp only [readHeader, readInt32, readInt8, take, skip_skip, AdvancePacketHeader.size]

variable (checksumState : Bool) (p : AdvancePacket)

/-- The packet that the rest of `decode` hands to `DefaultPacket::decode`. -/
def payload : DefaultPacket :=
  { p.toDefaultPacket with
    header.dataLen := p.header.dataLen - BitVec.ofNat 32 AdvancePacketHeader.size }

theorem decodeFields_eq : p.decodeFields input =
      ((p.payload.decode (input.skip AdvancePacketHeader.size)).1,
        { toDefaultPacket := (p.payload.decode (input.skip AdvancePacketHeader.size)).2.1
          advHeader := (readHeader input).1 },
        (p.payload.decode (input.skip AdvancePacketHeader.size)).2.2) := by
  rw [← readHeader_input, decodeFields]
  rfl

theorem decodeFields_drained :
    Drained (16 + (p.header.dataLen - BitVec.ofNat 32 AdvancePacketHeader.size).toInt) input
      (p.decodeFields input).2.2 := by
  obtain ⟨length, pdata⟩ := p.payload.decode_drained (input.skip AdvancePacketHeader.size)
  rw [decodeFields_eq]
  refine ⟨length, ?_⟩
  rw [pdata]
  simp only [payload, skip, touch, AdvancePacketHeader.size]
  omega

/-- `looked` is `input` after the checksum was looked at: bytes may have been overwritten,
and the ghost mark covers the flags byte and no more than the announced length. -/
structure Looked (len : Nat) (input looked : DataBuffer) : Prop where
  length : looked.mem.length = input.mem.length
  pdata : looked.pdata = input.pdata
  low : max input.reach (input.pdata + 13) ≤ looked.reach
  high : looked.reach ≤ max (max input.reach (input.pdata + 13)) (input.pdata + len)

theorem Looked.poke {len : Nat} {input looked : DataBuffer} (h : Looked len input looked)
    (i : Nat) (bytes : List UInt8) : Looked len input (looked.poke i bytes) :=
  ⟨(length_overwrite ..).trans h.length, h.pdata, h.low, h.high⟩

theorem Looked.touch {len : Nat} {input looked : DataBuffer} (h : Looked len input looked) :
    Looked len input (looked.touch 0 len) := by
  obtain ⟨length, pdata, low, high⟩ := h
  refine ⟨length, pdata, ?_, ?_⟩ <;> simp only [DataBuffer.touch] <;> omega

theorem Looked.settle {len : Nat} {input looked : DataBuffer} (h : Looked len input looked)
    (pktCRC : List UInt8) (checkSum : BitVec 32) :
    Looked len input (settleChecksum pktCRC checkSum looked).2 := by
  unfold settleChecksum
  split
  · exact h
  · exact h.poke ..

theorem verifyChecksum_looked (len : Nat) (input : DataBuffer) :
    Looked len input (verifyChecksum checksumState len input).2 := by
  have first : Looked len input ((input.touch 4 4).touch 12 1) := by
    constructor <;> simp only [touch] <;> omega
  simp only [verifyChecksum]
  split_ifs
  · exact (first.poke ..).touch.settle ..
  · exact (first.poke ..).settle ..
  · exact first

/-- The receiver verifies checksums, the flags of the frame ask for one, and it is wrong:
for CRC-32C it is not that of the announced data with the checksum field zeroed, for any
other method it is not zero. `data` starts at the first byte of the frame's data. -/
def ChecksumWrong (len : Nat) (data : DataBuffer) : Prop :=
  let method := getChecksumMethod (flagsOf (data.peek AdvancePacketHeader.flagsOffset))
  let zeroed := data.poke AdvancePacketHeader.checksumOffset [0, 0, 0, 0]
  checksumState = true ∧ method ≠ PACKET_FLAGS_NOCHECKSUM ∧
    ofBe32 (data.peeks AdvancePacketHeader.checksumOffset 4) ≠
      if method = PACKET_FLAGS_CHECKSUM_CRC32C then doCrc32c 0 (zeroed.peeks 0 len) else 0

theorem verifyChecksum_eq_false_iff (len : Nat) (input : DataBuffer) :
    (verifyChecksum checksumState len input).1 = false ↔
      ChecksumWrong checksumState len input := by
  have settled : ∀ pktCRC checkSum (b : DataBuffer), (settleChecksum pktCRC checkSum b).1 = false ↔
      ofBe32 pktCRC ≠ checkSum := by
    intro pktCRC checkSum b
    unfold settleChecksum
    split
    · rename_i wrong
      exact ⟨fun _ => wrong, fun _ => rfl⟩
    · rename_i right
      exact ⟨(fun h => by cases h), fun h => absurd h right⟩
  simp only [verifyChecksum, ChecksumWrong]
  split
  · rename_i verify
    split
    · rw [settled]
      exact ⟨fun wrong => ⟨verify.1, verify.2, wrong⟩, fun h => h.2.2⟩
    · rw [settled]
      exact ⟨fun wrong => ⟨verify.1, verify.2, wrong⟩, fun h => h.2.2⟩
  · rename_i skipped
    exact ⟨(fun h => by cases h), fun h => absurd ⟨h.1, h.2.1⟩ skipped⟩

theorem decode_eq : p.decode checksumState input =
      if (verifyChecksum checksumState p.header.dataLen.toInt.toNat input).1 then
        p.decodeFields (verifyChecksum checksumState p.header.dataLen.toInt.toNat input).2
      else (false, p,
        (verifyChecksum checksumState p.header.dataLen.toInt.toNat input).2.drainData
          p.header.dataLen.toInt) := by
  simp only [decode]
  rcases verifyChecksum checksumState p.header.dataLen.toInt.toNat input with ⟨_ | _, b⟩
  · rfl
  · rfl

end AdvancePacket

/-- Whatever it holds, a decoded packet moves the read position by its length if that is not
negative. -/
theorem Packet.decode_drained (checksumState : Bool) {p : Packet} (regular : p.isRegularPacket)
    (input : DataBuffer) :
    ∃ len, (0 ≤ p.header.dataLen.toInt → len = p.header.dataLen.toInt) ∧
      Drained len input (p.decode checksumState input).2.2 := by
  cases p with
  | default p => exact ⟨_, fun _ => rfl, p.decode_drained input⟩
  | advance p =>
    have looked := AdvancePacket.verifyChecksum_looked checksumState p.header.dataLen.toInt.toNat input
    simp only [decode, header, AdvancePacket.decode_eq]
    split
    · have fields := p.decodeFields_drained
        (AdvancePacket.verifyChecksum checksumState p.header.dataLen.toInt.toNat input).2
      refine ⟨_, toInt_sub_size p.header.dataLen, fields.length.trans looked.length, ?_⟩
      rw [fields.pdata, looked.pdata, looked.length]
    · refine ⟨_, fun _ => rfl, looked.length, ?_⟩
      simp only [drainData, looked.pdata, looked.length]
  | control c h => cases regular

namespace DefaultPacketStreamer

theorem regular_createPacket (h : PacketHeader) :
    ((createPacket h.pcode).setHeader h).isRegularPacket := by
  unfold createPacket
  split <;> rfl

theorem readInfo_input (input : DataBuffer) : (readInfo input).2.2 = input.skip packetInfoLen := by
  simp only [readInfo, readInt32, take, skip_skip, packetInfoLen]

/-- The three answers of `getPacketInfo`. -/
theorem getPacketInfo_cases (input : DataBuffer) :
    (input.getDataLen < packetInfoLen ∧ getPacketInfo input = (.incomplete, input)) ∨
    getPacketInfo input = (.broken, input.skip packetInfoLen) ∨
    ((packetInfoLen : Int) ≤ input.getDataLen ∧ 0 ≤ (readInfo input).2.1.dataLen.toInt ∧
      (readInfo input).2.1.dataLen.toInt ≤ maxPackageSize ∧
      getPacketInfo input = (.header (readInfo input).2.1, input.skip packetInfoLen)) := by
  have rest := readInfo_input input
  unfold getPacketInfo
  split
  · rename_i short
    exact .inl ⟨short, rfl⟩
  · rename_i enough
    split
    rename_i flag h input' info
    rw [info] at rest
    simp only at rest
    split
    · exact .inr (.inl (by rw [rest]))
    · rename_i valid
      rw [info, rest]
      simp only [and_true]
      exact .inr (.inr (by omega))

/-! ### One pass -/

variable (checksumState : Bool) (c : Conn) (p : Packet)

variable {context : StreamingContext Packet Unit}

theorem processData_held {p : Packet}
    (held : context.packet = some p) (checksumState : Bool) (input : DataBuffer) :
    processData checksumState input context =
      processPacket checksumState p input.mark context := by
  simp only [processData, held]

/-- With no packet in the context: too few bytes, a broken header, or a new packet. -/
theorem processData_idle (idle : context.packet = none)
    (checksumState : Bool) (input : DataBuffer) :
    processData checksumState input context =
        (!context.eof, input.mark, { context with broken := false }) ∨
    processData checksumState input context =
        (false, input.mark.skip packetInfoLen, { context with broken := true }) ∨
    ((packetInfoLen : Int) ≤ input.getDataLen ∧
      0 ≤ (readInfo input.mark).2.1.dataLen.toInt ∧
      (readInfo input.mark).2.1.dataLen.toInt ≤ maxPackageSize ∧
      processData checksumState input context =
        processPacket checksumState
          ((createPacket (readInfo input.mark).2.1.pcode).setHeader (readInfo input.mark).2.1)
          (input.mark.skip packetInfoLen) context) := by
  simp only [processData, idle]
  rcases getPacketInfo_cases input.mark with ⟨-, info⟩ | info | ⟨enough, low, high, info⟩
  · exact .inl (by rw [info])
  · exact .inr (.inl (by rw [info]))
  · exact .inr (.inr ⟨enough, low, high, by rw [info]; rfl⟩)

/-! ### The frame a packet comes from -/

/-- The part of the connection that the streamer reads with. -/
abbrev Conn := Reading Packet Unit

/-- The offset in the stream of the current frame: the header of a packet in the context has
been read already. -/
def frameStart : Nat :=
  match c.context.packet with
  | none => c.input.pdata
  | some _ => c.input.pdata - packetInfoLen

/-- The header that the stream holds there. -/
def announced : PacketHeader :=
  (readInfo { c.input with pdata := frameStart c }).2.1

/-- The length it announces. -/
def announcedLen : Nat := (announced c).dataLen.toInt.toNat

/-- The input at the first byte of the frame's data. -/
def atData : DataBuffer :=
  { c.input with
    pdata := frameStart c + packetInfoLen
    reach := frameStart c + packetInfoLen }

/-- What holds between two rounds of the read loop. -/
structure Sound (c : Conn) : Prop where
  inside : c.input.pdata ≤ c.input.mem.length
  uncompleted : c.context.completed = false
  header : ∀ p, c.context.packet = some p →
    packetInfoLen ≤ c.input.pdata ∧ 0 ≤ (announced c).dataLen.toInt ∧
      (announced c).dataLen.toInt ≤ maxPackageSize ∧
      p = (createPacket (announced c).pcode).setHeader (announced c)

theorem readInfo_header (input : DataBuffer) :
    (readInfo input).2.1 = ⟨ofBe32 (input.peeks 4 4), ofBe32 (input.peeks 8 4),
      ofBe32 (input.peeks 12 4)⟩ := rfl

/-- Bytes that come in later do not change what was read. -/
theorem readInfo_pourData {input : DataBuffer}
    (enough : input.pdata + packetInfoLen ≤ input.mem.length) (bytes : List UInt8) :
    (readInfo (input.pourData bytes)).2.1 = (readInfo input).2.1 := by
  have same : ∀ i n, i + n ≤ packetInfoLen →
      (input.pourData bytes).peeks i n = input.peeks i n := by
    intro i n within
    refine List.map_congr_left fun j hj => ?_
    have := (List.mem_range'_1.mp hj).2
    simp only [peek, pourData, List.getD_eq_getElem?_getD]
    rw [List.getElem?_append_left (by omega)]
  have size : packetInfoLen = 16 := rfl
  rw [readInfo_header, readInfo_header, same 4 4 (by omega), same 8 4 (by omega),
    same 12 4 (by omega)]

theorem Sound.start (slack : Nat → UInt8) : Sound (start (streamer checksumState) slack) :=
  ⟨Nat.zero_le _, rfl, nofun⟩

theorem Sound.receive {c : Conn} (h : Sound c) (bytes : List UInt8) : Sound (receive bytes c) := by
  refine ⟨pourData_inside h.inside bytes, h.uncompleted, ?_⟩
  intro p held
  obtain ⟨read, low, high, made⟩ := h.header p held
  have start : frameStart c = c.input.pdata - packetInfoLen := by
    simp only [frameStart, show c.context.packet = some p from held]
  have same : announced (TCPConnection.receive bytes c) = announced c := by
    have moved : ({ c.input.pourData bytes with pdata := frameStart c } : DataBuffer) =
        { c.input with pdata := frameStart c }.pourData bytes := rfl
    have start' : frameStart (TCPConnection.receive bytes c) = frameStart c := by
      simp only [frameStart, TCPConnection.receive, pourData, ensureFree_eq]
    have inside := h.inside
    rw [announced, announced, start', TCPConnection.receive, ensureFree_eq, moved]
    exact readInfo_pourData (by simp only [start]; omega) bytes
  rw [same]
  exact ⟨read, low, high, made⟩

/-- One round: it waits for a header, it breaks off, or the packet made from the header of the
current frame meets the input at the frame's data. -/
theorem Sound.current {c : Conn} (h : Sound c) (checksumState : Bool) :
    (c.context.packet = none ∧ processData checksumState c.input c.context =
      (!c.context.eof, c.input.mark, { c.context with broken := false })) ∨
    processData checksumState c.input c.context =
      (false, c.input.mark.skip packetInfoLen, { c.context with broken := true }) ∨
    (frameStart c + packetInfoLen ≤ c.input.mem.length ∧ 0 ≤ (announced c).dataLen.toInt ∧
      (announced c).dataLen.toInt ≤ maxPackageSize ∧
      processData checksumState c.input c.context =
        processPacket checksumState ((createPacket (announced c).pcode).setHeader (announced c))
          (atData c) c.context) := by
  have inside := h.inside
  cases held : c.context.packet with
  | some p =>
    obtain ⟨read, low, high, made⟩ := h.header p held
    have start : frameStart c + packetInfoLen = c.input.pdata := by
      simp only [frameStart, held]
      omega
    refine .inr (.inr ⟨by omega, low, high, ?_⟩)
    rw [processData_held held, ← made, atData, start]
    rfl
  | none =>
    have start : frameStart c = c.input.pdata := by simp only [frameStart, held]
    have header : (readInfo c.input.mark).2.1 = announced c := by
      rw [announced, start, readInfo_header, readInfo_header]
      rfl
    have data : c.input.mark.skip packetInfoLen = atData c := by
      simp only [atData, start, mark, skip, touch, mk.injEq, true_and, and_true]
      omega
    rcases processData_idle held checksumState c.input with hd | hd | ⟨enough, low, high, hd⟩
    · exact .inl ⟨rfl, hd⟩
    · exact .inr (.inl hd)
    · rw [header] at low high hd
      rw [data] at hd
      rw [getDataLen_eq inside, unread, List.length_drop] at enough
      have size : packetInfoLen = 16 := rfl
      exact .inr (.inr ⟨by omega, low, high, hd⟩)

/-- What `processPacket` comes to: it waits for more data, or it decodes. -/
theorem processPacket_cases (input : DataBuffer) (context : StreamingContext Packet Unit) :
    (input.getDataLen < p.header.dataLen.toInt ∧ processPacket checksumState p input context =
      (!context.eof, input, { context with packet := some p, broken := context.eof })) ∨
    (p.header.dataLen.toInt ≤ input.getDataLen ∧ processPacket checksumState p input context =
      (true, (p.decode checksumState input).2.2,
        { context with
          packet := some (if (p.decode checksumState input).1 then (p.decode checksumState input).2.1
            else .control .badPacket (p.decode checksumState input).2.1.header)
          completed := true })) := by
  unfold processPacket
  split
  · rename_i short
    exact .inl ⟨short, rfl⟩
  · rename_i enough
    exact .inr ⟨by omega, rfl⟩

theorem Sound.deliver {c c' : Conn} {item : Packet} (h : Sound c) {checksumState : Bool}
    (hp : (readData (streamer checksumState)).pass c = .deliver item c') : Sound c' := by
  obtain ⟨packet, context, hd, completed, delivered, -, idle⟩ := pass_deliver hp
  replace hd : processData checksumState c.input c.context = (true, c'.input, context) := hd
  refine ⟨?_, by rw [idle], fun p held => by rw [idle] at held; cases held⟩
  rcases h.current checksumState with ⟨none, hd'⟩ | hd' | ⟨-, -, -, hd'⟩
  · have same := hd.symm.trans hd'
    simp only [Prod.mk.injEq] at same
    obtain ⟨-, -, rfl⟩ := same
    cases delivered.symm.trans none
  · cases hd.symm.trans hd'
  · rcases processPacket_cases checksumState _ (atData c) c.context with ⟨-, hc⟩ | ⟨-, hc⟩
    · have same := (hd.symm.trans hd').trans hc
      simp only [Prod.mk.injEq] at same
      obtain ⟨-, -, rfl⟩ := same
      cases completed.symm.trans h.uncompleted
    · obtain ⟨len, -, length, pdata⟩ := decode_drained checksumState
        (regular_createPacket (announced c)) (atData c)
      have moved := congrArg (fun r => r.2.1) ((hd.symm.trans hd').trans hc)
      simp only at moved
      rw [moved, pdata, length]
      exact Nat.min_le_right ..

/-- Once the header has been read, the frame still starts where it did. -/
theorem announced_atData {p : Packet}
    (held : context.packet = some p) : announced ⟨atData c, context⟩ = announced c := by
  have start : frameStart ⟨atData c, context⟩ = frameStart c := by
    simp only [frameStart, held, atData, Nat.add_sub_cancel]
  rw [announced, announced, start, readInfo_header, readInfo_header]
  rfl

theorem Sound.starve {c c' : Conn} (h : Sound c) {checksumState : Bool}
    (hp : (readData (streamer checksumState)).pass c = .starve c') : Sound c' := by
  obtain ⟨ok, hd, unfinished, intact⟩ := pass_starve hp
  replace hd : processData checksumState c.input c.context = (ok, c'.input, c'.context) := hd
  obtain ⟨input', context'⟩ := c'
  rcases h.current checksumState with ⟨none, hd'⟩ | hd' | ⟨inside, low, high, hd'⟩
  · cases hd.symm.trans hd'
    exact ⟨h.inside, h.uncompleted, fun p held => nomatch held.symm.trans none⟩
  · cases hd.symm.trans hd'
    cases intact
  · rcases processPacket_cases checksumState _ (atData c) c.context with ⟨-, hc⟩ | ⟨-, hc⟩
    · have same := (hd.symm.trans hd').trans hc
      simp only [Prod.mk.injEq] at same
      obtain ⟨-, rfl, rfl⟩ := same
      refine ⟨inside, h.uncompleted, ?_⟩
      intro p held
      rw [announced_atData c held]
      cases held
      exact ⟨Nat.le_add_left .., low, high, rfl⟩
    · have done := congrArg (fun r => (r.1, r.2.2.completed)) ((hd.symm.trans hd').trans hc)
      injection done with hok hdone
      cases (unfinished hok).symm.trans hdone

theorem Sound.reach {checksumState : Bool} {slack : Nat → UInt8} {c : Conn}
    (reach : (readData (streamer checksumState)).Reach (TCPConnection.start (streamer checksumState) slack) c) :
    Sound c :=
  reach.inv (Sound.start checksumState slack) (fun bytes _ h => h.receive bytes)
    (fun _ _ _ h hp => h.deliver hp) (fun _ _ h hp => h.starve hp)

/-! ### How far a completed packet reads -/

/-- `processData` completes a packet. -/
def Completes : Prop :=
  (processData checksumState c.input c.context).2.2.completed = true

/-- The completed packet has consumed its header and the announced data, has not touched a
byte behind them, and its data length is not negative. -/
structure Exact (checksumState : Bool) (c : Conn) : Prop where
  consumed : (processData checksumState c.input c.context).2.1.pdata =
    frameStart c + packetInfoLen + announcedLen c
  reach : (processData checksumState c.input c.context).2.1.reach ≤
    frameStart c + packetInfoLen + announcedLen c
  dataLen : ∀ p, (processData checksumState c.input c.context).2.2.packet = some p →
    0 ≤ p.header.dataLen.toInt

/-- The frame is long enough for what decoding looks at: the advance header if its code has
the bit for advance packets, or only the checksum and the flags if its checksum is wrong. -/
def LongEnough : Prop :=
  isAdvancePacket (announced c).pcode = true → AdvancePacketHeader.size ≤ announcedLen c ∨
    (AdvancePacketHeader.flagsOffset < announcedLen c ∧
      AdvancePacket.ChecksumWrong checksumState (announcedLen c) (atData c))

end DefaultPacketStreamer

namespace DefaultPacket

theorem decode_reach_le (p : DefaultPacket) (input : DataBuffer) :
    input.reach ≤ (p.decode input).2.2.reach := by
  simp only [decode]
  split
  · exact le_max_left ..
  · exact le_rfl

/-- A new packet whose data are there reads them and nothing else. -/
theorem decode_new {h : PacketHeader} (input : DataBuffer) (low : 0 ≤ h.dataLen.toInt)
    (high : h.dataLen.toInt ≤ 2 ^ 30)
    (enough : input.pdata + h.dataLen.toInt.toNat ≤ input.mem.length) :
    ∃ p : DefaultPacket, p.header = h ∧
      decode { header := h } input = (true, p, input.skip h.dataLen.toInt.toNat) := by
  set n := h.dataLen.toInt.toNat with hn
  have split : input.unread = input.unread.take n ++ input.unread.drop n :=
    (List.take_append_drop ..).symm
  have length : (input.unread.take n).length = n := by
    rw [List.length_take_of_le]
    rw [unread, List.length_drop]
    omega
  have drained := drainData_touch split (by omega)
  have len : h.dataLen.toInt = n := by omega
  have size : sizeT n = n := sizeT_ofNat (by omega)
  have body := setBody_new h (input.peeks 0) (n := n) (by omega) rfl
  rw [length] at drained
  refine ⟨{ header := h, body := input.peeks 0 n, capacity := 2 * n }, rfl, ?_⟩
  simp only [decode, len, size, body, drained]

end DefaultPacket

namespace AdvancePacket

section Short

variable {h : PacketHeader} {input : DataBuffer} (low : 0 ≤ h.dataLen.toInt)
  (high : h.dataLen.toInt ≤ 2 ^ 30)
  (enough : input.pdata + h.dataLen.toInt.toNat ≤ input.mem.length)

include low high enough

/-- With room for the advance header, the fields and the body take the announced length. -/
theorem decodeFields_new (long : AdvancePacketHeader.size ≤ h.dataLen.toInt.toNat) :
    ∃ p : AdvancePacket, 0 ≤ p.header.dataLen.toInt ∧
      decodeFields { header := h } input = (true, p, input.skip h.dataLen.toInt.toNat) := by
  have size : AdvancePacketHeader.size = 16 := rfl
  have left := toInt_sub_size h.dataLen low
  obtain ⟨p, hp, body⟩ := DefaultPacket.decode_new
    (h := { h with dataLen := h.dataLen - BitVec.ofNat 32 AdvancePacketHeader.size })
    (input.skip AdvancePacketHeader.size) (by simp only; omega) (by simp only; omega)
    (by simp only [skip, touch]; omega)
  have total : AdvancePacketHeader.size +
      (h.dataLen - BitVec.ofNat 32 AdvancePacketHeader.size).toInt.toNat = h.dataLen.toInt.toNat := by
    omega
  simp only [skip_skip, total] at body
  refine ⟨{ toDefaultPacket := p, advHeader := (readHeader input).1 }, ?_, ?_⟩
  · rw [hp]
    simp only
    omega
  · rw [decodeFields_eq, payload]
    simp only [body]

/-- A new advance packet reads no further than its announced end exactly if it is long
enough for the advance header, or for the checksum and the flags if the checksum is wrong. -/
theorem decode_reach_iff (checksumState : Bool) (marked : input.reach = input.pdata) :
    ((decode checksumState { header := h } input).2.2.reach ≤
          input.pdata + h.dataLen.toInt.toNat ∧
        0 ≤ (decode checksumState { header := h } input).2.1.header.dataLen.toInt) ↔
      AdvancePacketHeader.size ≤ h.dataLen.toInt.toNat ∨
        (AdvancePacketHeader.flagsOffset < h.dataLen.toInt.toNat ∧
          ChecksumWrong checksumState h.dataLen.toInt.toNat input) := by
  have size : AdvancePacketHeader.size = 16 := rfl
  have flags : AdvancePacketHeader.flagsOffset = 12 := rfl
  obtain ⟨length, pdata, least, most⟩ :=
    verifyChecksum_looked checksumState h.dataLen.toInt.toNat input
  have wrong := verifyChecksum_eq_false_iff checksumState h.dataLen.toInt.toNat input
  rw [decode_eq]
  simp only
  cases hv : (verifyChecksum checksumState h.dataLen.toInt.toNat input).1 with
  | false =>
    have bad := wrong.mp hv
    simp only [Bool.false_eq_true, if_false, drainData, bad, and_true, low]
    omega
  | true =>
    have good : ¬ ChecksumWrong checksumState h.dataLen.toInt.toNat input := by
      rw [← wrong, hv]
      decide
    simp only [if_true, good, and_false, or_false]
    constructor
    · rintro ⟨reach, -⟩
      -- the sixteen bytes of the advance header are read in any case
      have grows := DefaultPacket.decode_reach_le
        (payload { header := h })
        ((verifyChecksum checksumState h.dataLen.toInt.toNat input).2.skip AdvancePacketHeader.size)
      rw [decodeFields_eq] at reach
      simp only [skip, touch] at grows reach
      omega
    · intro long
      have enough' : (verifyChecksum checksumState h.dataLen.toInt.toNat input).2.pdata +
          h.dataLen.toInt.toNat ≤
            (verifyChecksum checksumState h.dataLen.toInt.toNat input).2.mem.length := by
        omega
      obtain ⟨p, dataLen, fields⟩ := decodeFields_new low high enough' long
      rw [fields]
      refine ⟨?_, dataLen⟩
      simp only [skip, touch]
      omega

end Short

end AdvancePacket

namespace DefaultPacketStreamer

/-- What a round that completes a packet has done. -/
theorem Sound.completes {c : Conn} (h : Sound c) {checksumState : Bool}
    (done : Completes checksumState c) :
    0 ≤ (announced c).dataLen.toInt ∧ (announced c).dataLen.toInt ≤ maxPackageSize ∧
    (atData c).pdata + announcedLen c ≤ (atData c).mem.length ∧
    ∃ r, ((createPacket (announced c).pcode).setHeader (announced c)).decode checksumState
        (atData c) = r ∧
      (processData checksumState c.input c.context).2.1 = r.2.2 ∧
      (processData checksumState c.input c.context).2.2.packet =
        some (if r.1 then r.2.1 else .control .badPacket r.2.1.header) := by
  unfold Completes at done
  rcases h.current checksumState with ⟨-, hd⟩ | hd | ⟨inside, low, high, hd⟩
  · rw [hd] at done
    cases done.symm.trans h.uncompleted
  · rw [hd] at done
    cases done.symm.trans h.uncompleted
  · rw [hd] at done ⊢
    rcases processPacket_cases checksumState
      ((createPacket (announced c).pcode).setHeader (announced c)) (atData c) c.context with
      ⟨-, hc⟩ | ⟨enough, hc⟩
    · rw [hc] at done
      cases done.symm.trans h.uncompleted
    · rw [hc]
      refine ⟨low, high, ?_, _, rfl, rfl, rfl⟩
      rw [header_setHeader, getDataLen] at enough
      rw [announcedLen]
      omega

/-- How far a packet made from a header reads, if its data are there. -/
theorem decode_exact_iff (checksumState : Bool) {h : PacketHeader} {input : DataBuffer}
    (low : 0 ≤ h.dataLen.toInt) (high : h.dataLen.toInt ≤ maxPackageSize)
    (enough : input.pdata + h.dataLen.toInt.toNat ≤ input.mem.length)
    (marked : input.reach = input.pdata) :
    ((((createPacket h.pcode).setHeader h).decode checksumState input).2.2.reach ≤
          input.pdata + h.dataLen.toInt.toNat ∧
        0 ≤ (((createPacket h.pcode).setHeader h).decode checksumState input).2.1.header.dataLen.toInt) ↔
      (isAdvancePacket h.pcode = true → AdvancePacketHeader.size ≤ h.dataLen.toInt.toNat ∨
        (AdvancePacketHeader.flagsOffset < h.dataLen.toInt.toNat ∧
          AdvancePacket.ChecksumWrong checksumState h.dataLen.toInt.toNat input)) := by
  cases kind : isAdvancePacket h.pcode with
  | true =>
    have made : (createPacket h.pcode).setHeader h = .advance { header := h } := by
      simp [createPacket, kind, setHeader]
    rw [made]
    have short := AdvancePacket.decode_reach_iff low high enough checksumState marked
    exact short.trans ⟨fun h _ => h, fun h => h rfl⟩
  | false =>
    have made : (createPacket h.pcode).setHeader h = .default { header := h } := by
      simp [createPacket, kind, setHeader]
    obtain ⟨p, hp, decoded⟩ := DefaultPacket.decode_new input low high enough
    simp only [made, decode, decoded, header, hp, low, and_true,
      Bool.false_eq_true, false_imp_iff, iff_true, skip, touch]
    omega

/-- **Framing on arbitrary input.** In every reachable state, whatever bytes have come in and
however they were cut, completing a packet moves the read position to the end of the
announced frame. Nothing behind that end has been touched, and the packet's data length is
not negative, exactly if the frame was long enough for what decoding looks at. -/
theorem completed_exact_iff {checksumState : Bool} {slack : Nat → UInt8} {c : Conn}
    (reach : (readData (streamer checksumState)).Reach
      (TCPConnection.start (streamer checksumState) slack) c)
    (done : Completes checksumState c) :
    (processData checksumState c.input c.context).2.1.pdata =
        frameStart c + packetInfoLen + announcedLen c ∧
      (Exact checksumState c ↔ LongEnough checksumState c) := by
  obtain ⟨low, high, enough, r, hr, input, packet⟩ := (Sound.reach reach).completes done
  obtain ⟨len, exact, length, pdata⟩ := decode_drained checksumState
    (regular_createPacket (announced c)) (atData c)
  have decoded := decode_exact_iff checksumState low high enough rfl
  rw [header_setHeader] at exact
  rw [hr] at pdata decoded
  have consumed : r.2.2.pdata = frameStart c + packetInfoLen + announcedLen c := by
    have := exact low
    have start : (atData c).pdata = frameStart c + packetInfoLen := rfl
    rw [announcedLen] at enough ⊢
    omega
  have dataLen : ∀ p, (processData checksumState c.input c.context).2.2.packet = some p →
      p.header.dataLen = r.2.1.header.dataLen := by
    intro p hp
    rw [packet] at hp
    cases hp
    split <;> rfl
  refine ⟨by rw [input, consumed], ?_⟩
  rw [LongEnough, announcedLen, ← decoded]
  constructor
  · intro h
    exact ⟨input ▸ h.reach, dataLen _ packet ▸ h.dataLen _ packet⟩
  · intro h
    refine ⟨by rw [input, consumed], by rw [input]; exact h.1, ?_⟩
    intro p hp
    rw [dataLen p hp]
    exact h.2

/-- The connection that has just received the frame of a plain packet with two bytes of data
and the start of another frame. -/
def plainConn : Conn :=
  receive (be32 anetPacketFlag ++ be32 1 ++ be32 5 ++ be32 2 ++ [7, 8] ++ be32 anetPacketFlag)
    (TCPConnection.start (streamer true) fun _ => 0)

theorem completed_exact_iff_plain :
    Completes true plainConn ∧ announcedLen plainConn = 2 ∧ Exact true plainConn := by
  have done : Completes true plainConn := rfl
  have exact := completed_exact_iff (.pour _ .start : (readData (streamer true)).Reach
    (TCPConnection.start (streamer true) fun _ => 0) plainConn) done
  have plain : isAdvancePacket (announced plainConn).pcode = false := by decide
  exact ⟨done, by decide, exact.2.mpr fun advance => nomatch advance.symm.trans plain⟩

/-- The frame of an empty advance packet that leaves out the advance header, followed by the
frame of an empty plain packet. -/
def shortFrame : List UInt8 :=
  be32 anetPacketFlag ++ be32 1 ++ be32 0x8000 ++ be32 0 ++
    (be32 anetPacketFlag ++ be32 2 ++ be32 0 ++ be32 0)

/-- The connection that has just received them. -/
def shortConn : Conn := receive shortFrame (TCPConnection.start (streamer false) fun _ => 0)

/-- Completing the first packet reads the sixteen bytes of the second frame, and the packet
that is delivered has the length -16. -/
theorem short_frame_overread :
    (readData (streamer false)).Reach (TCPConnection.start (streamer false) fun _ => 0) shortConn ∧
    Completes false shortConn ∧ announcedLen shortConn = 0 ∧
    (processData false shortConn.input shortConn.context).2.1.reach = 32 ∧
    (processData false shortConn.input shortConn.context).2.2.packet =
      some (.control .badPacket ⟨1, 0x8000, -16⟩) ∧
    ¬ Exact false shortConn := by
  refine ⟨.pour shortFrame .start, rfl, by decide, by decide, by decide, ?_⟩
  intro exact
  have := exact.reach
  revert this
  decide

end DefaultPacketStreamer

end AgentEngine.Anet
