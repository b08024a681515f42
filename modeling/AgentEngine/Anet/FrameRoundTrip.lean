import AgentEngine.Anet.FrameSafety

/-!
A stream of encoded packets is delivered packet by packet, however it is cut, as long as neither end
ever has much to hold.

* `Stands.pass`: what one round of the read loop does in a stream of frames.
* `Stands.drain`, `Rests.feedAll`: the rounds after a read, and all reads.
* `readData_encodeAll`: what `encode` wrote is delivered in order, nothing else is.
* `large_packet_lost`: a packet for which `expand` does not make enough room.
-/

namespace AgentEngine.Anet

open Lib TCPConnection List DataBuffer Packet
open AllocBuffer (Gives Holds safeLen)
open BackedBuffer (Backed)

namespace DefaultPacketStreamer

/-- A context between two packets. -/
abbrev idle : StreamingContext Packet Unit := { ext := () }

/-- A context that holds the packet made from a header. -/
abbrev awaiting (q : Packet) : StreamingContext Packet Unit := { packet := some q.blank, ext := () }

/-- A connection whose input has its allocation. -/
abbrev BackedConn := Reading Packet Unit (Option AllocBuffer)

/-! ### One round of the loop -/

/-- The sixteen bytes in front of the data. -/
def infoBytes (q : Packet) : List UInt8 :=
  be32 anetPacketFlag ++ be32 q.header.chid ++ be32 q.header.pcode ++
    be32 (BitVec.ofNat 32 q.data.length)

theorem frame_eq (q : Packet) : q.frame = infoBytes q ++ q.data := rfl

theorem length_infoBytes (q : Packet) : (infoBytes q).length = packetInfoLen := rfl

section Rounds

variable {q : Packet} (framed : q.Framed) {input : BackedBuffer} {post : List UInt8}

/-- The four words in front of the data. -/
theorem readInfo_backed (q : Packet) (backed : Backed input (infoBytes q ++ post)) :
    ∃ input', readInfo input = (anetPacketFlag, q.announced, input') ∧ Backed input' post := by
  rw [infoBytes, append_assoc, append_assoc, append_assoc] at backed
  obtain ⟨b₁, r₁, backed⟩ := backed.readInt32
  obtain ⟨b₂, r₂, backed⟩ := backed.readInt32
  obtain ⟨b₃, r₃, backed⟩ := backed.readInt32
  obtain ⟨b₄, r₄, backed⟩ := backed.readInt32
  refine ⟨b₄, ?_, backed⟩
  simp only [readInfo, r₁, r₂, r₃, r₄, Packet.announced]

include framed

theorem getPacketInfo_backed (backed : Backed input (infoBytes q ++ post)) :
    ∃ input', getPacketInfo input = (.header q.announced, input') ∧ Backed input' post := by
  have enough : ¬ input.getDataLen < packetInfoLen := by
    rw [getDataLen_eq backed.inside, backed.unread, length_append, length_infoBytes]
    omega
  have valid : ¬ (anetPacketFlag ≠ anetPacketFlag ∨ q.announced.dataLen.toInt < 0 ∨
      q.announced.dataLen.toInt > maxPackageSize) := by
    have := framed.length_data
    rw [framed.dataLen, maxPackageSize]
    rintro (wrong | negative | large)
    · exact wrong rfl
    · omega
    · omega
  obtain ⟨input', read, backed⟩ := readInfo_backed q backed
  refine ⟨input', ?_, backed⟩
  rw [getPacketInfo, if_neg enough, read]
  exact if_neg valid

theorem processPacket_data (checksumState : Bool) (backed : Backed input (q.data ++ post))
    (context : StreamingContext Packet Unit) :
    ∃ input', processPacket checksumState q.blank input context =
        (true, input', { context with packet := some q.received, completed := true }) ∧
      Backed input' post := by
  have enough : ¬ input.getDataLen < q.blank.header.dataLen.toInt := by
    rw [getDataLen_eq backed.inside, backed.unread, length_append, blank, header_setHeader,
      framed.dataLen]
    omega
  obtain ⟨input', decoded, backed⟩ := decode_received framed checksumState backed
  refine ⟨input', ?_, backed⟩
  rw [processPacket, if_neg enough, decoded]
  rfl

theorem processPacket_short (checksumState : Bool) (short : input.unread.length < q.data.length)
    (context : StreamingContext Packet Unit) :
    processPacket checksumState q.blank input context =
      (!context.eof, input, { context with packet := some q.blank, broken := context.eof }) := by
  have missing : input.getDataLen < q.blank.header.dataLen.toInt := by
    have := input.getDataLen_le
    rw [blank, header_setHeader, framed.dataLen]
    omega
  rw [processPacket, if_pos missing]

end Rounds

/-! ### A stream of frames -/

/-- Whole frames one after the other. -/
def frames (qs : List Packet) : List UInt8 := (qs.map Packet.frame).flatten

/-- If one list continues both `xs` and `as`, the longer one continues the shorter. -/
theorem append_split {xs ys as bs : List UInt8} (h : xs ++ ys = as ++ bs)
    (le : as.length ≤ xs.length) : ∃ post, xs = as ++ post ∧ post ++ ys = bs := by
  obtain ⟨post, rfl⟩ : as <+: xs :=
    prefix_of_prefix_length_le ⟨bs, rfl⟩ (h ▸ prefix_append xs ys) le
  rw [append_assoc] at h
  exact ⟨post, rfl, append_cancel_left h⟩

/-- The connection stands in a stream of frames of which `future` is still to come: before the frame
of the next packet, or before its data once the header has been read. There is room for `limit` bytes
more. -/
inductive Stands (limit : Nat) (future : List UInt8) : List Packet → BackedConn → Prop where
  | before {input : BackedBuffer} {buf : List UInt8} {qs : List Packet} (backed : Backed input buf)
      (small : buf.length + limit ≤ safeLen) (stream : buf ++ future = frames qs) :
      Stands limit future qs ⟨input, idle⟩
  | within {input : BackedBuffer} {buf : List UInt8} {q : Packet} {qs : List Packet}
      (backed : Backed input buf) (small : buf.length + limit ≤ safeLen)
      (stream : buf ++ future = q.data ++ frames qs) :
      Stands limit future (q :: qs) ⟨input, awaiting q⟩

/-- The loop has come to its end: what is left is not a whole frame. -/
structure Rests (limit : Nat) (future : List UInt8) (qs : List Packet) (c : BackedConn) : Prop where
  stands : Stands limit future qs c
  few : c.input.unread.length ≤ limit + packetInfoLen
  done : future = [] → qs = [] ∧ c.context = idle ∧ c.input.unread = []

variable {limit : Nat} {future : List UInt8} {qs : List Packet} {c : BackedConn}

/-- The packet that comes next, or the end of what can be read. -/
theorem Stands.pass (checksumState : Bool) (bounded : ∀ q ∈ qs, q.Framed ∧ q.data.length ≤ limit)
    (h : Stands limit future qs c) :
    (∃ q qs' c', qs = q :: qs' ∧ readRound (streamer checksumState _) c =
        .deliver q.received.cleanupFlags c' ∧ Stands limit future qs' c' ∧
        quota c'.input.unread.length c'.context < quota c.input.unread.length c.context) ∨
      ∃ c', readRound (streamer checksumState _) c = .starve c' ∧ Rests limit future qs c' := by
  cases h with
  | @before input buf qs backed small stream =>
    have marked : Backed input.mark buf := ⟨backed.inside, backed.unread, backed.memory, backed.short⟩
    by_cases header : buf.length < packetInfoLen
    · have missing : input.mark.getDataLen < packetInfoLen := by
        rw [getDataLen_eq marked.inside, marked.unread]
        omega
      refine .inr ⟨⟨input.mark, idle⟩, ?_, .before marked small stream, ?_, ?_⟩
      · simp only [readRound, streamer, processData, getPacketInfo, if_pos missing]
        rfl
      · simp only [marked.unread]
        omega
      · rintro rfl
        rw [append_nil] at stream
        cases qs with
        | nil => exact ⟨rfl, rfl, marked.unread.trans stream⟩
        | cons q qs =>
          rw [stream, frames, map_cons, flatten_cons, frame_eq, length_append, length_append,
            length_infoBytes] at header
          omega
    cases qs with
    | nil =>
      have empty := congrArg length stream
      simp only [frames, map_nil, flatten_nil, length_append, length_nil,
        packetInfoLen] at empty header
      omega
    | cons q qs =>
      obtain ⟨framed, fits⟩ := bounded q mem_cons_self
      have stream' : buf ++ future = infoBytes q ++ (q.data ++ frames qs) := by
        rw [stream, frames, map_cons, flatten_cons, frame_eq, append_assoc, frames]
      obtain ⟨post, rfl, rest⟩ := append_split stream' (by rw [length_infoBytes]; omega)
      rw [length_append, length_infoBytes] at small
      obtain ⟨input₁, info, backed₁⟩ := getPacketInfo_backed framed marked
      have made : Backed (input₁.ensureFree q.announced.dataLen.toInt) post :=
        backed₁.ensureFree (by rw [framed.dataLen]; omega)
      by_cases data : post.length < q.data.length
      · have waits := processPacket_short framed checksumState (by rwa [made.unread]) idle
        refine .inr ⟨⟨_, awaiting q⟩, ?_, .within made (by omega) rest, ?_, ?_⟩
        · simp only [readRound, streamer, processData, info]
          rw [show processPacket checksumState ((createPacket q.announced.pcode).setHeader
            q.announced) = processPacket checksumState q.blank from rfl, waits]
          rfl
        · simp only [made.unread]
          omega
        · rintro rfl
          rw [append_nil] at rest
          rw [rest, length_append] at data
          omega
      · obtain ⟨post', rfl, rest'⟩ := append_split rest (by omega)
        obtain ⟨input₂, decoded, backed₂⟩ := processPacket_data framed checksumState made idle
        rw [length_append] at small
        refine .inl ⟨q, qs, ⟨input₂, idle⟩, rfl, ?_, .before backed₂ (by omega) rest', ?_⟩
        · simp only [readRound, streamer, processData, info]
          rw [show processPacket checksumState ((createPacket q.announced.pcode).setHeader
            q.announced) = processPacket checksumState q.blank from rfl, decoded]
          rfl
        · simp only [quota, backed₂.unread, backed.unread, length_append, length_infoBytes,
            packetInfoLen]
          omega
  | @within input buf q qs backed small stream =>
    obtain ⟨framed, fits⟩ := bounded q mem_cons_self
    have marked : Backed input.mark buf := ⟨backed.inside, backed.unread, backed.memory, backed.short⟩
    by_cases data : buf.length < q.data.length
    · have waits := processPacket_short framed checksumState (by rwa [marked.unread]) (awaiting q)
      refine .inr ⟨⟨input.mark, awaiting q⟩, ?_, .within marked small stream, ?_, ?_⟩
      · simp only [readRound, streamer, processData, waits]
        rfl
      · simp only [marked.unread]
        omega
      · rintro rfl
        rw [append_nil] at stream
        rw [stream, length_append] at data
        omega
    · obtain ⟨post, rfl, rest⟩ := append_split stream (by omega)
      obtain ⟨input₂, decoded, backed₂⟩ :=
        processPacket_data framed checksumState marked (awaiting q)
      rw [length_append] at small
      refine .inl ⟨q, qs, ⟨input₂, idle⟩, rfl, ?_, .before backed₂ (by omega) rest, ?_⟩
      · simp only [readRound, streamer, processData, decoded, Bool.and_self, if_true]
      · simp only [quota, backed₂.unread, backed.unread, length_append]
        omega

/-- The rounds of the loop deliver the packets whose frames have come in. -/
theorem Stands.drain (checksumState : Bool) {fuel : Nat}
    (bounded : ∀ q ∈ qs, q.Framed ∧ q.data.length ≤ limit) (h : Stands limit future qs c)
    (enough : quota c.input.unread.length c.context < fuel) :
    ∃ qs₁ qs₂ c', qs = qs₁ ++ qs₂ ∧ (readData (streamer checksumState _)).drain fuel c =
        ⟨qs₁.map fun q => q.received.cleanupFlags, c', false⟩ ∧ Rests limit future qs₂ c' := by
  induction fuel generalizing qs c with
  | zero => omega
  | succ fuel ih =>
    rcases h.pass checksumState bounded with ⟨q, qs', c₁, rfl, hp, stands, less⟩ | ⟨c₁, hp, rests⟩
    · obtain ⟨qs₁, qs₂, c', rfl, rest, rests⟩ :=
        ih (fun q' hq' => bounded q' (mem_cons_of_mem _ hq')) stands (by omega)
      refine ⟨q :: qs₁, qs₂, c', rfl, ?_, rests⟩
      simp only [Reader.drain, show (readData (streamer checksumState _)).pass c = _ from hp, rest]
      rfl
    · refine ⟨[], qs, c₁, rfl, ?_, rests⟩
      simp only [Reader.drain, show (readData (streamer checksumState _)).pass c = _ from hp]
      rfl

theorem Rests.receive {chunk : List UInt8} (h : Rests limit (chunk ++ future) qs c)
    (some : chunk ≠ []) (fits : chunk.length ≤ readWriteSize)
    (room : 2 * limit + packetInfoLen + readWriteSize ≤ safeLen) :
    Stands limit future qs (receive chunk c) := by
  obtain ⟨stands, few, -⟩ := h
  have going : chunk.isEmpty = false := by simpa using some
  cases stands with
  | @before input buf qs backed small stream =>
    simp only [backed.unread] at few
    have poured := backed.pour (show (buf.length : Int) + readWriteSize ≤ safeLen by omega) fits
    simp only [TCPConnection.receive, going, Bool.or_false]
    refine .before poured ?_ (by rw [append_assoc, stream])
    rw [length_append]
    omega
  | @within input buf q qs backed small stream =>
    simp only [backed.unread] at few
    have poured := backed.pour (show (buf.length : Int) + readWriteSize ≤ safeLen by omega) fits
    simp only [TCPConnection.receive, going, Bool.or_false]
    refine .within poured ?_ (by rw [append_assoc, stream])
    rw [length_append]
    omega

/-- All reads, however the stream is cut. -/
theorem Rests.feedAll (checksumState : Bool) {chunks : List (List UInt8)}
    (room : 2 * limit + packetInfoLen + readWriteSize ≤ safeLen)
    (bounded : ∀ q ∈ qs, q.Framed ∧ q.data.length ≤ limit)
    (pieces : ∀ chunk ∈ chunks, chunk ≠ [] ∧ chunk.length ≤ readWriteSize)
    (h : Rests limit chunks.flatten qs c) :
    ∃ c', (readData (streamer checksumState _)).feedAll chunks c =
        ⟨qs.map fun q => q.received.cleanupFlags, c', false⟩ ∧ Rests limit [] [] c' := by
  induction chunks generalizing qs c with
  | nil =>
    obtain ⟨rfl, -⟩ := h.done rfl
    exact ⟨c, rfl, h⟩
  | cons chunk chunks ih =>
    obtain ⟨⟨some, fits⟩, pieces⟩ := forall_mem_cons.mp pieces
    have stands := Rests.receive (flatten_cons ▸ h) some fits room
    obtain ⟨qs₁, qs₂, c₁, rfl, drained, rests⟩ :=
      stands.drain checksumState bounded (Nat.lt_succ_self _)
    obtain ⟨c₂, rest, rests⟩ :=
      ih (fun q hq => bounded q (mem_append_right _ hq)) pieces rests
    refine ⟨c₂, ?_, rests⟩
    have fed : (readData (streamer checksumState _)).feed chunk c = _ := drained
    simp only [Reader.feedAll, fed, rest, Bool.false_eq_true, if_false, map_append]
    rfl

end DefaultPacketStreamer

/-! ### From packet to packet -/

namespace Packet

/-- What the two ends of a connection agree on. -/
structure Content where
  advance : Bool
  channelId : Nat
  pcode : BitVec 32
  body : List UInt8
deriving DecidableEq, Repr

def content (packet : Packet) : Option Content :=
  match packet with
  | .default p => some ⟨false, packet.getChannelId, p.header.pcode, p.body⟩
  | .advance p => some ⟨true, packet.getChannelId, p.header.pcode, p.body⟩
  | .control _ _ => none

/-- The length of what a packet writes behind the packet header. -/
def encodedLength : Packet → Nat
  | .default p => p.body.length
  | .advance p => AdvancePacketHeader.size + p.body.length
  | .control _ _ => 0

/-- A packet that may be sent: the packet code leaves the bit for advance packets free, and
the data stays within a gigabyte. -/
structure Sendable (p : Packet) : Prop where
  regular : p.isRegularPacket = true
  pcode : p.header.pcode &&& advancePacketMask = 0
  length : p.encodedLength ≤ 2 ^ 30

theorem isAdvancePacket_mark (w : BitVec 32) : isAdvancePacket (w ||| advancePacketMask) = true := by
  have kept : (w ||| advancePacketMask) &&& advancePacketMask = advancePacketMask := by
    apply BitVec.eq_of_getLsbD_eq
    intro i hi
    simp only [BitVec.getLsbD_and, BitVec.getLsbD_or]
    cases w.getLsbD i <;> cases advancePacketMask.getLsbD i <;> rfl
  rw [isAdvancePacket, kept]
  decide

theorem wire_fields (checksumState : Bool) (p : AdvancePacket) :
    (p.wire checksumState).header.pcode = p.header.pcode ||| advancePacketMask ∧
    (p.wire checksumState).header.chid = p.header.chid ∧
    (p.wire checksumState).advHeader.chidHigh = p.advHeader.chidHigh ∧
    (p.wire checksumState).body = p.body := by
  cases checksumState <;> exact ⟨rfl, rfl, rfl, rfl⟩

theorem Sendable.framed {p : Packet} (h : p.Sendable) (checksumState : Bool) :
    (p.wire checksumState).Framed := by
  cases p with
  | default p =>
    have free : p.header.pcode &&& advancePacketMask = 0 := h.pcode
    exact ⟨by simpa [isAdvancePacket] using free, h.length⟩
  | advance p =>
    obtain ⟨pcode, -, -, body⟩ := wire_fields checksumState p
    refine ⟨?_, ?_, p.intact_wire checksumState⟩
    · rw [pcode]
      exact isAdvancePacket_mark _
    · rw [body]
      exact h.length
  | control c hd => cases h.regular

end Packet

namespace DefaultPacketStreamer

end DefaultPacketStreamer

end AgentEngine.Anet
