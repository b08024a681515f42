import AgentEngine.Anet.FrameSafety
import AgentEngine.Arpc.DelayDecodePacket

/-!
How much of the input buffer a request or a reply consumes.

The content of a packet is decoded from the buffer that also holds the packets behind it. `AtEnd` says
that the buffer is just behind the packet, and that no byte behind it was looked at.
-/

namespace AgentEngine.Arpc

open Lib Anet List DataBuffer AdvancePacketHeader AdvancePacket

/-- The read position is `last`, and no byte from there on was looked at. -/
def AtEnd (last : Nat) (b : DataBuffer) : Prop := b.pdata = last ∧ b.reach ≤ last

section Content

variable {input : DataBuffer} {data rest : List UInt8} (inside : input.pdata ≤ input.mem.length)
  (h : input.unread = data ++ rest)

include inside h

theorem enough_of_unread : input.pdata + data.length ≤ input.mem.length := by
  have total := congrArg length h
  rw [unread, length_drop, length_append] at total
  omega

theorem atEnd_drainData (unseen : input.reach ≤ input.pdata + data.length) :
    AtEnd (input.pdata + data.length) (input.drainData data.length) := by
  have enough := enough_of_unread inside h
  simp only [AtEnd, drainData]
  omega

/-- What is left of the data is drained. -/
theorem atEnd_drained {k : Nat} (within : k ≤ data.length)
    (unseen : input.reach ≤ input.pdata + data.length) :
    AtEnd (input.pdata + data.length) ((input.skip k).drainData (data.length - k : Nat)) := by
  have enough := enough_of_unread inside h
  simp only [AtEnd, drainData, skip, touch]
  omega

/-- A single message takes all of the data. -/
theorem MessageSerializable.atEnd_deserialize {μ : Type} (s : MessageSerializable μ)
    (unseen : input.reach ≤ input.pdata + data.length) :
    AtEnd (input.pdata + data.length) (s.deserialize input data.length).2.2 := by
  have enough := enough_of_unread inside h
  rw [deserialize]
  split
  · rename_i empty
    have none : data.length = 0 := by omega
    exact ⟨by rw [none]; rfl, unseen⟩
  · simp only [AtEnd, drainData, touch, Int.toNat_natCast]
    omega

end Content

section Messages

variable {μ : Type} (type : MessageType μ) (message : μ)

/-- The length is looked at, whether it belongs to the packet or not. -/
theorem reach_deserializeMessage (left : Int) (input : DataBuffer) :
    max input.reach (input.pdata + 4) ≤ (deserializeMessage type message left input).2.2.2.reach := by
  have skipped : (input.readInt32).2 = input.skip 4 := rfl
  rw [deserializeMessage]
  generalize input.readInt32 = read at skipped
  obtain ⟨len, output⟩ := read
  cases skipped
  dsimp only
  split
  · exact le_refl (max input.reach (input.pdata + 4))
  · split
    · exact le_max_left (max input.reach (input.pdata + 4)) _
    · exact le_refl (max input.reach (input.pdata + 4))

variable {type message} {input output : DataBuffer} {data rest : List UInt8} {left : Int}
  {found : μ}
  (inside : input.pdata ≤ input.mem.length) (h : input.unread = data ++ rest) (long : 4 ≤ data.length)

include inside h long

/-- A message that is accepted is an empty one at the end of the packet, or it was parsed. -/
theorem deserializeMessage_accepts
    (accepted : deserializeMessage type message data.length input = (true, found, left, output)) :
    (data.length = 4 ∧ (ofBe32 (data.take 4)).toInt = 0 ∧ left = 0 ∧ output = input.skip 4) ∨
    ∃ bytes more, part data = some (bytes, more) ∧ (type.parse bytes).1 = true ∧
      left = more.length ∧ output = input.skip (4 + bytes.length) := by
  rw [deserializeMessage_eq type message inside h long] at accepted
  split at accepted
  · rename_i empty
    cases accepted
    exact .inl ⟨empty.1, empty.2, rfl, rfl⟩
  · cases first : part data with
    | none =>
      rw [first] at accepted
      cases accepted
    | some parts =>
      obtain ⟨bytes, more⟩ := parts
      simp only [first, Prod.mk.injEq] at accepted
      obtain ⟨parsed, -, rfl, rfl⟩ := accepted
      exact .inr ⟨bytes, more, rfl, parsed, rfl, rfl⟩

/-- A message that is refused was not parsed, and what is left behind it is drained. -/
theorem deserializeMessage_refuses (unseen : input.reach ≤ input.pdata + data.length)
    (refused : deserializeMessage type message data.length input = (false, found, left, output)) :
    ¬ (data.length = 4 ∧ (ofBe32 (data.take 4)).toInt = 0) ∧
    (∀ parts ∈ part data, (type.parse parts.1).1 = false) ∧
    AtEnd (input.pdata + data.length) (output.drainData left) := by
  rw [deserializeMessage_eq type message inside h long] at refused
  split at refused
  · cases refused
  · rename_i last
    refine ⟨last, ?_⟩
    cases first : part data with
    | none =>
      rw [first] at refused
      cases refused
      have drained := atEnd_drained inside h long unseen
      rw [Nat.cast_sub long] at drained
      exact ⟨nofun, drained⟩
    | some parts =>
      obtain ⟨bytes, more⟩ := parts
      have total := length_part first
      have drained := atEnd_drained inside h (k := 4 + bytes.length) (by omega) unseen
      rw [show data.length - (4 + bytes.length) = more.length by omega] at drained
      simp only [first, Prod.mk.injEq] at refused
      obtain ⟨unparsed, -, rfl, rfl⟩ := refused
      refine ⟨?_, drained⟩
      rintro _ ⟨⟩
      exact unparsed

end Messages

namespace RPCMessageSerializable

variable {η β : Type} (s : RPCMessageSerializable η β)

/-- The body is decoded from what is left behind the header. -/
def deserializeBody (left : Int) (input : DataBuffer) : Bool × β × DataBuffer :=
  match deserializeMessage s.bodyType s.body left input with
  | (false, body, left, input) => (false, body, input.drainData left)
  | (true, body, _, input) => (true, body, input)

/-- The body takes all that is left exactly if a length is left, and nothing behind a body that is
parsed. -/
def BodyFits (left : List UInt8) : Prop :=
  4 ≤ left.length ∧ ∀ found ∈ part left, (s.bodyType.parse found.1).1 = true → found.2 = []

/-- A packet is consumed exactly if it is empty, or if its length belongs to it and what is behind a
header that is parsed is consumed as well. -/
def PacketFits (data : List UInt8) : Prop :=
  data = [] ∨ 4 ≤ data.length ∧ (data.length = 4 → (ofBe32 (data.take 4)).toInt ≠ 0) ∧
    ∀ found ∈ part data, (s.headerType.parse found.1).1 = true → s.BodyFits found.2

theorem reach_deserializeBody (left : Int) (input : DataBuffer) :
    max input.reach (input.pdata + 4) ≤ (s.deserializeBody left input).2.2.reach := by
  have seen := reach_deserializeMessage s.bodyType s.body left input
  rw [deserializeBody]
  revert seen
  rcases deserializeMessage s.bodyType s.body left input with ⟨_ | _, body, left, output⟩
  · exact id
  · exact id

theorem deserialize_eq (input : DataBuffer) {length : Int} (some' : length ≠ 0) :
    (s.deserialize input length).2.2 =
      match deserializeMessage s.headerType s.header length input with
      | (false, _, left, input) => input.drainData left
      | (true, _, left, input) => (s.deserializeBody left input).2.2 := by
  rw [deserialize, if_neg some']
  rcases deserializeMessage s.headerType s.header length input with ⟨_ | _, header, left, output⟩
  · rfl
  · dsimp only [deserializeBody]
    rcases deserializeMessage s.bodyType s.body left output with ⟨_ | _, body, left', output'⟩
    · rfl
    · rfl

variable {s} {input : DataBuffer} {data rest : List UInt8}

variable (inside : input.pdata ≤ input.mem.length)
include inside

variable (h : input.unread = data ++ rest)
include h

variable (unseen : input.reach ≤ input.pdata + data.length)
include unseen

theorem atEnd_deserializeBody_iff :
    AtEnd (input.pdata + data.length) (s.deserializeBody data.length input).2.2 ↔ s.BodyFits data := by
  by_cases long : 4 ≤ data.length
  · rw [BodyFits, and_iff_right long, deserializeBody]
    rcases read : deserializeMessage s.bodyType s.body data.length input with
      ⟨_ | _, body, left, output⟩
    · obtain ⟨-, unparsed, atEnd⟩ := deserializeMessage_refuses inside h long unseen read
      refine iff_of_true atEnd ?_
      intro parts mem parsed
      cases parsed.symm.trans (unparsed parts mem)
    · rcases deserializeMessage_accepts inside h long read with
        ⟨four, zero, rfl, rfl⟩ | ⟨bytes, more, first, parsed, rfl, rfl⟩
      · have noPart : part data = none := by simp [part, zero]
        rw [noPart]
        refine iff_of_true ?_ (fun parts mem => by cases mem)
        simp only [AtEnd, skip, touch]
        omega
      · have total := length_part first
        simp only [first, parsed, Option.mem_some_iff, forall_eq', true_implies, AtEnd, skip, touch]
        rw [← length_eq_zero_iff]
        omega
  · -- the length of the body is looked at behind the packet
    have seen := s.reach_deserializeBody data.length input
    simp only [BodyFits, long, false_and, iff_false, AtEnd]
    omega

/-- The part of the buffer behind a header. -/
theorem behind_part {bytes more : List UInt8} (first : part data = some (bytes, more)) :
    let behind := input.skip (4 + bytes.length)
    behind.pdata ≤ behind.mem.length ∧ behind.unread = more ++ rest ∧
      behind.pdata + more.length = input.pdata + data.length ∧
      behind.reach ≤ input.pdata + data.length := by
  obtain ⟨-, -, long, body⟩ := part_eq_some_iff.mp first
  have total := length_part first
  have enough := enough_of_unread inside h
  have split : input.unread = (data.take 4 ++ bytes) ++ (more ++ rest) := by
    rw [h, ← append_assoc, append_assoc (data.take 4), ← body, take_append_drop]
  have skipped := unread_skip split
  rw [length_append, length_take_of_le long] at skipped
  refine ⟨?_, skipped, ?_, ?_⟩ <;> simp only [skip, touch] <;> omega

theorem atEnd_deserialize_iff :
    AtEnd (input.pdata + data.length) (s.deserialize input data.length).2.2 ↔ s.PacketFits data := by
  by_cases none : data.length = 0
  · have empty := length_eq_zero_iff.mp none
    rw [PacketFits, or_iff_left_of_imp (fun _ => empty), deserialize, if_pos (by omega)]
    simp only [AtEnd, empty, length_nil, Nat.add_zero, true_and, iff_true]
    omega
  have some' : data ≠ [] := fun empty => none (by rw [empty]; rfl)
  rw [PacketFits, or_iff_right some', deserialize_eq s input (by omega)]
  by_cases long : 4 ≤ data.length
  · rw [and_iff_right long]
    rcases read : deserializeMessage s.headerType s.header data.length input with
      ⟨_ | _, header, left, output⟩
    · obtain ⟨last, unparsed, atEnd⟩ := deserializeMessage_refuses inside h long unseen read
      refine iff_of_true atEnd ⟨fun four zero => last ⟨four, zero⟩, ?_⟩
      intro parts mem parsed
      cases parsed.symm.trans (unparsed parts mem)
    · rcases deserializeMessage_accepts inside h long read with
        ⟨four, zero, rfl, rfl⟩ | ⟨bytes, more, first, parsed, rfl, rfl⟩
      · -- the length of the body is looked at behind the packet
        have seen := s.reach_deserializeBody 0 (input.skip 4)
        have position : (input.skip 4).pdata = input.pdata + 4 := rfl
        refine iff_of_false ?_ (fun fits => fits.1 four zero)
        intro atEnd
        have := atEnd.2
        dsimp only at this
        omega
      · obtain ⟨inside', behind, last, unseen'⟩ := behind_part inside h unseen first
        have body := atEnd_deserializeBody_iff (s := s) inside' behind (last.symm ▸ unseen')
        have total := length_part first
        obtain ⟨positive, -, -, -⟩ := part_eq_some_iff.mp first
        rw [last] at body
        simp only [first, parsed, Option.mem_some_iff, forall_eq', true_implies]
        rw [and_iff_right (by omega)]
        exact body
  · -- the length of the header is looked at behind the packet
    have seen := reach_deserializeMessage s.headerType s.header data.length input
    simp only [long, false_and, iff_false]
    revert seen
    rcases deserializeMessage s.headerType s.header data.length input with
      ⟨_ | _, header, left, output⟩
    · intro seen atEnd
      have := atEnd.2
      simp only [drainData] at this seen
      omega
    · intro seen atEnd
      have more := s.reach_deserializeBody left output
      have := atEnd.2
      simp only at this seen
      omega

end RPCMessageSerializable

/-! ### Packets and their handlers -/

/-- A handler of packets: one that decodes requests, one that decodes replies, or one that does not
decode a packet at all. -/
inductive Handler (σ μ τ : Type) where
  | request (server : RPCServer σ) (headerType : MessageType RpcMsgHeader)
      (requestType : ServiceMethodPair σ → MessageType μ)
  | reply (traceFlag : Bool) (responseType : MessageType μ) (traceType : MessageType τ)
      (errorType : MessageType ErrorMsg) (name : ErrorCode → String)
  | discard

namespace Handler

variable {σ μ τ : Type}

/-- The input buffer after a packet was handled and freed. -/
def handle (handler : Handler σ μ τ) (packet : DelayDecodePacket) (input : DataBuffer) : DataBuffer :=
  match handler with
  | request server headerType requestType =>
    let (_, packet, input) :=
      ANetRPCMessageCodec.decodeRequest headerType requestType server packet input
    packet.free input
  | reply traceFlag responseType traceType errorType name =>
    let (_, packet, input) :=
      ClientPacketHandler.decodePacket responseType traceType errorType name traceFlag packet input
    packet.free input
  | discard => packet.free input

/-- The condition on the data of a packet that holds two messages. -/
def Fits (version : UInt8) (pcode : BitVec 32) (data : List UInt8) : Handler σ μ τ → Prop
  | request server headerType requestType =>
    version = 1 → ∀ call ∈ server.getRpcCall pcode, RPCMessageSerializable.PacketFits
      ⟨headerType, requestType call, headerType.fresh, (requestType call).fresh⟩ data
  | reply traceFlag responseType traceType errorType _ =>
    version = 1 → traceFlag = true →
      (pcode ≠ ErrorCode.ok → RPCMessageSerializable.PacketFits
        ⟨traceType, errorType, traceType.fresh, errorType.fresh⟩ data) ∧
      (pcode = ErrorCode.ok → RPCMessageSerializable.PacketFits
        ⟨traceType, responseType, traceType.fresh, responseType.fresh⟩ data)
  | discard => True

end Handler

section Packets

variable {packet : DelayDecodePacket} {input : DataBuffer}

theorem DelayDecodePacket.free_decoded (decoded : packet.needDrainDataFlag = false) :
    packet.free input = input := by
  simp [free, clearInputDataBuffer, decoded]

theorem DelayDecodePacket.free_undecoded (undecoded : packet.needDrainDataFlag = true)
    (has : packet.hasInputDataBuffer = true) :
    packet.free input = input.drainData packet.getEffectiveDataLength := by
  simp [free, clearInputDataBuffer, undecoded, has, drainData]

/-- A packet that was received, and whose data is still in the buffer. -/
structure DelayDecodePacket.Pending (packet : DelayDecodePacket) : Prop where
  undecoded : packet.needDrainDataFlag = true
  has : packet.hasInputDataBuffer = true

namespace Handler

variable {σ μ τ : Type}

/-- The version is 0, 1 or unknown. -/
theorem version_cases (version : UInt8) :
    version = 0 ∨ version = 1 ∨ version > arpcVersionCurrent := by
  simp only [arpcVersionCurrent, ← UInt8.toNat_inj, GT.gt, UInt8.lt_iff_toNat_lt]
  have : (1 : UInt8).toNat = 1 := rfl
  have : (0 : UInt8).toNat = 0 := rfl
  omega

section Request

variable {server : RPCServer σ} {headerType : MessageType RpcMsgHeader}
  {requestType : ServiceMethodPair σ → MessageType μ}

theorem handle_request_unknown (pending : packet.Pending)
    (unknown : packet.getPacketVersion > arpcVersionCurrent ∨
      server.getRpcCall packet.header.pcode = none) :
    handle (.request server headerType requestType : Handler σ μ τ) packet input =
      input.drainData packet.getEffectiveDataLength := by
  simp only [handle, ANetRPCMessageCodec.decodeRequest]
  split
  · exact packet.free_undecoded pending.undecoded pending.has
  · rename_i version
    rw [unknown.resolve_left version]
    exact packet.free_undecoded pending.undecoded pending.has

variable (input τ headerType requestType) in
theorem handle_request {call : ServiceMethodPair σ}
    (known : server.getRpcCall packet.header.pcode = some call) :
    (packet.getPacketVersion = 0 →
      handle (.request server headerType requestType : Handler σ μ τ) packet input =
        (MessageSerializable.deserialize ⟨requestType call, (requestType call).fresh⟩ input
          packet.getEffectiveDataLength).2.2) ∧
    (packet.getPacketVersion = 1 →
      handle (.request server headerType requestType : Handler σ μ τ) packet input =
        (RPCMessageSerializable.deserialize
          ⟨headerType, requestType call, headerType.fresh, (requestType call).fresh⟩ input
          packet.getEffectiveDataLength).2.2) := by
  constructor
  · intro version
    simp only [handle, ANetRPCMessageCodec.decodeRequest, version, known]
    exact DelayDecodePacket.free_decoded rfl
  · intro version
    simp only [handle, ANetRPCMessageCodec.decodeRequest, version, known]
    exact DelayDecodePacket.free_decoded rfl

end Request

section Reply

variable {traceFlag : Bool} {responseType : MessageType μ} {traceType : MessageType τ}
  {errorType : MessageType ErrorMsg} {name : ErrorCode → String}

theorem handle_reply_single (single : ¬ (packet.getPacketVersion = 1 ∧ traceFlag = true)) :
    handle (.reply traceFlag responseType traceType errorType name : Handler σ μ τ) packet input =
      if packet.header.pcode ≠ ErrorCode.ok then
        (MessageSerializable.deserialize ⟨errorType, errorType.fresh⟩ input
          packet.getEffectiveDataLength).2.2
      else (MessageSerializable.deserialize ⟨responseType, responseType.fresh⟩ input
          packet.getEffectiveDataLength).2.2 := by
  simp only [handle, ClientPacketHandler.decodePacket, if_neg single]
  split
  · exact DelayDecodePacket.free_decoded rfl
  · exact DelayDecodePacket.free_decoded rfl

theorem handle_reply_double (double : packet.getPacketVersion = 1 ∧ traceFlag = true) :
    handle (.reply traceFlag responseType traceType errorType name : Handler σ μ τ) packet input =
      if packet.header.pcode ≠ ErrorCode.ok then
        (RPCMessageSerializable.deserialize ⟨traceType, errorType, traceType.fresh, errorType.fresh⟩
          input packet.getEffectiveDataLength).2.2
      else (RPCMessageSerializable.deserialize
          ⟨traceType, responseType, traceType.fresh, responseType.fresh⟩
          input packet.getEffectiveDataLength).2.2 := by
  simp only [handle, ClientPacketHandler.decodePacket, if_pos double]
  split
  · exact DelayDecodePacket.free_decoded rfl
  · exact DelayDecodePacket.free_decoded rfl

end Reply

variable {data rest : List UInt8}

/-- A handler consumes a packet exactly if its data fits. -/
theorem atEnd_handle_iff (handler : Handler σ μ τ) (pending : packet.Pending)
    (length : packet.getEffectiveDataLength = data.length) (inside : input.pdata ≤ input.mem.length)
    (h : input.unread = data ++ rest) (unseen : input.reach ≤ input.pdata + data.length) :
    AtEnd (input.pdata + data.length) (handler.handle packet input) ↔
      handler.Fits packet.getPacketVersion packet.header.pcode data := by
  have drained := atEnd_drainData inside h unseen
  cases handler with
  | request server headerType requestType =>
    cases known : server.getRpcCall packet.header.pcode with
    | none =>
      rw [handle_request_unknown pending (.inr known), length]
      refine iff_of_true drained ?_
      rw [Fits, known]
      exact nofun
    | some call =>
      obtain ⟨single, double⟩ := handle_request input τ headerType requestType known
      rcases version_cases packet.getPacketVersion with version | version | version
      · rw [single version, length]
        refine iff_of_true (MessageSerializable.atEnd_deserialize inside h _ unseen) ?_
        simp [Fits, version]
      · rw [double version, length]
        simp only [Fits, version, known, Option.mem_some_iff, forall_eq', true_implies]
        exact RPCMessageSerializable.atEnd_deserialize_iff inside h unseen
      · rw [handle_request_unknown pending (.inl version), length]
        refine iff_of_true drained ?_
        intro one
        rw [one] at version
        exact absurd version (by decide)
  | reply traceFlag responseType traceType errorType name =>
    by_cases double : packet.getPacketVersion = 1 ∧ traceFlag = true
    · rw [handle_reply_double double, length]
      simp only [Fits, double.1, double.2, true_implies]
      split
      · rename_i failed
        rw [RPCMessageSerializable.atEnd_deserialize_iff inside h unseen]
        simp [failed]
      · rename_i succeeded
        rw [RPCMessageSerializable.atEnd_deserialize_iff inside h unseen]
        simp [not_not.mp succeeded]
    · rw [handle_reply_single double, length]
      refine iff_of_true ?_ (fun version traced => absurd ⟨version, traced⟩ double)
      split
      · exact MessageSerializable.atEnd_deserialize inside h _ unseen
      · exact MessageSerializable.atEnd_deserialize inside h _ unseen
  | discard =>
    refine iff_of_true ?_ trivial
    rw [handle, packet.free_undecoded pending.undecoded pending.has, length]
    exact drained

/-- What was looked at before a packet is handled stays so. -/
theorem reach_handle (handler : Handler σ μ τ) (pending : packet.Pending) (input : DataBuffer) :
    input.reach ≤ (handler.handle packet input).reach := by
  have single : ∀ {ν : Type} (s : MessageSerializable ν) (length : Int),
      input.reach ≤ (s.deserialize input length).2.2.reach := by
    intro ν s length
    rw [MessageSerializable.deserialize]
    split
    · exact le_refl input.reach
    · exact le_max_left input.reach _
  have double : ∀ {η β : Type} (s : RPCMessageSerializable η β) (length : Int),
      input.reach ≤ (s.deserialize input length).2.2.reach := by
    intro η β s length
    by_cases none : length = 0
    · rw [RPCMessageSerializable.deserialize, if_pos none]
    · rw [s.deserialize_eq input none]
      have seen := reach_deserializeMessage s.headerType s.header length input
      revert seen
      rcases deserializeMessage s.headerType s.header length input with ⟨_ | _, header, left, output⟩
      · exact fun seen => (le_max_left _ _).trans seen
      · intro seen
        have more := s.reach_deserializeBody left output
        exact (le_max_left _ _).trans (seen.trans ((le_max_left _ _).trans more))
  cases handler with
  | request server headerType requestType =>
    cases known : server.getRpcCall packet.header.pcode with
    | none =>
      rw [handle_request_unknown pending (.inr known)]
      exact le_refl input.reach
    | some call =>
      obtain ⟨one, two⟩ := handle_request input τ headerType requestType known
      rcases version_cases packet.getPacketVersion with version | version | version
      · rw [one version]
        exact single _ _
      · rw [two version]
        exact double _ _
      · rw [handle_request_unknown pending (.inl version)]
        exact le_refl input.reach
  | reply traceFlag responseType traceType errorType name =>
    by_cases traced : packet.getPacketVersion = 1 ∧ traceFlag = true
    · rw [handle_reply_double traced]
      split
      · exact double _ _
      · exact double _ _
    · rw [handle_reply_single traced]
      split
      · exact single _ _
      · exact single _ _
  | discard =>
    rw [handle, packet.free_undecoded pending.undecoded pending.has]
    exact le_refl input.reach

end Handler

end Packets

/-! ### The whole packet -/

section Receiving

variable {header : PacketHeader} {packet : DelayDecodePacket} {input input' : DataBuffer}

theorem drop_overwrite {α : Type} (xs : List α) {i j : Nat} {new : List α}
    (before : i + new.length ≤ j) : (overwrite xs i new).drop j = xs.drop j := by
  induction new generalizing xs i with
  | nil => rfl
  | cons b bs ih =>
    rw [length_cons] at before
    rw [overwrite, ih _ (by omega), drop_set_of_lt (by omega)]

/-- The checksum is stored in the first eight bytes. -/
theorem drop_verifyChecksum (checksumState : Bool) (len : Nat) (input : DataBuffer) :
    (AdvancePacket.verifyChecksum checksumState len input).2.unread.drop 8 = input.unread.drop 8 := by
  have poked : ∀ (b : DataBuffer) (bytes : List UInt8), bytes.length = 4 →
      (b.poke checksumOffset bytes).unread.drop 8 = b.unread.drop 8 := by
    intro b bytes four
    rw [unread, unread, drop_drop, drop_drop, poke]
    exact drop_overwrite b.mem (by rw [four, checksumOffset])
  have settled : ∀ (b : DataBuffer) {pktCRC : List UInt8} (checkSum : BitVec 32), pktCRC.length = 4 →
      (settleChecksum pktCRC checkSum b).2.unread.drop 8 = b.unread.drop 8 := by
    intro b pktCRC checkSum four
    rw [settleChecksum]
    split
    · rfl
    · exact poked b pktCRC four
  have four : (input.peeks checksumOffset 4).length = 4 := by
    simp [peeks]
  have zeroed := poked ((input.touch checksumOffset 4).touch flagsOffset 1) [0, 0, 0, 0] rfl
  simp only [verifyChecksum]
  split
  · split
    · exact (settled _ _ four).trans zeroed
    · exact (settled _ _ four).trans zeroed
  · rfl

/-- The version of an advance packet is its byte 13. -/
theorem packetVersion_readHeader (input : DataBuffer) :
    (AdvancePacket.readHeader input).1.packetVersion = input.peek 13 := by
  simp [readHeader, DataBuffer.readInt32, DataBuffer.readInt8, DataBuffer.take,
    DataBuffer.skip, DataBuffer.touch, DataBuffer.peeks, DataBuffer.peek]

variable {checksumState : Bool}

/-- What `decode` leaves of a packet that is not an advance packet. -/
theorem decode_plain (plain : isAdvancePacket header.pcode = false) :
    (DelayDecodePacket.create header).decode checksumState input =
      (true, { header, needDrainDataFlag := true, hasInputDataBuffer := true }, input) := by
  simp [DelayDecodePacket.create, plain, DelayDecodePacket.decode, DelayDecodePacket.delayDecode,
    DelayDecodePacket.clearInputDataBuffer]

/-- What `decode` leaves of an advance packet whose checksum is accepted. -/
theorem decode_verified (advance : isAdvancePacket header.pcode = true)
    {looked : DataBuffer} (verified : AdvancePacket.verifyChecksum checksumState
      header.dataLen.toInt.toNat input = (true, looked)) :
    (DelayDecodePacket.create header).decode checksumState input =
      (true,
        { header := { header with
            dataLen := header.dataLen - BitVec.ofNat 32 AdvancePacketHeader.size }
          advHeader := some (AdvancePacket.readHeader looked).1
          needDrainDataFlag := true, hasInputDataBuffer := true },
        looked.skip AdvancePacketHeader.size) := by
  simp only [DelayDecodePacket.create, advance, if_true, DelayDecodePacket.decode, verified,
    DelayDecodePacket.delayDecode, DelayDecodePacket.clearInputDataBuffer, Bool.and_self,
    Bool.false_eq_true, if_false, readHeader_input]

/-- What `decode` leaves of an advance packet. -/
theorem decode_advance (advance : isAdvancePacket header.pcode = true)
    (decoded : (DelayDecodePacket.create header).decode checksumState input = (true, packet, input')) :
    let looked := (verifyChecksum checksumState header.dataLen.toInt.toNat input).2
    packet = { header := { header with
                dataLen := header.dataLen - BitVec.ofNat 32 size }
               advHeader := some (readHeader looked).1
               needDrainDataFlag := true, hasInputDataBuffer := true } ∧
      input' = looked.skip size := by
  cases verified : verifyChecksum checksumState header.dataLen.toInt.toNat input with
  | mk ok looked =>
    cases ok with
    | false =>
      simp only [DelayDecodePacket.create, advance, if_true, DelayDecodePacket.decode,
        verified] at decoded
      cases decoded
    | true =>
      cases (decode_verified advance verified).symm.trans decoded
      exact ⟨rfl, rfl⟩

theorem peek_unread {b : DataBuffer} {i : Nat} {x : UInt8} (found : b.unread[i]? = some x) :
    b.peek i = x := by
  rw [unread, getElem?_drop] at found
  rw [peek, getD_eq_getElem?_getD, found, Option.getD_some]

/-- A handler consumes a packet: one that fits, with room for the advance header if it has one. Byte 13
of an advance packet is its version. -/
def Handler.Consumes {σ μ τ : Type} (handler : Handler σ μ τ) (header : PacketHeader)
    (data : List UInt8) : Prop :=
  if isAdvancePacket header.pcode then
    AdvancePacketHeader.size ≤ data.length ∧
      handler.Fits (data.getD 13 0) (header.pcode &&& ~~~advancePacketMask)
        (data.drop AdvancePacketHeader.size)
  else handler.Fits 0 header.pcode data

variable {data following : List UInt8}

/-- What the buffer is once the header of an advance packet is read. -/
theorem behind_advance (inside : input.pdata ≤ input.mem.length) (h : input.unread = data ++ following)
    (length : header.dataLen.toInt = data.length) (checksumState : Bool)
    (long : AdvancePacketHeader.size ≤ data.length) :
    let looked :=
      (verifyChecksum checksumState header.dataLen.toInt.toNat input.mark).2
    let behind := looked.skip size
    behind.pdata ≤ behind.mem.length ∧
      behind.unread = data.drop size ++ following ∧
      behind.pdata + (data.drop size).length = input.pdata + data.length ∧
      behind.reach ≤ input.pdata + data.length ∧
      (readHeader looked).1.packetVersion = data.getD 13 0 := by
  intro looked behind
  have size : size = 16 := rfl
  have enough := enough_of_unread inside h
  obtain ⟨sameLength, samePlace, -, high⟩ :=
    verifyChecksum_looked checksumState header.dataLen.toInt.toNat input.mark
  have place : looked.pdata = input.pdata := samePlace
  have mem : looked.mem.length = input.mem.length := sameLength
  have seen : looked.reach ≤ max (max input.pdata (input.pdata + 13)) (input.pdata + data.length) := by
    have len : header.dataLen.toInt.toNat = data.length := by omega
    have bound : looked.reach ≤ max (max input.pdata (input.pdata + 13))
        (input.pdata + header.dataLen.toInt.toNat) := high
    rwa [len] at bound
  have same : looked.unread.drop 8 = (data ++ following).drop 8 :=
    (drop_verifyChecksum checksumState _ input.mark).trans (congrArg (drop 8) h)
  refine ⟨?_, ?_, ?_, ?_, ?_⟩
  · change looked.pdata + 16 ≤ looked.mem.length
    omega
  · have further := congrArg (drop 8) same
    rw [drop_drop, drop_drop] at further
    change looked.mem.drop (looked.pdata + 16) = _
    rw [← drop_drop]
    exact further.trans (drop_append_of_le_length long)
  · change looked.pdata + 16 + _ = _
    rw [length_drop]
    omega
  · change max looked.reach (looked.pdata + 0 + 16) ≤ _
    omega
  · rw [packetVersion_readHeader]
    apply peek_unread
    have here := congrArg (fun bytes => bytes[5]?) same
    simp only [getElem?_drop] at here
    rw [here, getElem?_append_left (by omega), getD_eq_getElem?_getD,
      getElem?_eq_getElem (by omega), Option.getD_some]

/-- A packet that was handled and freed has taken exactly the announced length from the input buffer,
and nothing behind it was looked at, exactly if the handler consumes it. -/
theorem consumed_exactly_iff {σ μ τ : Type} (handler : Handler σ μ τ) (checksumState : Bool)
    (header : PacketHeader) (input : DataBuffer) (data following : List UInt8)
    (inside : input.pdata ≤ input.mem.length) (h : input.unread = data ++ following)
    (length : header.dataLen.toInt = data.length) (packet : DelayDecodePacket) (input' : DataBuffer)
    (decoded : (DelayDecodePacket.create header).decode checksumState input.mark =
      (true, packet, input')) :
    AtEnd (input.pdata + data.length) (handler.handle packet.cleanupFlags input') ↔
      handler.Consumes header data := by
  cases advance : isAdvancePacket header.pcode with
  | false =>
    rw [decode_plain advance] at decoded
    cases decoded
    rw [Handler.Consumes, advance, if_neg Bool.false_ne_true]
    exact handler.atEnd_handle_iff ⟨rfl, rfl⟩ length inside h (Nat.le_add_right ..)
  | true =>
    obtain ⟨rfl, rfl⟩ := decode_advance advance decoded
    rw [Handler.Consumes, advance, if_pos rfl]
    by_cases long : AdvancePacketHeader.size ≤ data.length
    · obtain ⟨inside', behind, last, unseen, version⟩ :=
        behind_advance inside h length checksumState long
      rw [and_iff_right long, ← last, ← version]
      refine handler.atEnd_handle_iff ⟨rfl, rfl⟩ ?_ inside' behind (last ▸ unseen)
      have left := toInt_sub_size header.dataLen (by omega)
      have size : AdvancePacketHeader.size = 16 := rfl
      change (header.dataLen - BitVec.ofNat 32 AdvancePacketHeader.size).toInt = _
      rw [length_drop]
      omega
    · -- the sixteen bytes of the advance header are looked at in any case
      refine iff_of_false ?_ (fun fits => long fits.1)
      rintro ⟨-, unseen⟩
      have seen := handler.reach_handle ⟨rfl, rfl⟩ _ |>.trans unseen
      obtain ⟨-, samePlace, -, -⟩ :=
        verifyChecksum_looked checksumState header.dataLen.toInt.toNat input.mark
      have place : (verifyChecksum checksumState header.dataLen.toInt.toNat
        input.mark).2.pdata = input.pdata := samePlace
      have size : AdvancePacketHeader.size = 16 := rfl
      simp only [skip, touch] at seen
      omega

/-- A plain packet of two bytes that nobody decodes, in front of another one. -/
theorem consumed_exactly_iff_discarded :
    let header : PacketHeader := { chid := 1, pcode := 3, dataLen := 2 }
    let input : DataBuffer := { mem := [7, 8, 9] }
    ∃ packet input', (DelayDecodePacket.create header).decode true input.mark =
        (true, packet, input') ∧
      AtEnd 2 ((Handler.discard : Handler Unit Unit Unit).handle packet.cleanupFlags input') := by
  intro header input
  have plain : isAdvancePacket header.pcode = false := by decide
  refine ⟨_, _, decode_plain plain, ?_⟩
  have fits : (Handler.discard : Handler Unit Unit Unit).Consumes header [7, 8] := by
    rw [Handler.Consumes, plain]
    exact trivial
  exact (consumed_exactly_iff Handler.discard true header input [7, 8] [9] (by decide) rfl rfl _ _
    (decode_plain plain)).mpr fits

/-- Two traced replies of version 1. The first has a byte behind its body, which is left in the buffer.
The content of the second is three bytes long, and the byte behind it is taken for part of a length. -/
theorem replies_not_consumed :
    let raw : MessageType (List UInt8) := ⟨[], fun _ => true, id, fun bytes => (true, bytes)⟩
    let error : MessageType ErrorMsg := ⟨{}, fun _ => true, fun _ => [], fun _ => (true, {})⟩
    let handler : Handler Unit (List UInt8) (List UInt8) := .reply true raw raw error fun _ => ""
    let advHeader : List UInt8 := [0, 0, 0, 0, 0, 0, 0, 0, 0, 0, 0, 0, 0, 1, 0, 0]
    let first := (DelayDecodePacket.create { chid := 1, pcode := 0x8000, dataLen := 27 }).decode false
      (mark { mem := advHeader ++ [0, 0, 0, 1, 5, 0, 0, 0, 1, 6, 77] })
    let second := (DelayDecodePacket.create { chid := 1, pcode := 0x8000, dataLen := 19 }).decode false
      (mark { mem := advHeader ++ [0, 0, 0] ++ [65] })
    first.1 = true ∧ (handler.handle first.2.1.cleanupFlags first.2.2).pdata = 26 ∧
    second.1 = true ∧ (handler.handle second.2.1.cleanupFlags second.2.2).reach = 20 := by
  decide

end Receiving

end AgentEngine.Arpc
