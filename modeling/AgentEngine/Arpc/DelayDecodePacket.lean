import AgentEngine.Anet.Packet
import AgentEngine.Arpc.Message
import AgentEngine.Arpc.RpcServer

/-!
Packets whose content is decoded by their handler, straight from the input buffer of the connection
(`delaydecodepacket.cpp`), and the handlers of RPC requests and replies that do it
(`ANetRPCMessageCodec.cpp`, `ClientPacketHandler.cpp`).
-/

namespace AgentEngine.Arpc

open Lib Anet

/-! ### Packets -/

/-- A `DelayDecodePacket`, or an `AdvancePacket` of one if it has an advance header. -/
structure DelayDecodePacket where
  header : PacketHeader
  advHeader : Option AdvancePacketHeader := none
  needDrainDataFlag : Bool := false
  /-- `_inputDataBuffer` is set. -/
  hasInputDataBuffer : Bool := false

namespace DelayDecodePacket

/-- `AdvanceDelayDecodePacketFactory::createPacket`, followed by `setPacketHeader`. -/
def create (header : PacketHeader) : DelayDecodePacket :=
  { header, advHeader := if isAdvancePacket header.pcode then some {} else none }

variable (p : DelayDecodePacket) (input : DataBuffer)

def getPacketVersion : UInt8 :=
  match p.advHeader with
  | none => 0
  | some h => h.packetVersion

def getEffectiveDataLength : Int := p.header.dataLen.toInt

def cleanupFlags : DelayDecodePacket :=
  match p.advHeader with
  | none => p
  | some _ => { p with header.pcode := p.header.pcode &&& ~~~advancePacketMask }

def drainData (len : Int) (input : DataBuffer) : DelayDecodePacket × DataBuffer :=
  ({ p with needDrainDataFlag := false }, input.drainData len)

def clearInputDataBuffer : DelayDecodePacket × DataBuffer :=
  let (p, input) :=
    if p.needDrainDataFlag && p.hasInputDataBuffer then p.drainData p.getEffectiveDataLength input
    else (p, input)
  ({ p with needDrainDataFlag := false, hasInputDataBuffer := false }, input)

/-- `DelayDecodePacket::decode`: the data stays where it is. -/
def delayDecode : Bool × DelayDecodePacket × DataBuffer :=
  let (p, input) := p.clearInputDataBuffer input
  (true, { p with hasInputDataBuffer := true, needDrainDataFlag := true }, input)

/-- `decode`, of an advance packet if the packet is one. -/
def decode (checksumState : Bool) (p : DelayDecodePacket) (input : DataBuffer) :
    Bool × DelayDecodePacket × DataBuffer :=
  match p.advHeader with
  | none => p.delayDecode input
  | some _ =>
    let len := p.header.dataLen.toInt
    match AdvancePacket.verifyChecksum checksumState len.toNat input with
    | (false, input) => (false, p, input.drainData len)
    | (true, input) =>
      let (advHeader, input) := AdvancePacket.readHeader input
      let dataLen := p.header.dataLen - BitVec.ofNat 32 AdvancePacketHeader.size
      delayDecode { p with header.dataLen := dataLen, advHeader := some advHeader } input

/-- `decodeToContent`, for a content that is known by its `deserialize`. -/
def decodeToContent {α : Type} (p : DelayDecodePacket)
    (deserialize : DataBuffer → Int → Bool × α × DataBuffer) (input : DataBuffer) :
    Bool × α × DelayDecodePacket × DataBuffer :=
  let (ret, content, input) := deserialize input p.getEffectiveDataLength
  (ret, content, { p with needDrainDataFlag := false }, input)

/-- `free`: the destructor drains what was not decoded. -/
def free : DataBuffer := (p.clearInputDataBuffer input).2

end DelayDecodePacket

/-! ### Requests -/

/-- `ErrorCode`, of which a packet may hold any value; those that are set here have a name. -/
abbrev ErrorCode := BitVec 32

namespace ErrorCode

def ok : ErrorCode := 0
def rpcCallMismatch : ErrorCode := 2
def decodePacket : ErrorCode := 6
def invalidVersion : ErrorCode := 13

end ErrorCode

/-- `ARPC_VERSION_CURRENT`. -/
def arpcVersionCurrent : UInt8 := 1

/-- The fields of a `RpcMsgHeader` that are used. -/
structure RpcMsgHeader where
  enableTrace : Bool := false
  userPayload : List UInt8 := []
  group : Option (BitVec 32) := none
  deriving DecidableEq, Repr

/-- What `DecodeRequest` makes of a request. -/
structure CodecContext (σ μ : Type) where
  errorCode : ErrorCode := ErrorCode.ok
  call : Option (ServiceMethodPair σ) := none
  request : Option μ := none
  enableTrace : Bool := false
  userPayload : List UInt8 := []
  qosId : BitVec 32 := 0

def RPCServer.getRpcCall {σ : Type} (server : RPCServer σ) (callId : BitVec 32) :
    Option (ServiceMethodPair σ) :=
  server.rpcCallMap.lookup (UInt32.ofBitVec callId)

namespace ANetRPCMessageCodec

variable {σ μ : Type} (headerType : MessageType RpcMsgHeader)
  (requestType : ServiceMethodPair σ → MessageType μ)

/-- The part of `DecodeRequest` after the content is decoded. -/
def requestContext (call : ServiceMethodPair σ) (ret : Bool) (msgHeader : Option RpcMsgHeader)
    (request : μ) : CodecContext σ μ :=
  if ret then
    match msgHeader with
    | none => { call := some call, request := some request }
    | some h =>
      { call := some call, request := some request, enableTrace := h.enableTrace,
        userPayload := h.userPayload, qosId := h.group.getD 0 }
  else { call := some call, errorCode := ErrorCode.decodePacket }

/-- `DecodeRequest`. -/
def decodeRequest (server : RPCServer σ) (packet : DelayDecodePacket) (input : DataBuffer) :
    CodecContext σ μ × DelayDecodePacket × DataBuffer :=
  let version := packet.getPacketVersion
  if version > arpcVersionCurrent then ({ errorCode := ErrorCode.invalidVersion }, packet, input)
  else
    match server.getRpcCall packet.header.pcode with
    | none => ({ errorCode := ErrorCode.rpcCallMismatch }, packet, input)
    | some call =>
      let type := requestType call
      if version = 0 then
        let content : MessageSerializable μ := { type, message := type.fresh }
        let (ret, content, packet, input) := packet.decodeToContent content.deserialize input
        (requestContext call ret none content.message, packet, input)
      else
        let content : RPCMessageSerializable RpcMsgHeader μ :=
          { headerType, bodyType := type, header := headerType.fresh, body := type.fresh }
        let (ret, content, packet, input) := packet.decodeToContent content.deserialize input
        (requestContext call ret (some content.header) content.body, packet, input)

end ANetRPCMessageCodec

/-! ### Replies -/

/-- `ErrorMsg`. -/
structure ErrorMsg where
  errorMsg : List UInt8 := []
  errorCode : ErrorCode := ErrorCode.ok
  deriving DecidableEq, Repr

/-- What the controller of a call is told. -/
inductive Outcome (μ : Type) where
  | response (message : μ)
  | failed (reason : List UInt8) (errorCode : ErrorCode)
  deriving DecidableEq, Repr

/-- The name of an error code as bytes, from `ErrorCode_Name`. -/
def errorCodeToString (name : ErrorCode → String) (code : ErrorCode) : List UInt8 :=
  (name code).toUTF8.toList

namespace ClientPacketHandler

variable {μ τ : Type} (responseType : MessageType μ) (traceType : MessageType τ)
  (errorType : MessageType ErrorMsg) (name : ErrorCode → String)

/-- What a reply with an error code says; the message has a code of its own if that is not zero. -/
def failure (pcode : ErrorCode) (errMsg : ErrorMsg) : Outcome μ :=
  .failed errMsg.errorMsg (if errMsg.errorCode ≠ ErrorCode.ok then errMsg.errorCode else pcode)

/-- `decodePacket`, up to the call of `free`. -/
def decodePacket (traceFlag : Bool) (packet : DelayDecodePacket) (input : DataBuffer) :
    Outcome μ × DelayDecodePacket × DataBuffer :=
  let pcode := packet.header.pcode
  let undecoded : Outcome μ :=
    .failed (errorCodeToString name ErrorCode.decodePacket) ErrorCode.decodePacket
  if packet.getPacketVersion = 1 ∧ traceFlag = true then
    if pcode ≠ ErrorCode.ok then
      let content : RPCMessageSerializable τ ErrorMsg :=
        { headerType := traceType, bodyType := errorType,
          header := traceType.fresh, body := errorType.fresh }
      let (ret, content, packet, input) := packet.decodeToContent content.deserialize input
      (if ret then failure pcode content.body else undecoded, packet, input)
    else
      let content : RPCMessageSerializable τ μ :=
        { headerType := traceType, bodyType := responseType,
          header := traceType.fresh, body := responseType.fresh }
      let (ret, content, packet, input) := packet.decodeToContent content.deserialize input
      (if ret then .response content.body else undecoded, packet, input)
  else
    if pcode ≠ ErrorCode.ok then
      let content : MessageSerializable ErrorMsg := { type := errorType, message := errorType.fresh }
      let (ret, content, packet, input) := packet.decodeToContent content.deserialize input
      (if ret then failure pcode content.message else undecoded, packet, input)
    else
      let content : MessageSerializable μ := { type := responseType, message := responseType.fresh }
      let (ret, content, packet, input) := packet.decodeToContent content.deserialize input
      (if ret then .response content.message else undecoded, packet, input)

end ClientPacketHandler

end AgentEngine.Arpc
