import AgentEngine.Lib.Bytes

/-!
The connection of the Python client, `connection.py`.

Threads post requests; the poller reads, handles packets and writes. Each step is an event, and
what it means for the requests is an `Incident`. Nothing is ever taken out of `_packetMap`.
-/

namespace AgentEngine.Arpc.Python

open Lib List

/-! ### Slices -/

/-- A bound of a slice: a negative one counts from the end. -/
def bound (len : Nat) (i : Int) : Nat := if i < 0 then (len + i).toNat else min i.toNat len

/-- `xs[i:j]`. -/
def slice (xs : List UInt8) (i j : Int) : List UInt8 :=
  (xs.take (bound xs.length j)).drop (bound xs.length i)

/-- `xs[i:]`. -/
def sliceFrom (xs : List UInt8) (i : Int) : List UInt8 := xs.drop (bound xs.length i)

/-! ### Packets -/

def headLen : Nat := 16

/-- What is used of the tuple of `struct.unpack("!iiii", headBuf)`; the numbers are signed. -/
structure Header where
  channelId : Int
  pcode : Int
  bodyLen : Int
  deriving DecidableEq, Repr

def unpack (headBuf : List UInt8) : Header where
  channelId := (ofBe32 (slice headBuf 4 8)).toInt
  pcode := (ofBe32 (slice headBuf 8 12)).toInt
  bodyLen := (ofBe32 (slice headBuf 12 16)).toInt

/-- A packet and what `_inbuf` is after it. -/
structure Packet where
  headBuf : List UInt8
  body : List UInt8
  inbuf : List UInt8
  deriving DecidableEq, Repr

/-- `_readPacket`. The unpacking of a complete head does not fail. -/
def readPacket (inbuf : List UInt8) : Option Packet :=
  if headLen > inbuf.length then none
  else
    let headBuf := slice inbuf 0 headLen
    let packetLen := headLen + (unpack headBuf).bodyLen
    if packetLen > inbuf.length then none
    else some ⟨headBuf, slice inbuf headLen packetLen, sliceFrom inbuf packetLen⟩

/-! ### The connection -/

/-- What `recv` and `send` give. Errors are those that are not `EAGAIN` or `EWOULDBLOCK`. -/
inductive Recv where
  | received (buf : List UInt8)
  | again
  | error
  deriving DecidableEq

inductive Send where
  | sent (sendLen : Nat)
  | again
  | error
  deriving DecidableEq

/-- How the handling of a packet ends: an exception leaves the loop of `handleRead`. -/
inductive Outcome where
  | returned
  | parseRaised
  | callbackRaised
  deriving DecidableEq

/-- Threads post in two steps; the poller reads, handles packets one by one and writes. -/
inductive Event where
  | atomicGetGlobalChannelId
  | postPacket (channelId : Nat) (packet : List UInt8)
  | handleRead (result : Recv)
  | handlePacket (outcome : Outcome)
  | handleWrite (result : Send)
  deriving DecidableEq

/-- What an event means for the requests: one is posted, a packet completes one, or all fail. -/
inductive Incident where
  | posted (channelId : Nat)
  | reply (channelId : Nat)
  | failed
  deriving DecidableEq

structure Connection where
  inbuf : List UInt8 := []
  outbuf : List UInt8 := []
  isClosed : Bool := false
  maxChannelId : Nat := 0
  /-- The channels in `_packetMap`. -/
  packetMap : List Nat := []
  /-- The ids of posts that have not yet reached `postPacket`. -/
  pending : List Nat := []
  /-- The poller is in the loop of `handleRead`. -/
  reading : Bool := false
  deriving DecidableEq

namespace Connection

variable (c : Connection)

/-- `_readDataToInBuffer`; a closed socket only gives errors. -/
def readDataToInBuffer (result : Recv) : Connection × Option Incident :=
  match if c.isClosed then .error else result with
  | .received buf =>
      if buf.length = 0 then ({ c with isClosed := true }, some .failed)
      else ({ c with inbuf := c.inbuf ++ buf }, none)
  | .again => (c, none)
  | .error => (c, some .failed)

/-- `_writeDataFromOutBuffer`. -/
def writeDataFromOutBuffer (result : Send) : Connection × Option Incident :=
  if c.outbuf.length ≠ 0 then
    match if c.isClosed then .error else result with
    | .sent sendLen => ({ c with outbuf := sliceFrom c.outbuf sendLen }, none)
    | .again => (c, none)
    | .error => (c, some .failed)
  else (c, none)

/-- `_handlePacket`. A body is parsed only if the channel is known, the code is zero and there is
one; an exception that cannot be is as if there was none. -/
def handlePacket (outcome : Outcome) : Connection × Option Incident :=
  match readPacket c.inbuf with
  | none => ({ c with reading := false }, none)
  | some packet =>
      let header := unpack packet.headBuf
      let c := { c with inbuf := packet.inbuf }
      match c.packetMap.find? fun k : Nat => (k : Int) = header.channelId with
      | none => (c, none)
      | some channelId =>
          match outcome with
          | .returned => (c, some (.reply channelId))
          | .callbackRaised => ({ c with reading := false }, some (.reply channelId))
          | .parseRaised =>
              if header.pcode = 0 ∧ packet.body.length ≠ 0 then ({ c with reading := false }, none)
              else (c, some (.reply channelId))

/-- An event that cannot happen in the state changes nothing. -/
def step : Event → Connection × Option Incident
  | .atomicGetGlobalChannelId =>
      let channelId := c.maxChannelId + 1
      ({ c with maxChannelId := channelId, pending := channelId :: c.pending }, none)
  | .postPacket channelId packet =>
      -- the id was packed as a signed word of four bytes before
      if channelId ∈ c.pending ∧ channelId < 2 ^ 31 then
        ({ c with
            pending := c.pending.erase channelId
            packetMap := c.packetMap ++ [channelId]
            outbuf := c.outbuf ++ packet },
          some (.posted channelId))
      else (c, none)
  | .handleRead result =>
      if c.reading then (c, none)
      else
        let (c, incident) := c.readDataToInBuffer result
        ({ c with reading := true }, incident)
  | .handlePacket outcome => if c.reading then c.handlePacket outcome else (c, none)
  | .handleWrite result => c.writeDataFromOutBuffer result

/-- The requests whose `done` an incident invokes: `_failAll` goes through the map, and nothing
is ever taken out of it. The callbacks that it runs under the lock are taken to return. -/
def invoked : Incident → List Nat
  | .posted _ => []
  | .reply channelId => [channelId]
  | .failed => c.packetMap

/-- The calls of `done` in a step. -/
def calls (e : Event) : List Nat := (c.step e).2.toList.flatMap c.invoked

/-- The calls of `done` in a run, in their order. -/
def completions (c : Connection) : List Event → List Nat
  | [] => []
  | e :: es => c.calls e ++ completions (c.step e).1 es

end Connection

end AgentEngine.Arpc.Python
