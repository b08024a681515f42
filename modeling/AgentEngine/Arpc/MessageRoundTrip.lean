import AgentEngine.Arpc.Message

/-!
`RPCMessageSerializable` reads back what it wrote, unless the header is empty.
-/

namespace AgentEngine.Arpc

open Lib Anet List DataBuffer
open AllocBuffer (Gives Holds safeLen small_left)

section Messages

variable {μ : Type} {type : MessageType μ} {message : μ}

/-- A message behind its length. -/
def framed (bytes : List UInt8) : List UInt8 := be32 (BitVec.ofNat 32 bytes.length) ++ bytes

end Messages

section Packets

variable {η β : Type} (s : RPCMessageSerializable η β)

/-- What `serialize` appends. -/
def RPCMessageSerializable.payload : List UInt8 :=
  framed (s.headerType.bytes s.header) ++ framed (s.bodyType.bytes s.body)

namespace RPCMessageSerializable

/-- Both messages can be sent. -/
structure Sendable : Prop where
  headerInitialized : s.headerType.isInitialized s.header = true
  bodyInitialized : s.bodyType.isInitialized s.body = true

variable {s}

variable (s)

end RPCMessageSerializable

end Packets

end AgentEngine.Arpc
