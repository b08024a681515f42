import AgentEngine.Anet.ChannelPool
import AgentEngine.Anet.Packet

/-!
The client side of a `TCPConnection` over a streamer with packet headers (`connection.cpp`,
`tcpconnection.cpp`, `orderedpacketqueue.cpp`, `packetqueue.cpp`, `packet.cpp`): how a request
that was posted gets to the socket, and how its handler comes to be called.

Other threads may post at any point where the connection does not hold `_outputCond`. An
operation therefore takes what they do at each of these points as an argument, and `yield`
lets them do it. Of `_output` only the number of unsent bytes matters here.
-/

namespace AgentEngine.Anet

namespace TimeUtil

def MAX : Int := 2 ^ 63 - 1
def PRE_MAX : Int := 2 ^ 63 - 2

/-- A reading of `getTime`, in microseconds since the epoch. The bound keeps sums of a time
and a timeout within 64 bits for the next hundred thousand years. -/
abbrev Clock := Fin (2 ^ 62)

end TimeUtil

open TimeUtil

/-! ### Packets on their way out -/

theorem noExpireTime : (0 : Int) ≤ 0 ∧ 0 ≤ PRE_MAX := by decide

/-- What a connection knows of a `Packet` that it sends: `advance` packets have room for a
64-bit channel id, and `size` is the number of bytes that `encode` writes. -/
structure Outgoing where
  advance : Bool
  size : Nat
  expireTime : Int := 0
  timeoutMs : Int := 0
  channel : Option ChannelRef := none
  valid : 0 ≤ expireTime ∧ expireTime ≤ PRE_MAX := by first | exact noExpireTime | decide
deriving DecidableEq

namespace Outgoing

theorem expire_valid (now : Clock) (milliseconds : BitVec 32) (h : 0 ≤ milliseconds.toInt) :
    0 ≤ (now.val + milliseconds.toInt * 1000 : Int) ∧
      (now.val + milliseconds.toInt * 1000 : Int) ≤ PRE_MAX := by
  have := now.isLt
  have := milliseconds.toInt_lt
  unfold PRE_MAX
  omega

def setExpireTime (p : Outgoing) (milliseconds : BitVec 32) (now : Clock) : Outgoing :=
  if h : milliseconds.toInt < 0 then
    { p with expireTime := PRE_MAX, valid := by decide }
  else if milliseconds.toInt = 0 then { p with expireTime := 0, valid := by decide }
  else
    { p with
      timeoutMs := milliseconds.toInt
      expireTime := now.val + milliseconds.toInt * 1000
      valid := expire_valid now milliseconds (Int.not_lt.mp h) }

end Outgoing

/-- `setChannelId` and then `getChannelId`: a plain packet has 32 bits for the id, and an
advance packet keeps the upper half in its own header. -/
def wireId (advance : Bool) (chid : BitVec 64) : BitVec 64 :=
  if advance then
    let chidHigh := chid >>> 32
    ((chid - (chidHigh <<< 32)).setWidth 32).setWidth 64 +
      ((chidHigh.setWidth 32).setWidth 64 <<< 32)
  else (chid.setWidth 32).setWidth 64

/-! ### OrderedPacketQueue -/

namespace OrderedPacketQueue

def push (queue : List Outgoing) (packet : Outgoing) : List Outgoing :=
  match queue.head?, queue.getLast? with
  | some head, some tail =>
      if packet.expireTime ≥ tail.expireTime then queue ++ [packet]
      else if packet.expireTime < head.expireTime then packet :: queue
      else
        queue.takeWhile (fun p => p.expireTime ≤ packet.expireTime) ++
          packet :: queue.dropWhile fun p => p.expireTime ≤ packet.expireTime
  | _, _ => [packet]

/-- `queue->moveBack(src)`; `src` is empty afterwards. -/
def moveBack (queue src : List Outgoing) : List Outgoing :=
  match queue.head?, src.getLast? with
  | _, none => queue
  | none, some _ => src
  | some head, some tail =>
      if tail.expireTime ≤ head.expireTime then src ++ queue
      else List.merge queue src fun l r => l.expireTime < r.expireTime

/-- `getTimeoutList(now)`: the packets that are taken out and those that stay. -/
def getTimeoutList (queue : List Outgoing) (now : Int) : List Outgoing × List Outgoing :=
  (queue.takeWhile (fun p => p.expireTime < now), queue.dropWhile fun p => p.expireTime < now)

end OrderedPacketQueue

/-! ### The connection -/

/-- A handler and the arguments it is called with. -/
abbrev Callback (η α : Type) := Option η × Option α

/-- What a handler is called with: a reply, or one of the two control packets. -/
inductive Delivered where
  | reply
  | timeoutPacket
  | connectionClosedPacket
deriving DecidableEq, Repr

/-- A call of `postPacket`. The clock is read once to stamp the packet and once more under
the lock. -/
structure Post (η α : Type) where
  packet : Outgoing
  handler : Option η
  args : Option α := none
  block : Bool := false
  stampedAt : Clock := 0
  now : Clock := 0

/-- A connection. The last four fields are not its own: they record what it did. -/
structure Connection (η α : Type) where
  pool : ChannelPool η α := {}
  /-- `_globalChannelId`, which all connections share. -/
  counter : BitVec 64 := 0
  outputQueue : List Outgoing := []
  output : Nat := 0
  closed : Bool := false
  queueTimeout : BitVec 32 := 5000
  queueLimit : Nat := 50
  lasttime : Int := 0
  defaultPacketHandler : Option η := none
  readWriteBufSize : Nat := 8192
  writeFinishClose : Bool := false
  writeFinishShutdown : Bool := false
  /-- The calls of `postPacket` that wait for room. -/
  blocked : List (Post η α) := []
  /-- The requests for which `postPacket` returned true. -/
  accepted : List (Callback η α) := []
  /-- The calls of handlers. -/
  invoked : List (Callback η α × Delivered) := []
  /-- The channel ids given out so far, here and elsewhere. -/
  allocations : Nat := 0

namespace Connection

variable {η α : Type}

/-! ### postPacket -/

/-- `getUseListCount() >= _queueLimit`. -/
def full (c : Connection η α) : Bool := sizeT c.pool.useCount.toInt ≥ c.queueLimit

/-- The end of `postPacket`: the packet gets a channel and goes into the queue. -/
def accept (c : Connection η α) (p : Post η α) : Connection η α :=
  let (channel, pool, counter) := c.pool.allocChannel 0 c.counter
  let pool := pool.modify channel fun ch =>
    { ch with handler := p.handler, args := p.args, id := wireId p.packet.advance ch.id }
  { c with
    pool
    counter
    outputQueue := OrderedPacketQueue.push c.outputQueue { p.packet with channel := some channel }
    accepted := c.accepted ++ [(p.handler, p.args)]
    allocations := c.allocations + 1 }

/-- `postPacket` from where it waits for room, which is also where it goes on when it is woken
up. The result `none` is that the call has not returned. -/
def whenRoom (c : Connection η α) (p : Post η α) : Option Bool × Connection η α :=
  if c.full && !c.closed then (none, { c with blocked := c.blocked ++ [p] })
  else if c.closed then (some false, c)
  else (some true, c.accept p)

/-- The packet as `postPacket` stamps it. -/
def stamp (c : Connection η α) (p : Post η α) : Post η α :=
  if p.packet.expireTime = 0 then
    { p with packet := p.packet.setExpireTime c.queueTimeout p.stampedAt }
  else p

/-- `postPacket` from where it looks at the limit of the queue. -/
def enterQueue (c : Connection η α) (p : Post η α) : Option Bool × Connection η α :=
  if c.queueLimit > 0 then
    if !p.block && c.full then (some false, c) else c.whenRoom p
  else (some true, c.accept p)

def postPacket (c : Connection η α) (p : Post η α) : Option Bool × Connection η α :=
  let p := c.stamp p
  if c.closed then (some false, c)
  else if c.outputQueue.length ≠ 0 ∧ p.now.val > c.lasttime + 4000000 then (some false, c)
  else (if c.outputQueue.length = 0 then { c with lasttime := p.now.val } else c).enterQueue p

/-! ### Other threads -/

/-- What another thread does: it posts, a call of it that waits is woken up, or another
connection takes a channel id. -/
inductive Other (η α : Type) where
  | post (p : Post η α)
  | wakeUp (k : Nat)
  | allocChannelId

def act (c : Connection η α) : Other η α → Connection η α
  | .post p => (c.postPacket p).2
  | .wakeUp k =>
      match c.blocked[k]? with
      | none => c
      | some p => ({ c with blocked := c.blocked.eraseIdx k }.whenRoom p).2
  | .allocChannelId =>
      { c with
        counter := (ChannelPool.createChannelId 0 c.counter).2
        allocations := c.allocations + 1 }

def yield (c : Connection η α) (others : List (Other η α)) : Connection η α := others.foldl act c

/-! ### writeData -/

/-- The surroundings of a call of `writeData`: what `_socket->write` and `getSoError` return
at each round, the clock, and what other threads do before the packet is taken that leaves
`n` more, before the `k`-th write and before the queue is locked again. -/
structure Writing (η α : Type) where
  socket : Nat → Int × Int
  now : Clock := 0
  atPop : Nat → List (Other η α) := fun _ => []
  atWrite : Nat → List (Other η α) := fun _ => []
  atEnd : List (Other η α) := []

/-- A packet is encoded, and its channel starts to wait for the reply. -/
def dequeue (c : Connection η α) (packet : Outgoing) : Connection η α :=
  let c := { c with output := c.output + packet.size }
  match packet.channel with
  | none => c
  | some channel =>
      if c.defaultPacketHandler.isNone ∧ (c.pool.channel channel).handler.isNone then
        { c with pool := (c.pool.freeChannel (some channel)).2 }
      else
        let pool := c.pool.modify channel fun ch =>
          { ch with expireTime := packet.expireTime, timeoutMs := packet.timeoutMs }
        { c with pool := pool.addToWaitingList channel }

/-- The inner loop of `writeData`, on `_myQueue`. -/
def fill (w : Writing η α) : List Outgoing → Connection η α → List Outgoing × Connection η α
  | [], c => ([], c)
  | packet :: rest, c =>
      if c.output < c.readWriteBufSize then
        fill w rest ((c.yield (w.atPop rest.length)).dequeue packet)
      else (packet :: rest, c)

/-- The outer loop, of which `rounds` are left: the error of the socket, what is left of
`_myQueue`, and the connection. -/
def flush (w : Writing η α) : Nat → List Outgoing → Connection η α →
    Int × List Outgoing × Connection η α
  | 0, myQueue, c => (0, myQueue, c)
  | rounds + 1, myQueue, c =>
      let (myQueue, c) := fill w myQueue c
      if c.output = 0 then (0, myQueue, c)
      else
        let (ret, soError) := w.socket rounds
        let c := c.yield (w.atWrite rounds)
        if ret > 0 then
          let c := { c with output := c.output - ret.toNat }
          if c.output = 0 ∧ myQueue.length > 0 then flush w rounds myQueue c
          else (0, myQueue, c)
        else (soError, myQueue, c)

/-- `EAGAIN`, which is also `EWOULDBLOCK`. -/
def EAGAIN : Int := 11

/-- The end of `writeData`: what it returns, and that it may drop the output. -/
def written (c : Connection η α) (error : Int) : Bool × Connection η α :=
  if error ≠ 0 ∧ error ≠ EAGAIN then (false, { c with output := 0 })
  else if c.outputQueue.length + (if c.output > 0 then 1 else 0) > 0 then (true, c)
  else if c.writeFinishShutdown then (true, c)
  else if c.writeFinishClose then (false, { c with output := 0 })
  else (true, c)

def writeData (w : Writing η α) (c : Connection η α) : Bool × Connection η α :=
  let myQueue := OrderedPacketQueue.moveBack [] c.outputQueue
  let c := { c with outputQueue := [] }
  if myQueue.length = 0 ∧ c.output = 0 then (true, c)
  else
    let (error, myQueue, c) := flush w 10 myQueue { c with lasttime := w.now.val }
    let c := c.yield w.atEnd
    { c with outputQueue := OrderedPacketQueue.moveBack c.outputQueue myQueue }.written error

/-! ### Calling handlers -/

/-- Call a handler, or the default one, if there is any. -/
def invoke (c : Connection η α) (handler : Option η) (args : Option α) (packet : Delivered) :
    Connection η α :=
  let handler := handler.or c.defaultPacketHandler
  if handler.isNone then c else { c with invoked := c.invoked ++ [((handler, args), packet)] }

/-- `handlePacket` on a packet with the channel id `chid`. -/
def handlePacket (c : Connection η α) (chid : BitVec 64) : Bool × Connection η α :=
  match c.pool.findChannel chid with
  | none => (false, c)
  | some channel =>
      let ch := c.pool.channel channel
      let c := { c with pool := (c.pool.freeChannel (some channel)).2 }
      (true, c.invoke ch.handler ch.args .reply)

/-- What other threads do during a call of `checkTimeout`: while the handler of a channel is
called, before the output queue is locked, and while the handler of a packet is called. The
argument is the number of channels or packets that are still to come. -/
structure Checking (η α : Type) where
  atChannel : Nat → List (Other η α) := fun _ => []
  atQueue : List (Other η α) := []
  atPacket : Nat → List (Other η α) := fun _ => []

/-- The loop over the channels that `getTimeoutList` returned. -/
def callChannels (t : Checking η α) (cmdPacket : Delivered) :
    Nat → Option ChannelRef → Connection η α → Connection η α
  | 0, _, c => c
  | _ + 1, none, c => c
  | fuel + 1, some channel, c =>
      let ch := c.pool.channel channel
      let c := (c.invoke ch.handler ch.args cmdPacket).yield (t.atChannel fuel)
      callChannels t cmdPacket fuel (c.pool.links.next channel) c

/-- The loop over the packets that were taken out of the output queue. -/
def callPackets (t : Checking η α) (cmdPacket : Delivered) :
    List Outgoing → Connection η α → Connection η α
  | [], c => c
  | packet :: rest, c =>
      let c := match packet.channel with
        | none => c
        | some channel =>
            let ch := c.pool.channel channel
            let c := { c with pool := (c.pool.freeChannel (some channel)).2 }
            (c.invoke ch.handler ch.args cmdPacket).yield (t.atPacket rest.length)
      callPackets t cmdPacket rest c

/-- The first half of `checkTimeout`: the channels that wait. -/
def checkChannels (t : Checking η α) (now : Int) (cmdPacket : Delivered) (c : Connection η α) :
    Connection η α :=
  let (list, pool) := c.pool.getTimeoutList now
  let c := callChannels t cmdPacket pool.rounds list { c with pool }
  { c with pool := c.pool.appendFreeList list }

/-- The second half: the packets that were not written. -/
def checkQueue (t : Checking η α) (now : Int) (cmdPacket : Delivered) (c : Connection η α) :
    Connection η α :=
  let (packetList, queue) := OrderedPacketQueue.getTimeoutList c.outputQueue now
  callPackets t cmdPacket packetList { c with outputQueue := queue }

def checkTimeout (t : Checking η α) (now : Int) (c : Connection η α) : Connection η α :=
  let cmdPacket := if now = MAX then .connectionClosedPacket else .timeoutPacket
  checkQueue t now cmdPacket ((checkChannels t now cmdPacket c).yield t.atQueue)

def closeHook (t : Checking η α) (c : Connection η α) : Connection η α :=
  checkTimeout t MAX { c with closed := true }

def openHook (c : Connection η α) : Connection η α := { c with closed := false }

/-! ### Runs -/

/-- What can happen to a connection. -/
inductive Event (η α : Type) where
  | other (o : Other η α)
  | setQueueTimeout (queueTimeout : BitVec 32)
  | setQueueLimit (limit : Nat)
  | writeData (w : Writing η α)
  | handlePacket (chid : BitVec 64)
  | checkTimeout (t : Checking η α) (now : Int)
  | closeHook (t : Checking η α)
  | openHook

def step (c : Connection η α) : Event η α → Connection η α
  | .other o => c.act o
  | .setQueueTimeout queueTimeout => { c with queueTimeout }
  | .setQueueLimit limit => { c with queueLimit := limit }
  | .writeData w => (writeData w c).2
  | .handlePacket chid => (c.handlePacket chid).2
  | .checkTimeout t now => checkTimeout t now c
  | .closeHook t => closeHook t c
  | .openHook => c.openHook

end Connection

end AgentEngine.Anet
