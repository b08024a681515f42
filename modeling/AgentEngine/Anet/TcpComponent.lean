import AgentEngine.Anet.Connection
import AgentEngine.Lib.Transitions

/-!
`TCPComponent` (`tcpcomponent.cpp`, `iocomponent.h`): the state of a connection, how it gets lost,
closed and connected again, and which commands it posts to its worker.

Every operation holds the lock of the component, except while it calls back a packet handler or the
server adapter. Then other threads may use the component, and the code that was called back may, too.
So an operation is cut into parts: it goes on until a callback may be made, and what is left of it
then stands in `suspended` until it is taken up again.

What a `Connection` does is here only where it acts on the component: `closeHook` and `openHook` set
`_closed`, and `writeData` and `readData` say whether the connection is still good.
-/

namespace AgentEngine.Anet

/-- `IOCState`. -/
inductive IOCState where
  | toBeConnecting
  | connecting
  | connected
  | closing
  | closed
deriving DecidableEq

/-- The value of the enumerator. -/
def IOCState.value : IOCState → Nat
  | .toBeConnecting => 1
  | .connecting => 2
  | .connected => 3
  | .closing => 4
  | .closed => 5

/-- `RECONNErr`. -/
inductive RECONNErr where
  | ok
  | conflict
  | connected
  | closed
  | sockFailed
deriving DecidableEq

/-- `TC_ADD_IOC` and `TC_REMOVE_IOC`. -/
inductive CommandType where
  | addIoc
  | removeIoc
deriving DecidableEq

/-- `MAX_RECONNECTING_TIMES`. -/
def maxReconnectingTimes : Nat := 30

/-- `RECONNECTING_INTERVAL`. -/
def reconnectingInterval : Int := 1000000

namespace TCPComponent

/-- What is left of an operation that is making callbacks. -/
inductive Suspended where
  /-- In the close hook of `closeConnection` or `closeAndSetState`; if `checkTimeout` called that, it
  sets `_startConnectTime` afterwards. -/
  | removing (startConnectTime : Option Int)
  /-- In the close hook of the `closeAndSetState` of `Connection::checkTimeout`. -/
  | removingFirst (now : Int)
  /-- In `Connection::checkTimeout` or `closeHook`, in the first half of `checkTimeout`. -/
  | checking (now : Int)
  /-- In the close hook at the end of `checkTimeout`. -/
  | givingUp
  /-- In `readData`. -/
  | reading
deriving DecidableEq

end TCPComponent

open TCPComponent

/-- A component that has a connection. -/
structure TCPComponent where
  isServer : Bool
  /-- `existPacketHeader` of the streamer. -/
  existPacketHeader : Bool
  /-- `flags::getConnectTimeout()`. -/
  connectTimeout : Int
  state : IOCState
  autoReconn : Nat
  startConnectTime : Int
  isSocketInEpoll : Bool := true
  /-- `_closed` of the connection. -/
  closed : Bool := false
  /-- The commands posted for the component. -/
  commands : List CommandType := [.addIoc]
  suspended : List Suspended := []
  /-- The number of attempts to reconnect since the component was last connected. It is not a field
  of the source. -/
  attempts : Nat := 0

namespace TCPComponent

/-- The value that `setAutoReconn` gives to `_autoReconn`. -/
def budget (isServer on : Bool) : Nat := if isServer || !on then 0 else maxReconnectingTimes

/-- A client as `doConnect` opens it. -/
def openClient (existPacketHeader autoReconn : Bool) (connectTimeout now : Int) : TCPComponent where
  isServer := false
  existPacketHeader := existPacketHeader
  connectTimeout := connectTimeout
  state := .connecting
  autoReconn := budget false autoReconn
  startConnectTime := now

/-- The server's end of a connection that was accepted. -/
def openServer (existPacketHeader : Bool) (connectTimeout now : Int) : TCPComponent where
  isServer := true
  existPacketHeader := existPacketHeader
  connectTimeout := connectTimeout
  state := .connected
  autoReconn := 0
  startConnectTime := now

def isAutoReconn (c : TCPComponent) : Bool := c.autoReconn ≠ 0 && !c.isServer

def postCommand (c : TCPComponent) (type : CommandType) : TCPComponent :=
  { c with commands := c.commands ++ [type] }

def suspend (c : TCPComponent) (rest : Suspended) : TCPComponent :=
  { c with suspended := c.suspended ++ [rest] }

def closeSocketNoLock (c : TCPComponent) : TCPComponent := { c with isSocketInEpoll := false }

/-- `setState` makes the connection's close hook run. -/
def hooks (c : TCPComponent) (state : IOCState) : Bool :=
  c.state.value < IOCState.closing.value && state.value ≥ IOCState.closing.value

/-- `setState`, up to its close hook if it has one, and what it returns. -/
def setState (c : TCPComponent) (state : IOCState) : Bool × TCPComponent :=
  if c.state.value < IOCState.closing.value then
    (true, { c with state, closed := c.closed || c.hooks state })
  -- for manual reconnecting
  else if c.state = .closing ∧ state = .connecting then (true, { c with state })
  else if state.value > c.state.value then (true, { c with state })
  else (false, c)

/-- `closeAndSetState`, up to the close hook if there is one, which is what it returns. -/
def closeAndSetState (c : TCPComponent) : Bool × TCPComponent :=
  let c := c.closeSocketNoLock
  let state : IOCState := if c.autoReconn ≠ 0 then .toBeConnecting else .closing
  if c.hooks state then (true, (c.setState state).2)
  else (false, (c.setState state).2.postCommand .removeIoc)

/-- `closeAndSetState` as the last thing that an operation does. -/
def closeAtLast (c : TCPComponent) : TCPComponent :=
  let (inHook, c) := c.closeAndSetState
  if inHook then c.suspend (.removing none) else c

/-- `closeConnection`. -/
def closeConnection (c : TCPComponent) : TCPComponent :=
  let c := c.closeSocketNoLock
  if c.hooks .closing then (c.setState .closing).2.suspend (.removing none)
  else
    let (changed, c) := c.setState .closing
    if changed then c.postCommand .removeIoc else c

/-- `handleWriteEvent` finds that the connection was made. -/
def comeUp (c : TCPComponent) : TCPComponent :=
  let c := (c.setState .connected).2
  { c with autoReconn := budget c.isServer c.isAutoReconn, attempts := 0 }

/-- `handleWriteEvent`; `rc` is what `writeData` returns. -/
def handleWriteEvent (c : TCPComponent) (rc : Bool) : TCPComponent :=
  let c := if c.state = .connecting then c.comeUp else c
  if c.state = .connected then if rc then c else c.closeAtLast else c

def handleErrorEvent (c : TCPComponent) : TCPComponent :=
  if c.state = .connected || c.state = .connecting then c.closeAtLast else c

/-- `handleReadEvent` until `readData` has read and handled what there is. -/
def handleReadEvent (c : TCPComponent) : TCPComponent :=
  if c.state = .connected then c.suspend .reading else c

/-- `socketReconnect`; `connects` is what `socketConnect` returns. -/
def socketReconnect (c : TCPComponent) (now : Int) (connects : Bool) : TCPComponent :=
  let c := { c with startConnectTime := now }
  if connects then { c with isSocketInEpoll := true }.postCommand .addIoc else c

def reconnect (c : TCPComponent) (now : Int) (connects : Bool) : RECONNErr × TCPComponent :=
  if c.autoReconn ≠ 0 then (.conflict, c)
  else if c.state.value ≤ IOCState.connected.value then (.connected, c)
  else if c.state = .closing then
    let c := c.socketReconnect now connects
    if connects then (.ok, { (c.setState .connecting).2 with closed := false }) else (.sockFailed, c)
  else (.closed, c)

/-- The first half of `checkTimeout`; `expired` says whether `Connection::checkTimeout` finds
channels whose time is over. -/
def checkTimeout (c : TCPComponent) (now : Int) (expired : Bool) : TCPComponent :=
  if c.state.value < IOCState.closing.value then
    if !c.isServer && expired && !c.existPacketHeader && now ≠ TimeUtil.MAX then
      let (inHook, c) := c.closeAndSetState
      if inHook then c.suspend (.removingFirst now) else c.suspend (.checking now)
    else c.suspend (.checking now)
  else { c with closed := true }.suspend (.checking now)

/-- What an operation gets to know when it goes on. -/
structure Answers where
  /-- What `readData` returns. -/
  rc : Bool
  /-- What `socketConnect` returns. -/
  connects : Bool
  /-- The component was not used for longer than `_maxIdleTimeInMicroseconds`. -/
  idle : Bool
  /-- `getRef() == 1`. -/
  alone : Bool
deriving DecidableEq

/-- `checkTimeout` makes an attempt to reconnect. -/
def retry (c : TCPComponent) (now : Int) (connects : Bool) : TCPComponent :=
  let c := { c with autoReconn := c.autoReconn - 1, attempts := c.attempts + 1 }
  let c := c.socketReconnect now connects
  if connects then (c.setState .connecting).2
  else if c.autoReconn = 0 then (c.setState .closing).2.suspend .givingUp
  else c

/-- The second half of `checkTimeout`. -/
def checkState (c : TCPComponent) (now : Int) (answers : Answers) : TCPComponent :=
  if c.state = .connecting then
    if c.startConnectTime > 0 && c.startConnectTime < now - c.connectTimeout then
      let (inHook, c) := c.closeAndSetState
      if inHook then c.suspend (.removing (some now)) else { c with startConnectTime := now }
    else c
  else if c.state = .connected && c.isServer then
    if answers.idle then { c with autoReconn := 0 }.closeAtLast else c
  else if c.state = .toBeConnecting && c.autoReconn ≠ 0 &&
      c.startConnectTime < now - reconnectingInterval then c.retry now answers.connects
  else if c.state = .closing && answers.alone then (c.setState .closed).2
  else c

/-- An operation goes on after its callbacks. -/
def goOn (c : TCPComponent) (answers : Answers) : Suspended → TCPComponent
  | .removing none => c.postCommand .removeIoc
  | .removing (some now) => { c.postCommand .removeIoc with startConnectTime := now }
  | .removingFirst now => (c.postCommand .removeIoc).suspend (.checking now)
  | .checking now => c.checkState now answers
  | .givingUp => c
  | .reading => if answers.rc then c else c.closeAtLast

inductive Action where
  | handleWriteEvent (rc : Bool)
  | handleErrorEvent
  | handleReadEvent
  | checkTimeout (now : Int) (expired : Bool)
  | close
  | reconnect (now : Int) (connects : Bool)
  /-- The operation at this place in `suspended` goes on. -/
  | goOn (index : Nat) (answers : Answers)
deriving DecidableEq

def step (c : TCPComponent) : Action → Option TCPComponent
  | .handleWriteEvent rc => some (c.handleWriteEvent rc)
  | .handleErrorEvent => some c.handleErrorEvent
  | .handleReadEvent => some c.handleReadEvent
  | .checkTimeout now expired => some (c.checkTimeout now expired)
  | .close => some c.closeConnection
  | .reconnect now connects => some (c.reconnect now connects).2
  | .goOn index answers =>
      (c.suspended[index]?).map fun rest =>
        { c with suspended := c.suspended.eraseIdx index }.goOn answers rest

/-! ### What the parts of an operation can do -/

section Parts

variable (c : TCPComponent)

/-- The connection is lost for good, or will be connected again; or the component was closed already
and stays so. -/
theorem closeAndSetState_cases :
    (c.state.value < IOCState.closing.value ∧ c.autoReconn = 0 ∧
      c.closeAndSetState = (true, { c with
        isSocketInEpoll := false
        state := .closing
        closed := true })) ∨
    (c.state.value < IOCState.closing.value ∧ c.autoReconn ≠ 0 ∧
      c.closeAndSetState = (false, { c with
        isSocketInEpoll := false
        state := .toBeConnecting
        commands := c.commands ++ [.removeIoc] })) ∨
    (IOCState.closing.value ≤ c.state.value ∧
      c.closeAndSetState = (false, { c with
        isSocketInEpoll := false
        commands := c.commands ++ [.removeIoc] })) := by
  obtain ⟨isServer, header, timeout, state, autoReconn⟩ := c
  cases state <;> by_cases auto : autoReconn = 0 <;>
    simp [closeAndSetState, closeSocketNoLock, hooks, setState, postCommand, IOCState.value, auto]

variable {c}

theorem comeUp_eq (connecting : c.state = .connecting) :
    c.comeUp = { c with
      state := .connected
      autoReconn := budget c.isServer c.isAutoReconn
      attempts := 0 } := by
  simp [comeUp, setState, hooks, connecting, IOCState.value, isAutoReconn]

theorem setState_closed_eq (closing : c.state = .closing) :
    (c.setState .closed).2 = { c with state := .closed } := by
  simp [setState, closing, IOCState.value]

variable (now : Int)

theorem retry_eq_of_connects (waiting : c.state = .toBeConnecting) : c.retry now true = { c with
      state := .connecting
      autoReconn := c.autoReconn - 1
      attempts := c.attempts + 1
      startConnectTime := now
      isSocketInEpoll := true
      commands := c.commands ++ [.addIoc] } := by
  simp [retry, socketReconnect, postCommand, setState, hooks, waiting, IOCState.value]

theorem retry_eq_of_last (waiting : c.state = .toBeConnecting) (last : c.autoReconn - 1 = 0) :
    c.retry now false = { c with
      state := .closing
      autoReconn := 0
      attempts := c.attempts + 1
      startConnectTime := now
      closed := true
      suspended := c.suspended ++ [.givingUp] } := by
  simp [retry, socketReconnect, suspend, setState, hooks, waiting, last, IOCState.value]

theorem retry_eq_of_more (more : c.autoReconn - 1 ≠ 0) : c.retry now false = { c with
      autoReconn := c.autoReconn - 1
      attempts := c.attempts + 1
      startConnectTime := now } := by
  simp [retry, socketReconnect, more]

end Parts

end TCPComponent

end AgentEngine.Anet
