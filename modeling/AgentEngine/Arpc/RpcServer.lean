import AgentEngine.Lib.Transitions
import AgentEngine.Lib.UMap

/-!
The registries of `RPCServer` (`RPCServer.cpp`): which service answers a call, and on which thread
pool.

Services are values of an arbitrary type `σ`, which stands for the addresses of `RPCService`s. The
order in which the loops over the maps go is a parameter.
-/

namespace AgentEngine.Arpc

open Lib

structure RPCMethodDescriptor where
  name : String
  /-- The option `local_method_id`. -/
  localMethodId : UInt32
  deriving DecidableEq, Repr

structure RPCServiceDescriptor where
  /-- The option `global_service_id`. -/
  globalServiceId : UInt32
  methods : List RPCMethodDescriptor
  deriving DecidableEq, Repr

/-- `PacketCodeBuilder` for a method of a service. -/
def packetCode (service : RPCServiceDescriptor) (method : RPCMethodDescriptor) : UInt32 :=
  (service.globalServiceId <<< 16) ||| method.localMethodId

namespace RPCServiceDescriptor

def findMethodByName (desc : RPCServiceDescriptor) (methodName : String) :
    Option RPCMethodDescriptor :=
  desc.methods.find? fun method => method.name = methodName

end RPCServiceDescriptor

def defaultThreadPoolName : String := "ArpcTpDefault"

structure ThreadPoolDescriptor where
  threadPoolName : String := defaultThreadPoolName
  threadNum : Nat := 0
  queueSize : Nat := 0
  allowSharedPoolOverride : Bool := true
  deriving DecidableEq, Repr

/-- Where a thread pool is from: the server made it, or its user did. -/
inductive PoolOrigin where
  | server (n : Nat)
  | user (n : Nat)
  deriving DecidableEq, Repr

/-- A thread pool, with what it is constructed from. -/
structure Pool where
  origin : PoolOrigin
  name : String
  threadNum : Nat := 0
  queueSize : Nat := 0
  deriving DecidableEq, Repr

/-- `ServiceMethodPair`: a service, the shared pointer to it if it was registered by one, and a
method. -/
structure ServiceMethodPair (σ : Type) where
  shared : Option σ
  service : σ
  method : RPCMethodDescriptor
  deriving DecidableEq, Repr

structure RPCServer (σ : Type) where
  defaultThreadNum : Nat
  defaultQueueSize : Nat
  rpcCallMap : UMap UInt32 (ServiceMethodPair σ) := ∅
  threadPoolMap : UMap String Pool := ∅
  /-- A pool may be null here. -/
  serviceThreadPoolMap : UMap σ (Option Pool) := ∅
  sharedThreadPoolName : String := ""
  poolOverride : Bool := false
  /-- The pools that the server has made. It is not a field of the source. -/
  made : List Pool := []
  /-- The pools that were stopped. It is not a field of the source. -/
  stopped : List Pool := []
  /-- The service that was just passed to `unRegisterService`. It is not a field of the source. -/
  leaving : Option σ := none

/-- The orders in which the loops over the maps go. -/
structure MapOrders (σ : Type) where
  calls : IterOrder Unit UInt32
  services : IterOrder Unit σ
  pools : IterOrder Unit String

namespace RPCServer

variable {σ : Type} [DecidableEq σ] (descriptor : σ → RPCServiceDescriptor) (orders : MapOrders σ)

variable (server : RPCServer σ) (rpcService : σ) (desc : ThreadPoolDescriptor)

def getThreadPool (threadPoolName : String) : Option Pool :=
  server.threadPoolMap.lookup threadPoolName

/-! ### Thread pools -/

/-- The pool that `addAndStartThreadPool` makes. -/
def newThreadPool : Pool :=
  let isDefault := desc.threadPoolName = defaultThreadPoolName
  { origin := .server server.made.length
    name := desc.threadPoolName
    threadNum := if isDefault then server.defaultThreadNum else desc.threadNum
    queueSize := if isDefault then server.defaultQueueSize else desc.queueSize }

/-- `addAndStartThreadPool`, where a new pool `starts` or does not. -/
def addAndStartThreadPool (starts : Bool) : Bool × RPCServer σ :=
  match server.getThreadPool desc.threadPoolName with
  | some _ => (true, server)
  | none =>
    if starts then
      let pool := server.newThreadPool desc
      (true, { server with
        threadPoolMap := server.threadPoolMap.insert desc.threadPoolName pool
        made := server.made ++ [pool] })
    else (false, server)

def registerThreadPool (pool : Option Pool) : Bool × RPCServer σ :=
  match pool with
  | none => (false, server)
  | some pool =>
    (true, { server with
      threadPoolMap := server.threadPoolMap.insert pool.name pool
      sharedThreadPoolName := pool.name
      poolOverride := true })

/-- The entries that `reconstructThreadPoolMap` emplaces; a null pool has no name. -/
def namedPools : List (σ × Option Pool) → Option (List (String × Pool))
  | [] => some []
  | (_, none) :: _ => none
  | (_, some pool) :: rest => (namedPools rest).map fun named => (pool.name, pool) :: named

/-- `reconstructThreadPoolMap`. A pool of the old map is stopped if nobody else refers to it: no
service is mapped to it, and it is not among the pools that the users of the server hold. -/
def reconstructThreadPoolMap (held : List Pool) : Option (RPCServer σ) :=
  (namedPools (orders.services.entries () server.serviceThreadPoolMap)).map fun named =>
    let swapMap := (orders.pools.entries () server.threadPoolMap).map Prod.snd
    let newThreadPoolMap := emplaceAll ∅ named
    { server with
      threadPoolMap := newThreadPoolMap
      stopped := server.stopped ++ swapMap.filter fun pool =>
        pool ∉ named.map Prod.snd ∧ pool ∉ held }

/-- `removeServiceThreadPool`; a null pointer is no key of the map. -/
def removeServiceThreadPool (rpcService : Option σ) (held : List Pool) : Option (RPCServer σ) :=
  let serviceThreadPoolMap := match rpcService with
    | none => server.serviceThreadPoolMap
    | some rpcService => server.serviceThreadPoolMap.erase rpcService
  { server with serviceThreadPoolMap }.reconstructThreadPoolMap orders held

/-! ### Services -/

/-- The loop of `doRegisterService` over the methods of a service. -/
def collectMethods (rpcService : σ) (newMap : UMap UInt32 (ServiceMethodPair σ)) :
    List RPCMethodDescriptor → Option (UMap UInt32 (ServiceMethodPair σ))
  | [] => some newMap
  | method :: methods =>
    let rpcCode := packetCode (descriptor rpcService) method
    if rpcCode ∈ newMap then none
    else collectMethods rpcService
      (newMap.insert rpcCode { shared := none, service := rpcService, method }) methods

/-- `doRegisterService` of a plain pointer. -/
def doRegisterService : Bool × RPCServer σ :=
  match collectMethods descriptor rpcService ∅ (descriptor rpcService).methods with
  | none => (false, server)
  | some newMap =>
    (true, { server with
      rpcCallMap := emplaceAll newMap (orders.calls.entries () server.rpcCallMap) })

/-- `doRegisterService` of a shared pointer, for one method. -/
def doRegisterMethod (methodName : String) : Bool × RPCServer σ :=
  match (descriptor rpcService).findMethodByName methodName with
  | none => (false, server)
  | some method =>
    let rpcCode := packetCode (descriptor rpcService) method
    (true, { server with
      rpcCallMap := server.rpcCallMap.insert rpcCode
        { shared := some rpcService, service := rpcService, method } })

/-- Map a service to the pool of a name, which is null if there is none. -/
def mapService (threadPoolName : String) : RPCServer σ :=
  { server with
    serviceThreadPoolMap :=
      server.serviceThreadPoolMap.insert rpcService (server.getThreadPool threadPoolName) }

/-- Whether the shared pool takes the place of the pool that a descriptor asks for. -/
def overrides : Bool :=
  desc.allowSharedPoolOverride && server.poolOverride

/-- `RegisterService` of a plain pointer with a descriptor. -/
def registerService (starts : Bool) : Bool × RPCServer σ :=
  -- the name of the shared pool is only logged
  let (ready, server) :=
    if server.overrides desc then (true, server) else server.addAndStartThreadPool desc starts
  if ready then
    match server.doRegisterService descriptor orders rpcService with
    | (true, server) => (true, server.mapService rpcService desc.threadPoolName)
    | (false, server) => (false, server)
  else (false, server)

/-- `RegisterService` of a plain pointer with a pool. -/
def registerServiceOn (pool : Option Pool) : Bool × RPCServer σ :=
  match pool with
  | none => (false, server)
  | some pool =>
    let (_, server) := server.registerThreadPool (some pool)
    match server.doRegisterService descriptor orders rpcService with
    | (true, server) => (true, server.mapService rpcService pool.name)
    | (false, server) => (false, server)

/-- `RegisterService` of a shared pointer, for one method. -/
def registerMethod (methodName : String)
    (desc : ThreadPoolDescriptor) (starts : Bool) : Bool × RPCServer σ :=
  match server.addAndStartThreadPool desc starts with
  | (false, server) => (false, server)
  | (true, server) =>
    match server.doRegisterMethod descriptor rpcService methodName with
    | (true, server) => (true, server.mapService rpcService desc.threadPoolName)
    | (false, server) => (false, server)

/-- The loop of `unRegisterService` over the calls. -/
def removeCalls (rpcService : Option σ) (held : List Pool) (server : RPCServer σ)
    (newMap : UMap UInt32 (ServiceMethodPair σ)) :
    List (UInt32 × ServiceMethodPair σ) → Option (RPCServer σ)
  | [] => some { server with rpcCallMap := newMap }
  | (rpcCode, pair) :: rest =>
    if pair.shared = rpcService then
      (server.removeServiceThreadPool orders rpcService held).bind fun server =>
        removeCalls rpcService held server newMap rest
    else removeCalls rpcService held server (emplace newMap rpcCode pair) rest

def unRegisterService (rpcService : Option σ) (held : List Pool) : Option (RPCServer σ) :=
  removeCalls orders rpcService held server ∅ (orders.calls.entries () server.rpcCallMap)

/-! ### Calls -/

/-- A call of the server's interface, with what the rest of the world contributes: whether a new pool
starts, and which pools the users hold. -/
inductive Call (σ : Type) where
  | registerService (rpcService : σ) (desc : ThreadPoolDescriptor) (starts : Bool)
  | registerServiceOn (rpcService : σ) (pool : Option Pool)
  | registerMethod (rpcService : σ) (methodName : String) (desc : ThreadPoolDescriptor)
      (starts : Bool)
  | registerThreadPool (pool : Option Pool)
  | unRegisterService (rpcService : Option σ) (held : List Pool)

/-- A pool that may be passed to the server: it is not stopped, and is one of its user's or one that
the server made. -/
def IsStarted (pool : Pool) : Prop :=
  pool ∉ server.stopped ∧ (pool ∈ server.made ∨ ∃ n, pool.origin = .user n)

instance (server : RPCServer σ) (pool : Pool) : Decidable (server.IsStarted pool) :=
  match h : pool.origin with
  | .server n => decidable_of_iff (pool ∉ server.stopped ∧ pool ∈ server.made) (by simp [IsStarted, h])
  | .user n => decidable_of_iff (pool ∉ server.stopped) (by simp [IsStarted, h])

/-- One call. It is blocked if a pool is passed that is not started, and if it dereferences a null
pointer. -/
def step (call : Call σ) : Option (RPCServer σ) :=
  let server := { server with leaving := none }
  match call with
  | .registerService rpcService desc starts =>
    some (server.registerService descriptor orders rpcService desc starts).2
  | .registerServiceOn rpcService pool =>
    if ∀ p ∈ pool, server.IsStarted p then
      some (server.registerServiceOn descriptor orders rpcService pool).2
    else none
  | .registerMethod rpcService methodName desc starts =>
    some (server.registerMethod descriptor rpcService methodName desc starts).2
  | .registerThreadPool pool =>
    if ∀ p ∈ pool, server.IsStarted p then some (server.registerThreadPool pool).2 else none
  | .unRegisterService rpcService held =>
    { server with leaving := rpcService }.unRegisterService orders rpcService held

end RPCServer

end AgentEngine.Arpc
