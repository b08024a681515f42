import AgentEngine.Lib.Links
import Mathlib.Data.Int.Notation

/-!
`ChannelPool` (`channelpool.cpp`, `channel.cpp`): the channels of a connection.

Channels are created in clusters and never given back; they are numbered as they are
created, so that cluster `k` consists of the channels `64 k .. 64 k + 63`. Their `_prev` and
`_next` fields are kept in one `Links` record: the free list, the waiting list and the lists
that `getTimeoutList` detaches are all threaded through it. `η` and `α` are what handlers and
callback arguments point to, and `none` is `NULL`.
-/

namespace AgentEngine.Anet

open Lib

abbrev ChannelRef := Nat

/-- The fields of a `Channel` but for its two links. -/
structure Channel (η α : Type) where
  id : BitVec 64 := 0
  args : Option α := none
  handler : Option η := none
  expireTime : Int := 0
  timeoutMs : Int := 0
deriving DecidableEq, Repr

structure ChannelPool (η α : Type) where
  clusters : Nat := 0
  links : Links ChannelRef := ⟨fun _ => none, fun _ => none⟩
  channel : ChannelRef → Channel η α := fun _ => {}
  waitReplyMap : BitVec 64 → Option ChannelRef := fun _ => none
  freeListHead : Option ChannelRef := none
  freeListTail : Option ChannelRef := none
  waitReplyHead : Option ChannelRef := none
  waitReplyTail : Option ChannelRef := none
  useCount : BitVec 32 := 0

namespace ChannelPool

variable {η α : Type}

def CHANNEL_CLUSTER_SIZE : Nat := 64

def AUTO_CHANNEL_ID_MAX : BitVec 64 := 0x0FFFFFFFFFFFFFFF
def HTTP_CHANNEL_ID : BitVec 64 := 0x10000000
def ADMIN_CHANNEL_ID : BitVec 64 := 0x10000001

/-! ### Channel ids -/

variable (p : ChannelPool η α) (c : ChannelRef) (id : BitVec 64)

/-- The ids whose low word is reserved. -/
def skipped : Bool :=
  let low := (id.setWidth 32).setWidth 64
  low == HTTP_CHANNEL_ID || low == ADMIN_CHANNEL_ID || low == 0

/-- The loop of `createChannelId` on `_globalChannelId`: the id and the new counter. -/
def nextChannelId : Nat → BitVec 64 → BitVec 64 × BitVec 64
  | 0, counter => (0, counter)
  | fuel + 1, counter =>
      let counter := counter + 1
      let id := counter &&& AUTO_CHANNEL_ID_MAX
      if skipped id then nextChannelId fuel counter else (id, counter)

/-- At most two ids in a row are skipped, so that the loop is over after three rounds. -/
def createChannelId (chid counter : BitVec 64) : BitVec 64 × BitVec 64 :=
  if chid ≤ AUTO_CHANNEL_ID_MAX ∧ chid ≠ HTTP_CHANNEL_ID ∧ chid ≠ ADMIN_CHANNEL_ID then
    nextChannelId 3 counter
  else (chid, counter)

/-! ### Fields of a channel -/

/-- Change the fields of one channel. -/
def modify (f : Channel η α → Channel η α) : ChannelPool η α :=
  { p with channel := Function.update p.channel c (f (p.channel c)) }

/-- `Channel::init`. -/
def init : ChannelPool η α :=
  { p.modify c (fun _ => { id }) with links := (p.links.setPrev c none).setNext c none }

def setExpireTime (expireTime : Int) : ChannelPool η α :=
  p.modify c fun ch => { ch with expireTime }

def getExpireTime : Int := (p.channel c).expireTime

/-! ### The free list -/

/-- `new Channel[CHANNEL_CLUSTER_SIZE]`: every new channel is initialised with id 0. -/
def newCluster : ChannelPool η α :=
  { (List.range' (CHANNEL_CLUSTER_SIZE * p.clusters) CHANNEL_CLUSTER_SIZE).foldl
      (fun p c => p.init c 0) p with clusters := p.clusters + 1 }

/-- The branch of `allocChannel` for an empty free list: the first channel of a new cluster is
taken and the others become the free list. -/
def allocCluster : ChannelRef × ChannelPool η α :=
  let channel := CHANNEL_CLUSTER_SIZE * p.clusters
  let p := p.newCluster
  let (links, tail) :=
    p.links.chain (channel + 1) (List.range' (channel + 2) (CHANNEL_CLUSTER_SIZE - 2))
  (channel,
    { p with
      freeListHead := some (channel + 1)
      freeListTail := some tail
      links := (links.setPrev (channel + 1) none).setNext tail none })

/-- The other branch: the head of the free list is taken. -/
def allocFree (head : ChannelRef) : ChannelRef × ChannelPool η α :=
  let next := p.links.next head
  (head,
    { p with
      freeListHead := next
      freeListTail := if next = none then none else p.freeListTail
      links := p.links.setPrevOf next none })

def takeChannel : ChannelRef × ChannelPool η α :=
  match p.freeListHead with
  | none => p.allocCluster
  | some head => p.allocFree head

/-- `allocChannel(chid)`; the counter is `_globalChannelId`, which all pools share. -/
def allocChannel (chid counter : BitVec 64) : ChannelRef × ChannelPool η α × BitVec 64 :=
  let (channel, p) := p.takeChannel
  let (id, counter) := createChannelId chid counter
  (channel, { p.init channel id with useCount := p.useCount + 1 }, counter)

def recycleChannel : ChannelPool η α :=
  { p with
    links := ((p.links.setPrev c p.freeListTail).setNext c none).setNextOf p.freeListTail (some c)
    freeListHead := if p.freeListTail = none then some c else p.freeListHead
    freeListTail := some c }

def freeWaitingChannel : ChannelPool η α :=
  { p with
    waitReplyMap := Function.update p.waitReplyMap (p.channel c).id none
    waitReplyHead := if p.waitReplyHead = some c then p.links.next c else p.waitReplyHead
    waitReplyTail := if p.waitReplyTail = some c then p.links.prev c else p.waitReplyTail
    links := p.links.unlink c }

/-- `freeChannel`: only a positive expire time tells that the channel is waiting. -/
def freeChannel (channel : Option ChannelRef) : Bool × ChannelPool η α :=
  match channel with
  | none => (false, p)
  | some c =>
      let p := if p.getExpireTime c > 0 then p.freeWaitingChannel c else p
      let p := p.recycleChannel c
      (true, { p with useCount := p.useCount - 1 })

/-- More rounds than a loop along the links of the pool can make. -/
def rounds : Nat := CHANNEL_CLUSTER_SIZE * p.clusters + 1

def appendFreeList (addList : Option ChannelRef) : ChannelPool η α :=
  match addList with
  | none => p
  | some list =>
      let tail := p.links.last p.rounds list
      { p with
        links := (p.links.setPrev list p.freeListTail).setNextOf p.freeListTail (some list)
        freeListHead := if p.freeListTail = none then some list else p.freeListHead
        freeListTail := some tail }

/-! ### The waiting list -/

def findChannel : Option ChannelRef := p.waitReplyMap id

/-- What `getTimeoutList` does with an expired channel that it passes. -/
def forget : ChannelPool η α :=
  { p with
    waitReplyMap := Function.update p.waitReplyMap (p.channel c).id none
    useCount := p.useCount - 1 }

/-- The channels at which the loop of `getTimeoutList` breaks. -/
def notExpired (now : Int) (c : ChannelRef) : Bool :=
  p.getExpireTime c == 0 || p.getExpireTime c ≥ now

/-- The end of `getTimeoutList`: the list from `head` to just before `channel` is cut off. -/
def cutBefore (head : ChannelRef) (channel : Option ChannelRef) :
    Option ChannelRef × ChannelPool η α :=
  if channel = some head then (none, p)
  else
    match channel with
    | none => (some head, { p with waitReplyHead := none, waitReplyTail := none })
    | some c =>
        (some head,
          { p with
            links := (p.links.setNextOf (p.links.prev c) none).setPrev c none
            waitReplyHead := some c })

def getTimeoutList (now : Int) : Option ChannelRef × ChannelPool η α :=
  match p.waitReplyHead with
  | none => (none, p)
  | some head =>
      let (passed, channel) := p.links.walk (p.notExpired now) p.rounds (some head)
      (passed.foldl forget p).cutBefore head channel

/-- The part of `addToWaitingList` that links the channel in, behind those that expire no
later. -/
def enqueue : ChannelPool η α :=
  match p.waitReplyHead with
  | none =>
      { p with
        links := (p.links.setPrev c none).setNext c none
        waitReplyHead := some c
        waitReplyTail := some c }
  | some head =>
      if p.getExpireTime head > p.getExpireTime c then
        { p with
          links := ((p.links.setPrev c none).setNext c (some head)).setPrev head (some c)
          waitReplyHead := some c }
      else
        let later := fun x => decide (p.getExpireTime x > p.getExpireTime c)
        match (p.links.walk later p.rounds (p.links.next head)).2 with
        | none =>
            { p with
              links := ((p.links.setPrev c p.waitReplyTail).setNext c none).setNextOf
                p.waitReplyTail (some c)
              waitReplyTail := some c }
        | some next =>
            let pre := p.links.prev next
            { p with
              links := (((p.links.setPrev c pre).setNext c (some next)).setNextOf pre
                (some c)).setPrev next (some c) }

def addToWaitingList : ChannelPool η α :=
  if p.getExpireTime c = 0 then p
  else
    { p with waitReplyMap := Function.update p.waitReplyMap (p.channel c).id (some c) }.enqueue c

end ChannelPool

end AgentEngine.Anet
