import AgentEngine.Lib.SinglyLinked

/-!
`PacketQueue` and `OrderedPacketQueue` (`packetqueue.cpp`, `orderedpacketqueue.cpp`): any number of
queues over one heap of packets, which are threaded through their `_next` fields.

All queues are `OrderedPacketQueue`s. The result `none` is that a call does not return: it reads
through a null pointer, or a loop goes round more often than there are packets in its queues.
-/

namespace AgentEngine.Anet

open Lib Function

/-- The fields of a `PacketQueue`. -/
structure PacketQueue (ρ : Type) where
  head : Option ρ := none
  tail : Option ρ := none
  size : Nat := 0
deriving DecidableEq

/-- The queues `κ` and the packets `ρ`. -/
structure PacketQueues (κ ρ : Type) where
  next : ρ → Option ρ := fun _ => none
  expireTime : ρ → Int := fun _ => 0
  queue : κ → PacketQueue ρ := fun _ => {}

namespace PacketQueues

variable {κ ρ : Type}

/-- The packets of a queue, as far as its size says. -/
def contents (s : PacketQueues κ ρ) (q : κ) : List ρ :=
  follow s.next (s.queue q).size (s.queue q).head

variable [DecidableEq κ] [DecidableEq ρ]

def setNext (s : PacketQueues κ ρ) (packet : ρ) (next : Option ρ) : PacketQueues κ ρ :=
  { s with next := update s.next packet next }

def setQueue (s : PacketQueues κ ρ) (q : κ) (queue : PacketQueue ρ) : PacketQueues κ ρ :=
  { s with queue := update s.queue q queue }

/-- `pop`. -/
def pop (s : PacketQueues κ ρ) (q : κ) : Option ρ × PacketQueues κ ρ :=
  let queue := s.queue q
  match queue.head with
  | none => (none, s)
  | some packet =>
      let head := s.next packet
      (some packet, s.setQueue q
        { head, tail := if head = none then none else queue.tail, size := queue.size - 1 })

/-! ### push -/

/-- The loop of `push`: from two neighbours on, the first two with a later one in front of the
packet. -/
def findPlace (s : PacketQueues κ ρ) (expireTime : Int) : Nat → ρ → ρ → Option (ρ × ρ)
  | 0, _, _ => none
  | fuel + 1, p1, p2 =>
      if expireTime ≥ s.expireTime p1 then
        match s.next p1 with
        | none => none
        | some p => findPlace s expireTime fuel p p1
      else some (p1, p2)

def push (s : PacketQueues κ ρ) (q : κ) (packet : ρ) : Option (PacketQueues κ ρ) := do
  let s := s.setNext packet none
  let queue := { s.queue q with size := (s.queue q).size + 1 }
  match queue.head with
  | none => return s.setQueue q { queue with head := some packet, tail := some packet }
  | some head =>
      let tail ← queue.tail
      let expireTime := s.expireTime packet
      if expireTime ≥ s.expireTime tail then
        return (s.setNext tail (some packet)).setQueue q { queue with tail := some packet }
      else if expireTime < s.expireTime head then
        return (s.setNext packet (some head)).setQueue q { queue with head := some packet }
      else
        let (p1, p2) ← s.findPlace expireTime queue.size head head
        return ((s.setNext packet (some p1)).setNext p2 (some packet)).setQueue q queue

/-! ### moveBack and moveTo -/

/-- The loop of `moveBack` and what comes after it: the links, and whether packets of the queue
itself were left over. -/
def mergeLoop (expireTime : ρ → Int) :
    Nat → (ρ → Option ρ) → Option ρ → Option ρ → ρ → Option ((ρ → Option ρ) × Bool)
  | 0, _, some _, some _, _ => none
  | fuel + 1, next, some lIter, some rIter, currIter =>
      if expireTime lIter < expireTime rIter then
        let next := update next currIter (some lIter)
        mergeLoop expireTime fuel next (next lIter) (some rIter) lIter
      else
        let next := update next currIter (some rIter)
        mergeLoop expireTime fuel next (some lIter) (next rIter) rIter
  | _, next, some lIter, none, currIter =>
      some (update next currIter (some lIter), true)
  | _, next, none, rIter, currIter => some (update next currIter rIter, false)

/-- `queue->moveBack(src)`. The two may be the same queue, so every store is made in turn. -/
def moveBack (s : PacketQueues κ ρ) (q src : κ) : Option (PacketQueues κ ρ) :=
  match (s.queue src).head with
  | none => some s
  | some rHead => do
      let rounds := (s.queue q).size + (s.queue src).size
      let s := s.setQueue q { s.queue q with size := (s.queue q).size + (s.queue src).size }
      let s := s.setQueue src { s.queue src with size := 0 }
      let clear := fun s : PacketQueues κ ρ =>
        s.setQueue src { s.queue src with head := none, tail := none }
      match (s.queue q).head with
      | none =>
          let s := s.setQueue q
            { s.queue q with head := (s.queue src).head, tail := (s.queue src).tail }
          return clear s
      | some lHead =>
          let tail ← (s.queue src).tail
          if s.expireTime tail ≤ s.expireTime lHead then
            let s := s.setNext tail (some lHead)
            let s := s.setQueue q { s.queue q with head := (s.queue src).head }
            return clear s
          else
            let (head, lIter, rIter) :=
              if s.expireTime lHead < s.expireTime rHead then (lHead, s.next lHead, some rHead)
              else (rHead, some lHead, s.next rHead)
            let (next, left) ← mergeLoop s.expireTime rounds s.next lIter rIter head
            let s := { s with next }
            let s := if left then s else s.setQueue q { s.queue q with tail := (s.queue src).tail }
            return clear (s.setQueue q { s.queue q with head := some head })

/-- `queue->moveTo(dest)`. -/
def moveTo (s : PacketQueues κ ρ) (q dest : κ) : Option (PacketQueues κ ρ) := s.moveBack dest q

/-! ### getTimeoutList -/

/-- What `getTimeoutList` has come to: the links, the queue's head and size, and the first and last
packet of the list. -/
structure Timeouts (ρ : Type) where
  next : ρ → Option ρ
  head : Option ρ
  size : Nat
  list : Option ρ := none
  tail : Option ρ := none

/-- The loop of `getTimeoutList`. -/
def timeoutLoop (expireTime : ρ → Int) (now : Int) : Nat → Timeouts ρ → Option (Timeouts ρ)
  | 0, _ => none
  | fuel + 1, t =>
      match t.head with
      | none => some t
      | some head =>
          if expireTime head ≥ now then some t
          else
            let t :=
              match t.tail with
              | none => { t with list := some head }
              | some tail => { t with next := update t.next tail (some head) }
            timeoutLoop expireTime now fuel
              { t with tail := some head, size := t.size - 1, head := t.next head }

/-- `getTimeoutList(now)`: the first packet of the list. -/
def getTimeoutList (s : PacketQueues κ ρ) (q : κ) (now : Int) :
    Option (Option ρ × PacketQueues κ ρ) := do
  let queue := s.queue q
  let t ← timeoutLoop s.expireTime now (queue.size + 1)
    { next := s.next, head := queue.head, size := queue.size }
  let next :=
    match t.tail with
    | none => t.next
    | some tail => update t.next tail none
  let s := { s with next }
  return (t.list, s.setQueue q
    { head := t.head, tail := if t.head = none then none else queue.tail, size := t.size })

end PacketQueues

end AgentEngine.Anet
