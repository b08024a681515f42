import AgentEngine.Anet.TcpComponent
import AgentEngine.Lib.Links

/-!
`Transport` and its `IoWorker`s (`transport.cpp`, `ioworker.cpp`), and who of them refers to which
`IOComponent`.

A component belongs to one worker, which keeps those in a list that are to be read from and written
to. It learns of them by commands. The timeout thread has a list of its own, which it goes through
one component after the other while everybody else goes on. Components are reference counted.
-/

namespace AgentEngine.Anet

open Lib Function

/-- A transport with `k` workers, and the components that there are. -/
structure Transport (ι : Type) (k : Nat) where
  /-- `_prev` of a component. -/
  prev : ι → Option ι := fun _ => none
  /-- `_next` of a component. -/
  next : ι → Option ι := fun _ => none
  /-- `_refByRreadWriteThread` of a component. -/
  referenced : ι → Bool := fun _ => false
  /-- `_refcount` of a component; the `int` holds this number below `2 ^ 31` references. -/
  refcount : ι → Int := fun _ => 1
  /-- `_iocListHead` of a worker. -/
  head : Fin k → Option ι := fun _ => none
  /-- `_iocListTail` of a worker. -/
  tail : Fin k → Option ι := fun _ => none
  /-- `_commands` of a worker. -/
  commands : Fin k → List (CommandType × ι) := fun _ => []
  checkingList : List ι := []
  newCheckingList : List ι := []
  /-- How far the iterator of `timeoutIteration` is. -/
  iterator : Option Nat := none
  /-- The references that others hold, at first the one that a component is made with. It is not a
  field of the source. -/
  others : ι → Nat := fun _ => 1
  /-- Whether the last command that was processed for a component was `TC_ADD_IOC`. It is not a field
  of the source. -/
  lastAdds : ι → Bool := fun _ => false

namespace Transport

variable {ι : Type} [DecidableEq ι] {k : Nat}

def addRef (t : Transport ι k) (c : ι) : Transport ι k :=
  { t with refcount := update t.refcount c (t.refcount c + 1) }

def subRef (t : Transport ι k) (c : ι) : Transport ι k :=
  { t with refcount := update t.refcount c (t.refcount c - 1) }

/-! ### IoWorker -/

section IoWorker

variable (belonged : ι → Fin k)

variable (t : Transport ι k) (w : Fin k)

/-- `postCommand` of the worker that a component belongs to. -/
def postCommand (type : CommandType) (c : ι) : Transport ι k :=
  { t.addRef c with
    commands := update t.commands (belonged c) (t.commands (belonged c) ++ [(type, c)]) }

def addComponent (c : ι) : Transport ι k :=
  if t.referenced c then t
  else
    { t with
      prev := update t.prev c (t.tail w)
      next := storeAt (update t.next c none) (t.tail w) (some c)
      head := update t.head w (if t.tail w = none then some c else t.head w)
      tail := update t.tail w (some c)
      referenced := update t.referenced c true }.addRef c

def removeComponent (c : ι) : Transport ι k :=
  if t.referenced c then
    { t with
      head := update t.head w (if some c = t.head w then t.next c else t.head w)
      tail := update t.tail w (if some c = t.tail w then t.prev c else t.tail w)
      next := storeAt t.next (t.prev c) (t.next c)
      prev := storeAt t.prev (t.next c) (t.prev c)
      referenced := update t.referenced c false }.subRef c
  else t

/-- One round of the loop of `processCommands`. -/
def processCommand (t : Transport ι k) (command : CommandType × ι) : Transport ι k :=
  let t :=
    match command.1 with
    | .addIoc => t.addComponent w command.2
    | .removeIoc => t.removeComponent w command.2
  { t.subRef command.2 with
    lastAdds := update t.lastAdds command.2 (command.1 = .addIoc) }

def processCommands : Transport ι k :=
  let t := (t.commands w).foldl (processCommand w) t
  { t with commands := update t.commands w [] }

/-- `close` of a component, which may post a command, and then `subRef`. -/
def closeComponent (c : ι) (posts : Bool) : Transport ι k :=
  (if posts then t.postCommand belonged .removeIoc c else t).subRef c

/-- The loop of `IoWorker::closeComponents` over the list; `none` if there is not enough fuel for
it. -/
def closeList (posts : ι → Bool) : Nat → Option ι → Transport ι k → Option (Transport ι k)
  | _, none, t => some t
  | 0, some _, _ => none
  | fuel + 1, some c, t => closeList posts fuel (t.next c) (t.closeComponent belonged c (posts c))

/-- The loop of `IoWorker::closeComponents` over the commands. -/
def dropCommands : Transport ι k :=
  let t := (t.commands w).foldl (fun t command => t.subRef command.2) t
  { t with commands := update t.commands w [] }

/-- `IoWorker::closeComponents`. -/
def closeWorker (posts : ι → Bool) (fuel : Nat) (t : Transport ι k) (w : Fin k) :
    Option (Transport ι k) :=
  (closeList belonged posts fuel (t.head w) t).map fun t =>
    { t with
      head := update t.head w none
      tail := update t.tail w none }.dropCommands w

end IoWorker

/-! ### Transport -/

section Operations

variable (belonged : ι → Fin k)

variable (t : Transport ι k)

def addToCheckingList (c : ι) : Transport ι k :=
  { t.addRef c with newCheckingList := t.newCheckingList ++ [c] }

def collectNewComponents : Transport ι k :=
  { t with checkingList := t.checkingList ++ t.newCheckingList, newCheckingList := [] }

/-- One round of the loop of `timeoutIteration`; `result` is what `checkTimeout` returns. -/
def checkNext (result : Bool) : Option (Transport ι k) :=
  t.iterator.map fun position =>
    match t.checkingList[position]? with
    | none => { t with iterator := none }
    | some c =>
        if result then { t with iterator := some (position + 1) }
        else { t.subRef c with checkingList := t.checkingList.eraseIdx position }

/-- The loop of `Transport::closeComponents` over `_checkingList`. -/
def closeEntries (posts : Nat → Bool) : Nat → List ι → Transport ι k → Transport ι k
  | _, [], t => t
  | i, c :: rest, t =>
      closeEntries posts (i + 1) rest { t.closeComponent belonged c (posts i) with checkingList := rest }

/-- `Transport::closeComponents`; `posts` and `posts'` say which calls of `close` post a command. -/
def closeComponents (posts : Nat → Bool) (posts' : ι → Bool) (fuel : Nat) (t : Transport ι k) :
    Option (Transport ι k) :=
  let t := t.collectNewComponents
  let t := closeEntries belonged posts 0 t.checkingList t
  (List.finRange k).foldlM (closeWorker belonged posts' fuel) t

/-- What can happen to a transport before it is closed. -/
inductive Action (ι : Type) (k : Nat) where
  /-- Somebody else takes a reference, or drops one. -/
  | hold (c : ι)
  | drop (c : ι)
  | postCommand (type : CommandType) (c : ι)
  | processCommands (w : Fin k)
  | addToCheckingList (c : ι)
  /-- `timeoutIteration` up to its loop. -/
  | timeoutIteration
  | checkNext (result : Bool)
deriving DecidableEq

/-- Only components are used that were not deleted. -/
def step : Action ι k → Option (Transport ι k)
  | .hold c =>
      if 0 < t.refcount c then
        some { t.addRef c with others := update t.others c (t.others c + 1) }
      else none
  | .drop c =>
      if 0 < t.others c then
        some { t.subRef c with others := update t.others c (t.others c - 1) }
      else none
  | .postCommand type c => if 0 < t.refcount c then some (t.postCommand belonged type c) else none
  | .processCommands w => some (t.processCommands w)
  | .addToCheckingList c => if 0 < t.refcount c then some (t.addToCheckingList c) else none
  | .timeoutIteration =>
      if t.iterator = none then some { t.collectNewComponents with iterator := some 0 } else none
  | .checkNext result => t.checkNext result

end Operations

end Transport

end AgentEngine.Anet
