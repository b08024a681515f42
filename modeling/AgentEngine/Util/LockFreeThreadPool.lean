import AgentEngine.Lib.Transitions

/-!
`LockFreeThreadPool` (`lock_free_thread_pool.cc`): a started pool without an auto scaler, with `n`
workers and as many slots, and `m` threads that push.

Threads move one atomic access at a time. The queue is whatever the pool was made with: what holds
for a list of items holds for every `FifoQueue` (`listed_step`). An item stands for a call of
`PushWorkItem` and is named by its number.
-/

namespace AgentEngine.Util

open Lib

/-- What the pool uses of its `WorkItemQueue`; a `push` is never refused. -/
class WorkItemQueue (Q : Type) where
  empty : Q
  push : Q → Nat → Q
  pop : Q → Option (Nat × Q)

open WorkItemQueue

instance : WorkItemQueue (List Nat) where
  empty := []
  push queue item := queue ++ [item]
  pop
    | [] => none
    | item :: queue => some (item, queue)

theorem pop_eq_none {queue : List Nat} : pop queue = none ↔ queue = [] := by
  cases queue <;> simp [pop]

theorem pop_eq_some {queue rest : List Nat} {item : Nat} :
    pop queue = some (item, rest) ↔ queue = item :: rest := by
  cases queue <;> simp [pop]

/-- A queue whose calls take effect one after the other, and that hands out each item once and in
turn. `LockFreeQueue` is one unless a thread is held up in a call until the 16 bits of a tag have come
round. -/
class FifoQueue (Q : Type) [WorkItemQueue Q] where
  items : Q → List Nat
  items_empty : items empty = []
  items_push : ∀ (queue : Q) item, items (push queue item) = push (items queue) item
  items_pop : ∀ queue : Q, (pop queue).map (Prod.map id items) = pop (items queue)

namespace LockFreeThreadPool

/-- Where a thread is in `WorkerRoutine`. -/
inductive Worker where
  /-- Before `AtomicIncrement(&wait_index_)`. -/
  | idle
  /-- In `waitCounted`, with its value of `wait_index_`. -/
  | waiting (ticket : Nat)
  /-- Before the test of `run_`. -/
  | released
  /-- In the loop around `pop`. -/
  | polling
  /-- Before `AtomicDecrement(&cur_queue_size_)`. -/
  | taken (item : Nat)
  | consuming (item : Nat)
  | exited
deriving DecidableEq

/-- Where a thread is in `PushWorkItem`. -/
inductive Caller where
  | idle
  /-- Before the test of `cur_queue_size_`, which a blocking push repeats. -/
  | testing (item : Nat) (isBlocked : Bool)
  /-- Before `AtomicIncrement(&cur_queue_size_)`. -/
  | admitted (item : Nat)
  /-- Before the item is put into the queue. -/
  | counted (item : Nat)
  /-- Before `AtomicIncrement(&notify_index_)`. -/
  | inserted (item : Nat)
  /-- Before `signalCounted`, with its value of `notify_index_`. -/
  | ticketed (item ticket : Nat)
deriving DecidableEq

/-- How far the first call of `Stop` is that found the pool running. -/
inductive StopPhase where
  | notCalled
  /-- In `Join`: the slots before `slot` were signalled. -/
  | signalling (slot : Nat)
  | returned
deriving DecidableEq

end LockFreeThreadPool

open LockFreeThreadPool

/-- A pool. The last three fields are not its own: they record what it did. -/
structure LockFreeThreadPool (n m : Nat) (Q : Type := List Nat) [WorkItemQueue Q] where
  queueSize : Nat
  run : Bool := true
  queue : Q := empty
  curQueueSize : Nat := 0
  notifyIndex : Nat := 0
  waitIndex : Nat := 0
  /-- `_count` of the slots of `notifier_`. -/
  count : Nat → Nat := fun _ => 0
  workers : Fin n → Worker := fun _ => .idle
  callers : Fin m → Caller := fun _ => .idle
  stop : StopPhase := .notCalled
  /-- The number of calls of `PushWorkItem`. -/
  calls : Nat := 0
  /-- The items for which `PushWorkItem` returned `ERROR_NONE`. -/
  accepted : List Nat := []
  /-- The items on which `process` was called. -/
  processed : List Nat := []

namespace LockFreeThreadPool

variable {n m : Nat}

section Code

variable {Q : Type} [WorkItemQueue Q] (p : LockFreeThreadPool n m Q)

def setWorker (w : Fin n) (worker : Worker) : LockFreeThreadPool n m Q :=
  { p with workers := Function.update p.workers w worker }

def setCaller (c : Fin m) (caller : Caller) : LockFreeThreadPool n m Q :=
  { p with callers := Function.update p.callers c caller }

/-- `notifier_[slot].signalCounted()`. -/
def signalCounted (slot : Nat) : LockFreeThreadPool n m Q :=
  { p with count := Function.update p.count slot (p.count slot + 1) }

/-- What can happen next: a thread calls `PushWorkItem`, or goes on in it; a worker goes on; the
thread that calls `Stop` does; or `Stop` is called once more. -/
inductive Action (n m : Nat) where
  | call (c : Fin m) (isBlocked : Bool)
  | push (c : Fin m)
  | work (w : Fin n)
  | stop
  | stopAgain
deriving DecidableEq

/-- The call of `PushWorkItem` up to its test of `run_`; a pool that does not run refuses it. -/
def call (c : Fin m) (isBlocked : Bool) : LockFreeThreadPool n m Q :=
  let p := { p with calls := p.calls + 1 }
  if p.run then p.setCaller c (.testing (p.calls - 1) isBlocked) else p

/-- The rest of `PushWorkItem`. -/
def push (c : Fin m) : Option (LockFreeThreadPool n m Q) :=
  match p.callers c with
  | .idle => none
  | .testing item isBlocked =>
      if p.curQueueSize > p.queueSize then
        if isBlocked then none
        -- `ERROR_POOL_QUEUE_FULL`
        else some (p.setCaller c .idle)
      else some (p.setCaller c (.admitted item))
  | .admitted item => some ({ p with curQueueSize := p.curQueueSize + 1 }.setCaller c (.counted item))
  | .counted item => some ({ p with queue := WorkItemQueue.push p.queue item }.setCaller c (.inserted item))
  | .inserted item =>
      let p := { p with notifyIndex := p.notifyIndex + 1 }
      some (p.setCaller c (.ticketed item p.notifyIndex))
  | .ticketed item ticket =>
      let p := p.signalCounted (ticket % n)
      some ({ p with accepted := p.accepted ++ [item] }.setCaller c .idle)

/-- `WorkerRoutine`; `none` if the worker has to wait, or has returned. -/
def work (w : Fin n) : Option (LockFreeThreadPool n m Q) :=
  match p.workers w with
  | .idle =>
      let p := { p with waitIndex := p.waitIndex + 1 }
      some (p.setWorker w (.waiting p.waitIndex))
  | .waiting ticket =>
      let slot := ticket % n
      if p.count slot = 0 then none
      else
        let p := { p with count := Function.update p.count slot (p.count slot - 1) }
        some (p.setWorker w .released)
  | .released => some (p.setWorker w (if p.run then .polling else .exited))
  | .polling =>
      match pop p.queue with
      | none => none
      | some (item, queue) => some ({ p with queue }.setWorker w (.taken item))
  | .taken item => some ({ p with curQueueSize := p.curQueueSize - 1 }.setWorker w (.consuming item))
  | .consuming item => some ({ p with processed := p.processed ++ [item] }.setWorker w .idle)
  | .exited => none

/-- The call of `Stop` that finds `run_` set, whatever its argument. -/
def doStop : Option (LockFreeThreadPool n m Q) :=
  match p.stop with
  | .notCalled => some { p with run := false, stop := .signalling 0 }
  | .signalling slot =>
      if slot < n then some { p.signalCounted slot with stop := .signalling (slot + 1) }
      else if ∀ w, p.workers w = .exited then some { p with stop := .returned }
      else none
  | .returned => none

/-- Any other call of `Stop` returns at its test of `run_`. -/
def stopAgain : Option (LockFreeThreadPool n m Q) :=
  if !p.run then some p else none

def step : Action n m → Option (LockFreeThreadPool n m Q)
  | .call c isBlocked => if p.callers c = .idle then some (p.call c isBlocked) else none
  | .push c => p.push c
  | .work w => p.work w
  | .stop => p.doStop
  | .stopAgain => p.stopAgain

end Code

variable (p : LockFreeThreadPool n m)

/-! ### What a step can do -/

/-- The moves of a pool, one for each thing that a step can do. -/
inductive Move (p : LockFreeThreadPool n m) : Action n m → LockFreeThreadPool n m → Prop
  | refuse {c : Fin m} {isBlocked : Bool} (here : p.callers c = .idle) (stopped : p.run = false) :
      Move p (.call c isBlocked) { p with calls := p.calls + 1 }
  | enter {c : Fin m} {isBlocked : Bool} (here : p.callers c = .idle) (running : p.run = true) :
      Move p (.call c isBlocked)
        ({ p with calls := p.calls + 1 }.setCaller c (.testing p.calls isBlocked))
  | giveUp {c : Fin m} {item : Nat} (here : p.callers c = .testing item false)
      (full : p.queueSize < p.curQueueSize) : Move p (.push c) (p.setCaller c .idle)
  | letIn {c : Fin m} {item : Nat} {isBlocked : Bool} (here : p.callers c = .testing item isBlocked)
      (room : p.curQueueSize ≤ p.queueSize) : Move p (.push c) (p.setCaller c (.admitted item))
  | increment {c : Fin m} {item : Nat} (here : p.callers c = .admitted item) :
      Move p (.push c)
        ({ p with curQueueSize := p.curQueueSize + 1 }.setCaller c (.counted item))
  | insert {c : Fin m} {item : Nat} (here : p.callers c = .counted item) :
      Move p (.push c) ({ p with queue := p.queue ++ [item] }.setCaller c (.inserted item))
  | drawNotify {c : Fin m} {item : Nat} (here : p.callers c = .inserted item) :
      Move p (.push c)
        ({ p with notifyIndex := p.notifyIndex + 1 }.setCaller c (.ticketed item (p.notifyIndex + 1)))
  | signal {c : Fin m} {item ticket : Nat} (here : p.callers c = .ticketed item ticket) :
      Move p (.push c)
        ({ p.signalCounted (ticket % n) with accepted := p.accepted ++ [item] }.setCaller c .idle)
  | drawWait {w : Fin n} (here : p.workers w = .idle) :
      Move p (.work w)
        ({ p with waitIndex := p.waitIndex + 1 }.setWorker w (.waiting (p.waitIndex + 1)))
  | release {w : Fin n} {ticket : Nat} (here : p.workers w = .waiting ticket)
      (signalled : p.count (ticket % n) ≠ 0) :
      Move p (.work w)
        ({ p with count := Function.update p.count (ticket % n) (p.count (ticket % n) - 1) }.setWorker
          w .released)
  | goOn {w : Fin n} (here : p.workers w = .released) (running : p.run = true) :
      Move p (.work w) (p.setWorker w .polling)
  | leave {w : Fin n} (here : p.workers w = .released) (stopped : p.run = false) :
      Move p (.work w) (p.setWorker w .exited)
  | pop {w : Fin n} {item : Nat} {queue : List Nat} (here : p.workers w = .polling)
      (front : p.queue = item :: queue) :
      Move p (.work w) ({ p with queue }.setWorker w (.taken item))
  | decrement {w : Fin n} {item : Nat} (here : p.workers w = .taken item) :
      Move p (.work w)
        ({ p with curQueueSize := p.curQueueSize - 1 }.setWorker w (.consuming item))
  | process {w : Fin n} {item : Nat} (here : p.workers w = .consuming item) :
      Move p (.work w) ({ p with processed := p.processed ++ [item] }.setWorker w .idle)
  | clearRun (here : p.stop = .notCalled) :
      Move p .stop { p with run := false, stop := .signalling 0 }
  | signalSlot {slot : Nat} (here : p.stop = .signalling slot) (inRing : slot < n) :
      Move p .stop { p.signalCounted slot with stop := .signalling (slot + 1) }
  | join {slot : Nat} (here : p.stop = .signalling slot) (all : n ≤ slot)
      (left : ∀ w, p.workers w = .exited) : Move p .stop { p with stop := .returned }
  | returnAtOnce (stopped : p.run = false) : Move p .stopAgain p

theorem move_of_step {p p' : LockFreeThreadPool n m} {a : Action n m} (moved : p.step a = some p') :
    p.Move a p' := by
  cases a with
  | call c isBlocked =>
    simp only [step, call] at moved
    split_ifs at moved with idle running <;> cases moved
    · exact .enter idle running
    · exact .refuse idle (Bool.eq_false_iff.mpr running)
  | push c =>
    simp only [step, push] at moved
    split at moved
    · cases moved
    · rename_i item isBlocked here
      split_ifs at moved with full blocks <;> cases moved
      · cases Bool.eq_false_iff.mpr blocks
        exact .giveUp here full
      · exact .letIn here (not_lt.mp full)
    · rename_i item here
      cases moved
      exact .increment here
    · rename_i item here
      cases moved
      exact .insert here
    · rename_i item here
      cases moved
      exact .drawNotify here
    · rename_i item ticket here
      cases moved
      exact .signal here
  | work w =>
    simp only [step, work] at moved
    split at moved
    · rename_i here
      cases moved
      exact .drawWait here
    · rename_i ticket here
      split_ifs at moved with none_left
      cases moved
      exact .release here none_left
    · rename_i here
      split_ifs at moved with running <;> cases moved
      · exact .goOn here running
      · exact .leave here (Bool.eq_false_iff.mpr running)
    · rename_i here
      split at moved
      · cases moved
      · rename_i item queue front
        cases moved
        exact .pop here (pop_eq_some.mp front)
    · rename_i item here
      cases moved
      exact .decrement here
    · rename_i item here
      cases moved
      exact .process here
    · cases moved
  | stop =>
    simp only [step, doStop] at moved
    split at moved
    · rename_i here
      cases moved
      exact .clearRun here
    · rename_i slot here
      split_ifs at moved with more left <;> cases moved
      · exact .signalSlot here more
      · exact .join here (not_lt.mp more) left
    · cases moved
  | stopAgain =>
    simp only [step, stopAgain] at moved
    split_ifs at moved with stopped
    cases moved
    exact .returnAtOnce (by simpa using stopped)

/-! ### Other queues -/

section Queues

variable {Q : Type} [WorkItemQueue Q] [FifoQueue Q] (p : LockFreeThreadPool n m Q)

/-- The pool with the items of its queue in a list. -/
def listed : LockFreeThreadPool n m := { p with queue := FifoQueue.items p.queue }

/-- A step of a pool with any such queue is a step of the pool with a list. -/
theorem listed_step (a : Action n m) : (p.step a).map listed = p.listed.step a := by
  have popped := FifoQueue.items_pop p.queue
  have pushed := FifoQueue.items_push p.queue
  obtain ⟨queueSize, run, queue, size, notify, wait, count, workers, callers, stop⟩ := p
  dsimp only [listed] at popped pushed ⊢
  cases a with
  | call c isBlocked =>
    dsimp only [step, call]
    split_ifs <;> rfl
  | push c =>
    dsimp only [step, push]
    cases callers c with
    | counted item =>
      dsimp only
      rw [← pushed]
      rfl
    | testing item isBlocked =>
      dsimp only
      split_ifs <;> rfl
    | _ => rfl
  | work w =>
    dsimp only [step, work]
    cases workers w with
    | polling =>
      dsimp only
      rw [← popped]
      cases pop queue <;> rfl
    | waiting ticket =>
      dsimp only
      split_ifs <;> rfl
    | _ => rfl
  | stop =>
    dsimp only [step, doStop]
    cases stop with
    | signalling slot =>
      dsimp only
      split_ifs <;> rfl
    | _ => rfl
  | stopAgain =>
    dsimp only [step, stopAgain]
    split_ifs <;> rfl

end Queues

end LockFreeThreadPool

end AgentEngine.Util
