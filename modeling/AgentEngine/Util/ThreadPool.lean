import AgentEngine.Util.CircularQueue

/-!
`ThreadPool` (`thread_pool.cc`) with its default queue, `n` threads of its own and `m` threads that
call `PushWorkItem`, `PushTask` and `Stop`.

A step is a section under the lock of `cond_`, a test made without it, or a call of a method of a
work item. A thread that waits for a condition may wake up at any time, so that signals are not
modelled. An item is named by the number of the call that it was made for.
-/

namespace AgentEngine.Util

open Lib

namespace ThreadPool

/-- `STOP_TYPE`. -/
inductive StopType where
  | threadOnly
  | andClearQueue
  | afterQueueEmpty
  | andClearQueueIgnoreException
deriving DecidableEq

/-- The values of `ERROR_TYPE` other than `ERROR_NONE`. -/
inductive ErrorType where
  | poolHasStop
  | poolItemIsNull
  | poolQueueFull
deriving DecidableEq

/-- A call of `PushWorkItem`. -/
structure Push where
  item : Nat
  isBlocked : Bool
  /-- `executeWhenFail`, if `PushTask` makes the call. -/
  task : Option Bool
deriving DecidableEq

/-- Where a thread is in `Stop`. -/
inductive StopPhase where
  /-- Before `push_` is cleared. -/
  | closing
  /-- In `WaitQueueEmpty`, before `StopIfHasException`. -/
  | draining
  /-- In `WaitQueueEmpty`, before `GetItemCount`. -/
  | counting
  /-- In `StopThread`, before the test of `run_`. -/
  | testing
  /-- In `StopThread`, before `run_` is cleared. -/
  | halting
  /-- In `StopThread`, at `threads_.clear()`. -/
  | joining
  /-- Before `ClearQueue`. -/
  | clearing
  /-- Before `CheckException`. -/
  | checking
deriving DecidableEq

/-- Where a thread is that uses the pool. -/
inductive Caller where
  | idle
  /-- In `PushWorkItem`, before `StopIfHasException`. -/
  | tested (push : Push)
  /-- In `PushWorkItem`, before it takes the lock. -/
  | locking (push : Push)
  /-- In `PushWorkItem`, at `producerWait`. -/
  | waiting (push : Push)
  /-- In `PushTask`, before `process`. -/
  | executing (item : Nat)
  /-- In `PushTask`, before `destroy`. -/
  | destroying (item : Nat)
  /-- In `Stop`, which `PushWorkItem` may have called. -/
  | stopping (stopType : StopType) (phase : StopPhase) (push : Option Push)
deriving DecidableEq

/-- It is in `Stop`. -/
def Caller.stops : Caller → Bool
  | .stopping .. => true
  | _ => false

/-- Where a thread of the pool is in `WorkerLoop`. -/
inductive Worker where
  /-- Before the test of `run_` and the exception. -/
  | looping
  /-- Before it takes the lock, or at `consumerWait`. -/
  | locking
  /-- In `ConsumeItem`, before `process`. -/
  | consuming (item : Nat)
  /-- In `ConsumeItem`, before `destroy`. -/
  | processed (item : Nat)
  /-- In `ConsumeItem`, before `DestroyItemIgnoreException`. -/
  | failed (item : Nat)
  /-- In `ConsumeItem`, before `has_exception_` is set. -/
  | recording
  /-- It has returned, or was not created yet. -/
  | exited
deriving DecidableEq

end ThreadPool

open ThreadPool

/-- A pool. The fields from `calls` on are not its own: they record what was done. -/
structure ThreadPool (n m queueSize : Nat) where
  stopIfHasException : Bool
  hasException : Bool := false
  push : Bool := true
  run : Bool := false
  queue : CircularQueue Nat queueSize := .new queueSize fun _ => 0
  workers : Fin n → Worker := fun _ => .exited
  callers : Fin m → Caller := fun _ => .idle
  calls : Nat := 0
  /-- The items for which `PushWorkItem` returned `ERROR_NONE`. -/
  accepted : List Nat := []
  /-- Those for which it returned an error. -/
  refused : List (Nat × ErrorType) := []
  /-- Those with which it threw. -/
  thrown : List Nat := []
  /-- The items that left the queue. -/
  popped : List Nat := []
  /-- The items on which a thread of the pool called `process`. -/
  processed : List Nat := []
  /-- The items on which a thread of the pool called `destroy`. -/
  destroyed : List Nat := []
  /-- The items on which `ClearQueue` called `drop`. -/
  dropped : List Nat := []
  /-- The items of the calls of `PushTask` that are over and did not push them. -/
  tasksOver : List Nat := []
  /-- The items on which `PushTask` called `destroy`. -/
  tasksDestroyed : List Nat := []

namespace ThreadPool

variable {n m queueSize : Nat}

def setWorker (p : ThreadPool n m queueSize) (w : Fin n) (worker : Worker) : ThreadPool n m queueSize :=
  { p with workers := Function.update p.workers w worker }

def setCaller (p : ThreadPool n m queueSize) (c : Fin m) (caller : Caller) : ThreadPool n m queueSize :=
  { p with callers := Function.update p.callers c caller }

/-- `StopIfHasException()`. -/
def shallStop (p : ThreadPool n m queueSize) : Bool := p.hasException && p.stopIfHasException

/-- What a thread does next whose `PushWorkItem` returns an error. -/
def Push.onError (push : Push) : Caller :=
  match push.task with
  | none => .idle
  | some executeWhenFail => if executeWhenFail then .executing push.item else .destroying push.item

/-- `PushWorkItem` returns an error. -/
def refuse (p : ThreadPool n m queueSize) (c : Fin m) (push : Push) (error : ErrorType) :
    ThreadPool n m queueSize :=
  { p with refused := p.refused ++ [(push.item, error)] }.setCaller c push.onError

/-- `PushWorkItem` up to the test of its argument. -/
def pushWorkItem (p : ThreadPool n m queueSize) (c : Fin m) (isNull : Bool) (push : Push) :
    ThreadPool n m queueSize :=
  if !p.push then p.refuse c push .poolHasStop
  else if isNull then p.refuse c push .poolItemIsNull
  else p.setCaller c (.tested push)

/-- `PushWorkItem` from the test of its loop on. -/
def tryPush (p : ThreadPool n m queueSize) (c : Fin m) (push : Push) : ThreadPool n m queueSize :=
  if p.push && p.queue.size ≥ queueSize then p.setCaller c (.waiting push)
  else if !p.push then p.refuse c push .poolHasStop
  else
    match p.queue.push push.item with
    | none => p.refuse c push .poolQueueFull
    | some queue =>
        { p with queue, accepted := p.accepted ++ [push.item] }.setCaller c .idle

/-- `ClearQueue`, whose loop ends after as many rounds as there are items. -/
def clearQueue (p : ThreadPool n m queueSize) : ThreadPool n m queueSize := loop p.queue.size p
where
  loop : Nat → ThreadPool n m queueSize → ThreadPool n m queueSize
  | 0, p => p
  | rounds + 1, p =>
      match p.queue.pop with
      | none => p
      | some (item, queue) =>
          loop rounds { p with queue, popped := p.popped ++ [item], dropped := p.dropped ++ [item] }

/-- Where `Stop` begins. -/
def StopType.first : StopType → StopPhase
  | .threadOnly => .testing
  | _ => .closing

/-- Where `Stop` goes on after `StopThread`. -/
def StopType.afterThreads : StopType → StopPhase
  | .threadOnly => .checking
  | _ => .clearing

/-- `PushWorkItem` throws, and `PushTask` with it. -/
def throwUp (p : ThreadPool n m queueSize) (c : Fin m) (push : Push) : ThreadPool n m queueSize :=
  { p with
    thrown := p.thrown ++ [push.item]
    tasksOver := p.tasksOver ++ if push.task.isSome then [push.item] else [] }.setCaller c .idle

/-- `Stop` throws, or returns. -/
def leaveStop (p : ThreadPool n m queueSize) (c : Fin m) (throws : Bool) :
    Option Push → ThreadPool n m queueSize
  | none => p.setCaller c .idle
  | some push => if throws then p.throwUp c push else p.refuse c push .poolHasStop

/-- `Stop`; `none` if it has to wait. -/
def goOnStop (p : ThreadPool n m queueSize) (c : Fin m) (stopType : StopType) (phase : StopPhase)
    (push : Option Push) : Option (ThreadPool n m queueSize) :=
  let goTo (p : ThreadPool n m queueSize) (phase : StopPhase) :=
    some (p.setCaller c (.stopping stopType phase push))
  match phase with
  | .closing =>
      goTo { p with push := false } (if stopType = .afterQueueEmpty then .draining else .testing)
  | .draining => goTo p (if p.shallStop then .testing else .counting)
  | .counting => goTo p (if p.queue.size = 0 then .testing else .draining)
  | .testing => goTo p (if p.run then .halting else stopType.afterThreads)
  | .halting => goTo { p with run := false } .joining
  | .joining => if ∀ w, p.workers w = .exited then goTo p stopType.afterThreads else none
  | .clearing =>
      if stopType = .andClearQueueIgnoreException then some (p.clearQueue.leaveStop c false push)
      else goTo p.clearQueue .checking
  | .checking => some (p.leaveStop c p.shallStop push)

/-- A thread that uses the pool goes on; `throws` is what `process` does if it comes to call it. -/
def goOn (p : ThreadPool n m queueSize) (c : Fin m) (throws : Bool) :
    Option (ThreadPool n m queueSize) :=
  match p.callers c with
  | .idle => none
  | .tested push =>
      some (p.setCaller c
        (if p.shallStop then .stopping .andClearQueue StopType.andClearQueue.first (some push)
        else .locking push))
  | .locking push =>
      if !push.isBlocked && p.queue.size ≥ queueSize then some (p.refuse c push .poolQueueFull)
      else some (p.tryPush c push)
  | .waiting push =>
      if p.shallStop then some (p.refuse c push .poolHasStop) else some (p.tryPush c push)
  | .executing item =>
      if throws then some ({ p with tasksOver := p.tasksOver ++ [item] }.setCaller c .idle)
      else some (p.setCaller c (.destroying item))
  | .destroying item =>
      some ({ p with
        tasksOver := p.tasksOver ++ [item]
        tasksDestroyed := p.tasksDestroyed ++ [item] }.setCaller c .idle)
  | .stopping stopType phase push => p.goOnStop c stopType phase push

/-- `WorkerLoop`; `none` if the thread has to wait, or has returned. -/
def work (p : ThreadPool n m queueSize) (w : Fin n) (throws : Bool) :
    Option (ThreadPool n m queueSize) :=
  match p.workers w with
  | .looping => some (p.setWorker w (if p.run && !p.shallStop then .locking else .exited))
  | .locking =>
      if !p.run then some (p.setWorker w .exited)
      else
        match p.queue.pop with
        | none => none
        | some (item, queue) =>
            some ({ p with queue, popped := p.popped ++ [item] }.setWorker w (.consuming item))
  | .consuming item =>
      some ({ p with processed := p.processed ++ [item] }.setWorker w
        (if throws then .failed item else .processed item))
  | .processed item => some ({ p with destroyed := p.destroyed ++ [item] }.setWorker w .looping)
  | .failed item => some ({ p with destroyed := p.destroyed ++ [item] }.setWorker w .recording)
  | .recording => some ({ p with hasException := true }.setWorker w .looping)
  | .exited => none

/-- `Start`, which is called when no `Stop` is under way. -/
def start (p : ThreadPool n m queueSize) : Option (ThreadPool n m queueSize) :=
  if p.run then some p
  else if (∀ c, (p.callers c).stops = false) ∧ ∀ w, p.workers w = .exited then
    some { p with push := true, run := true, workers := fun _ => .looping }
  else none

inductive Action (n m : Nat) where
  | start
  | pushWorkItem (c : Fin m) (isNull isBlocked : Bool)
  | pushTask (c : Fin m) (isBlocked executeWhenFail : Bool)
  | stop (c : Fin m) (stopType : StopType)
  /-- A thread that uses the pool goes on. -/
  | goOn (c : Fin m) (throws : Bool)
  /-- A thread of the pool goes on. -/
  | work (w : Fin n) (throws : Bool)
deriving DecidableEq

def step (p : ThreadPool n m queueSize) : Action n m → Option (ThreadPool n m queueSize)
  | .start => p.start
  | .pushWorkItem c isNull isBlocked =>
      if p.callers c = .idle then
        some ({ p with calls := p.calls + 1 }.pushWorkItem c isNull ⟨p.calls, isBlocked, none⟩)
      else none
  | .pushTask c isBlocked executeWhenFail =>
      if p.callers c = .idle then
        some ({ p with calls := p.calls + 1 }.pushWorkItem c false
          ⟨p.calls, isBlocked, some executeWhenFail⟩)
      else none
  | .stop c stopType =>
      if p.callers c = .idle then some (p.setCaller c (.stopping stopType stopType.first none))
      else none
  | .goOn c throws => p.goOn c throws
  | .work w throws => p.work w throws

/-! ### What a step can do -/

/-- The moves of a pool, one for each kind of thing that a step can do. -/
inductive Move (p : ThreadPool n m queueSize) : Action n m → ThreadPool n m queueSize → Prop
  | again (running : p.run = true) : Move p .start p
  | start (stopped : p.run = false) (free : ∀ c, (p.callers c).stops = false)
      (left : ∀ w, p.workers w = .exited) :
      Move p .start { p with push := true, run := true, workers := fun _ => .looping }
  | refuseCall {a : Action n m} {c : Fin m} {push : Push} {error : ErrorType}
      (call : ∀ c throws, a ≠ .goOn c throws) (here : p.callers c = .idle)
      (number : push.item = p.calls) : Move p a ({ p with calls := p.calls + 1 }.refuse c push error)
  | enter {a : Action n m} {c : Fin m} {push : Push} (call : ∀ c throws, a ≠ .goOn c throws)
      (here : p.callers c = .idle) (number : push.item = p.calls) :
      Move p a ({ p with calls := p.calls + 1 }.setCaller c (.tested push))
  | stop {c : Fin m} {stopType : StopType} (here : p.callers c = .idle) :
      Move p (.stop c stopType) (p.setCaller c (.stopping stopType stopType.first none))
  | stopFirst {c : Fin m} {throws : Bool} {push : Push} (here : p.callers c = .tested push) :
      Move p (.goOn c throws) (p.setCaller c (.stopping .andClearQueue .closing (some push)))
  | lock {c : Fin m} {throws : Bool} {push : Push} (here : p.callers c = .tested push) :
      Move p (.goOn c throws) (p.setCaller c (.locking push))
  | refuse {c : Fin m} {throws : Bool} {push : Push} {error : ErrorType}
      (here : p.callers c = .locking push ∨ p.callers c = .waiting push) :
      Move p (.goOn c throws) (p.refuse c push error)
  | wait {c : Fin m} {throws : Bool} {push : Push}
      (here : p.callers c = .locking push ∨ p.callers c = .waiting push) :
      Move p (.goOn c throws) (p.setCaller c (.waiting push))
  | accept {c : Fin m} {throws : Bool} {push : Push} {queue : CircularQueue Nat queueSize}
      (here : p.callers c = .locking push ∨ p.callers c = .waiting push) (opened : p.push = true)
      (pushed : p.queue.push push.item = some queue) :
      Move p (.goOn c throws)
        ({ p with queue, accepted := p.accepted ++ [push.item] }.setCaller c .idle)
  | abandonTask {c : Fin m} {item : Nat} (here : p.callers c = .executing item) :
      Move p (.goOn c true) ({ p with tasksOver := p.tasksOver ++ [item] }.setCaller c .idle)
  | executeTask {c : Fin m} {item : Nat} (here : p.callers c = .executing item) :
      Move p (.goOn c false) (p.setCaller c (.destroying item))
  | destroyTask {c : Fin m} {throws : Bool} {item : Nat} (here : p.callers c = .destroying item) :
      Move p (.goOn c throws)
        ({ p with
          tasksOver := p.tasksOver ++ [item]
          tasksDestroyed := p.tasksDestroyed ++ [item] }.setCaller c .idle)
  | close {c : Fin m} {throws : Bool} {stopType : StopType} {push : Option Push} {phase : StopPhase}
      (here : p.callers c = .stopping stopType .closing push)
      (next : phase = .draining ∨ phase = .testing) :
      Move p (.goOn c throws) ({ p with push := false }.setCaller c (.stopping stopType phase push))
  | drain {c : Fin m} {throws : Bool} {stopType : StopType} {push : Option Push}
      {phase phase' : StopPhase} (here : p.callers c = .stopping stopType phase push)
      (draining : phase = .draining ∨ phase = .counting)
      (next : phase' = .draining ∨ phase' = .counting ∨ phase' = .testing) :
      Move p (.goOn c throws) (p.setCaller c (.stopping stopType phase' push))
  | findStopped {c : Fin m} {throws : Bool} {stopType : StopType} {push : Option Push}
      (here : p.callers c = .stopping stopType .testing push) (stopped : p.run = false) :
      Move p (.goOn c throws) (p.setCaller c (.stopping stopType stopType.afterThreads push))
  | findRunning {c : Fin m} {throws : Bool} {stopType : StopType} {push : Option Push}
      (here : p.callers c = .stopping stopType .testing push) :
      Move p (.goOn c throws) (p.setCaller c (.stopping stopType .halting push))
  | halt {c : Fin m} {throws : Bool} {stopType : StopType} {push : Option Push}
      (here : p.callers c = .stopping stopType .halting push) :
      Move p (.goOn c throws) ({ p with run := false }.setCaller c (.stopping stopType .joining push))
  | join {c : Fin m} {throws : Bool} {stopType : StopType} {push : Option Push}
      (here : p.callers c = .stopping stopType .joining push) (left : ∀ w, p.workers w = .exited) :
      Move p (.goOn c throws) (p.setCaller c (.stopping stopType stopType.afterThreads push))
  | clear {c : Fin m} {throws : Bool} {stopType : StopType} {push : Option Push}
      (here : p.callers c = .stopping stopType .clearing push) :
      Move p (.goOn c throws) (p.clearQueue.setCaller c (.stopping stopType .checking push))
  | clearAndLeave {c : Fin m} {throws : Bool} {stopType : StopType} {push : Option Push}
      (here : p.callers c = .stopping stopType .clearing push) :
      Move p (.goOn c throws) (p.clearQueue.leaveStop c false push)
  | check {c : Fin m} {throws : Bool} {stopType : StopType} {push : Option Push}
      (here : p.callers c = .stopping stopType .checking push) :
      Move p (.goOn c throws) (p.leaveStop c p.shallStop push)
  | loop {w : Fin n} {throws : Bool} (here : p.workers w = .looping) :
      Move p (.work w throws) (p.setWorker w .locking)
  | leave {w : Fin n} {throws : Bool} (here : p.workers w = .looping ∨ p.workers w = .locking) :
      Move p (.work w throws) (p.setWorker w .exited)
  | pop {w : Fin n} {throws : Bool} {item : Nat} {queue : CircularQueue Nat queueSize}
      (here : p.workers w = .locking) (popped : p.queue.pop = some (item, queue)) :
      Move p (.work w throws)
        ({ p with queue, popped := p.popped ++ [item] }.setWorker w (.consuming item))
  | process {w : Fin n} {throws : Bool} {item : Nat} {worker : Worker}
      (here : p.workers w = .consuming item)
      (next : worker = .failed item ∨ worker = .processed item) :
      Move p (.work w throws) ({ p with processed := p.processed ++ [item] }.setWorker w worker)
  | destroy {w : Fin n} {throws : Bool} {item : Nat} {worker : Worker}
      (here : p.workers w = .processed item ∨ p.workers w = .failed item)
      (next : worker = .looping ∨ worker = .recording) :
      Move p (.work w throws) ({ p with destroyed := p.destroyed ++ [item] }.setWorker w worker)
  | record {w : Fin n} {throws : Bool} (here : p.workers w = .recording) :
      Move p (.work w throws) ({ p with hasException := true }.setWorker w .looping)

section Moves

variable {p p' : ThreadPool n m queueSize} {c : Fin m}

theorem move_of_pushWorkItem {a : Action n m} {isNull : Bool} {push : Push}
    (call : ∀ c throws, a ≠ .goOn c throws) (here : p.callers c = .idle)
    (number : push.item = p.calls) :
    p.Move a ({ p with calls := p.calls + 1 }.pushWorkItem c isNull push) := by
  unfold pushWorkItem
  split_ifs
  · exact .refuseCall call here number
  · exact .refuseCall call here number
  · exact .enter call here number

variable {throws : Bool}

theorem move_of_tryPush {push : Push}
    (here : p.callers c = .locking push ∨ p.callers c = .waiting push) :
    p.Move (.goOn c throws) (p.tryPush c push) := by
  unfold tryPush
  split_ifs with full closed
  · exact .wait here
  · exact .refuse here
  · split
    · exact .refuse here
    · rename_i queue pushed
      exact .accept here (by simpa using closed) pushed

theorem move_of_goOnStop {stopType : StopType} {phase : StopPhase}
    {push : Option Push} (here : p.callers c = .stopping stopType phase push)
    (moved : p.goOnStop c stopType phase push = some p') : p.Move (.goOn c throws) p' := by
  cases phase with
  | closing =>
    cases moved
    apply Move.close here
    split_ifs
    · exact .inl rfl
    · exact .inr rfl
  | draining =>
    cases moved
    apply Move.drain here (.inl rfl)
    split_ifs
    · exact .inr (.inr rfl)
    · exact .inr (.inl rfl)
  | counting =>
    cases moved
    apply Move.drain here (.inr rfl)
    split_ifs
    · exact .inr (.inr rfl)
    · exact .inl rfl
  | testing =>
    cases moved
    split_ifs with running
    · exact .findRunning here
    · exact .findStopped here (Bool.eq_false_iff.mpr running)
  | halting =>
    cases moved
    exact .halt here
  | joining =>
    simp only [goOnStop] at moved
    split_ifs at moved with left
    cases moved
    exact .join here left
  | clearing =>
    simp only [goOnStop] at moved
    split_ifs at moved <;> cases moved
    · exact .clearAndLeave here
    · exact .clear here
  | checking =>
    cases moved
    exact .check here

theorem move_of_goOn (moved : p.goOn c throws = some p') : p.Move (.goOn c throws) p' := by
  unfold goOn at moved
  split at moved
  · cases moved
  · rename_i push here
    cases moved
    split_ifs
    · exact .stopFirst here
    · exact .lock here
  · rename_i push here
    split_ifs at moved <;> cases moved
    · exact .refuse (.inl here)
    · exact move_of_tryPush (.inl here)
  · rename_i push here
    split_ifs at moved <;> cases moved
    · exact .refuse (.inr here)
    · exact move_of_tryPush (.inr here)
  · rename_i item here
    split_ifs at moved with fails <;> cases moved
    · subst fails
      exact .abandonTask here
    · cases Bool.eq_false_iff.mpr fails
      exact .executeTask here
  · rename_i item here
    cases moved
    exact .destroyTask here
  · rename_i stopType phase push here
    exact move_of_goOnStop here moved

theorem move_of_work {w : Fin n} (moved : p.work w throws = some p') :
    p.Move (.work w throws) p' := by
  unfold work at moved
  split at moved
  · rename_i here
    cases moved
    split_ifs
    · exact .loop here
    · exact .leave (.inl here)
  · rename_i here
    split_ifs at moved
    · cases moved
      exact .leave (.inr here)
    · split at moved
      · cases moved
      · rename_i item queue popped
        cases moved
        exact .pop here popped
  · rename_i item here
    cases moved
    apply Move.process here
    split_ifs
    · exact .inl rfl
    · exact .inr rfl
  · rename_i item here
    cases moved
    exact .destroy (.inl here) (.inl rfl)
  · rename_i item here
    cases moved
    exact .destroy (.inr here) (.inr rfl)
  · rename_i here
    cases moved
    exact .record here
  · cases moved

theorem move_of_step {a : Action n m} (moved : p.step a = some p') : p.Move a p' := by
  cases a with
  | start =>
    simp only [step, ThreadPool.start] at moved
    split_ifs at moved with running free <;> cases moved
    · exact .again running
    · exact .start (Bool.eq_false_iff.mpr running) free.1 free.2
  | pushWorkItem c isNull isBlocked | pushTask c isBlocked executeWhenFail =>
    simp only [step] at moved
    split_ifs at moved with idle
    cases moved
    exact move_of_pushWorkItem nofun idle rfl
  | stop c stopType =>
    simp only [step] at moved
    split_ifs at moved with idle
    cases moved
    exact .stop idle
  | goOn c throws => exact move_of_goOn moved
  | work w throws => exact move_of_work moved

end Moves

end ThreadPool

end AgentEngine.Util
