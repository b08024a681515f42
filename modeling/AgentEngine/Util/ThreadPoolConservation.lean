import AgentEngine.Util.ThreadPool

/-!
No work item is lost in a `ThreadPool`, and none is handled twice.

`Items` follows an item that was accepted from the queue to the thread that consumes it, `Calls`
follows an item until `PushWorkItem` says what became of it, and `Closing` is what `Stop` has made
sure of at each of its phases. What `PushTask` does with an item that was not accepted is all right
only if nothing throws on the way: it has no handler around `PushWorkItem` and `process`, and then
does not come to `destroy` (`TaskKept`).
-/

namespace AgentEngine.Util

open Lib List Function Option CircularQueue

namespace ThreadPool

variable {n m queueSize : Nat} {p p' : ThreadPool n m queueSize}

/-! ### Items in the pool -/

section Items

/-- It took this item from the queue and did not call `process` yet. -/
def Worker.consumes (item : Nat) : Worker → Nat
  | .consuming item' => if item' = item then 1 else 0
  | _ => 0

/-- It called `process` on this item and did not call `destroy` yet. -/
def Worker.owesDestroy (item : Nat) : Worker → Nat
  | .processed item' | .failed item' => if item' = item then 1 else 0
  | _ => 0

/-- Where each accepted item is, and where it has been. -/
structure Items (p : ThreadPool n m queueSize) : Prop where
  order : p.accepted = p.popped ++ p.queue.toList
  placed : ∀ item, p.accepted.count item = p.queue.toList.count item +
    tally (Worker.consumes item) p.workers + p.processed.count item + p.dropped.count item
  ended : ∀ item, p.processed.count item =
    tally (Worker.owesDestroy item) p.workers + p.destroyed.count item

theorem items_new (stopIfHasException : Bool) :
    Items ({ stopIfHasException } : ThreadPool n m queueSize) := by
  constructor
  · rfl
  · intro item
    have none_works : tally (Worker.consumes item) (fun _ : Fin n => .exited) = 0 :=
      tally_const_eq_zero rfl
    change 0 = 0 + tally _ _ + 0 + 0
    rw [none_works]
  · intro item
    have none_works : tally (Worker.owesDestroy item) (fun _ : Fin n => .exited) = 0 :=
      tally_const_eq_zero rfl
    exact none_works.symm

/-- What one call of `pop` more does to the queue is done by `clearQueue` to all of it. -/
theorem clearQueue_eq (p : ThreadPool n m queueSize) :
    ∃ queue : CircularQueue Nat queueSize, queue.toList = [] ∧
      p.clearQueue = { p with
        queue
        popped := p.popped ++ p.queue.toList
        dropped := p.dropped ++ p.queue.toList } := by
  suffices loop : ∀ rounds (p : ThreadPool n m queueSize), p.queue.size ≤ rounds →
      ∃ queue : CircularQueue Nat queueSize, queue.toList = [] ∧
        clearQueue.loop rounds p = { p with
          queue
          popped := p.popped ++ p.queue.toList
          dropped := p.dropped ++ p.queue.toList } from loop _ p le_rfl
  intro rounds
  induction rounds with
  | zero =>
    intro p enough
    have empty := toList_eq_nil (Nat.le_zero.mp enough)
    refine ⟨p.queue, empty, ?_⟩
    rw [empty, append_nil, append_nil]
    rfl
  | succ rounds ih =>
    intro p enough
    unfold clearQueue.loop
    split
    · rename_i none_left
      have empty := toList_eq_nil (size_eq_zero_of_pop none_left)
      refine ⟨p.queue, empty, ?_⟩
      rw [empty, append_nil, append_nil]
    · rename_i item queue popped
      have front := toList_of_pop popped
      have shorter : queue.size + 1 = p.queue.size := by
        rw [← queue.length_toList, ← p.queue.length_toList, front, length_cons]
      obtain ⟨rest, empty, same⟩ := ih { p with
        queue
        popped := p.popped ++ [item]
        dropped := p.dropped ++ [item] } (by dsimp only; omega)
      refine ⟨rest, empty, ?_⟩
      rw [same, front]
      simp only [append_assoc, singleton_append]

theorem Items.clearQueue (h : p.Items) : p.clearQueue.Items := by
  obtain ⟨queue, empty, same⟩ := p.clearQueue_eq
  rw [same]
  constructor
  · rw [empty, append_nil]
    exact h.order
  · intro item
    have := h.placed item
    rw [empty, count_append, count_nil]
    dsimp only
    omega
  · exact h.ended

/-- `Stop` ends without touching the queue, the flags or the threads of the pool. -/
theorem leaveStop_eq (p : ThreadPool n m queueSize) (c : Fin m) (throws : Bool) (push : Option Push) :
    ∃ callers refused thrown tasksOver, p.leaveStop c throws push = { p with
      callers
      refused
      thrown
      tasksOver } := by
  unfold leaveStop
  split
  · exact ⟨_, _, _, _, rfl⟩
  · split_ifs <;> exact ⟨_, _, _, _, rfl⟩

theorem Items.leaveStop (h : p.Items) (c : Fin m) (throws : Bool) (push : Option Push) :
    (p.leaveStop c throws push).Items := by
  obtain ⟨callers, refused, thrown, tasksOver, same⟩ := p.leaveStop_eq c throws push
  rw [same]
  exact ⟨h.order, h.placed, h.ended⟩

/-- A thread of the pool goes on. -/
theorem Items.moveWorker (h : p.Items) {w : Fin n} (worker : Worker)
    {queue : CircularQueue Nat queueSize} {popped processed destroyed : List Nat}
    {hasException : Bool} (order : popped ++ queue.toList = p.popped ++ p.queue.toList)
    (placed : ∀ item, queue.toList.count item + worker.consumes item + processed.count item =
      p.queue.toList.count item + (p.workers w).consumes item + p.processed.count item)
    (ended : ∀ item, p.processed.count item + worker.owesDestroy item + destroyed.count item =
      processed.count item + (p.workers w).owesDestroy item + p.destroyed.count item) :
    Items ({ p with queue, popped, processed, destroyed, hasException }.setWorker w worker) := by
  constructor
  · exact h.order.trans order.symm
  · intro item
    have moved := tally_update (Worker.consumes item) p.workers w worker
    have := h.placed item
    have := placed item
    dsimp only [setWorker]
    omega
  · intro item
    have moved := tally_update (Worker.owesDestroy item) p.workers w worker
    have := h.ended item
    have := ended item
    dsimp only [setWorker]
    omega

theorem Items.step {a : Action n m} (h : p.Items) (moved : p.step a = some p') : p'.Items := by
  cases move_of_step moved with
  | again => exact h
  | start stopped free left =>
    have none_works : ∀ f : Worker → Nat, f .exited = 0 → f .looping = 0 →
        tally f p.workers = tally f fun _ : Fin n => Worker.looping := by
      intro f exited looping
      rw [tally_eq_zero fun w => (congrArg f (left w)).trans exited, tally_const_eq_zero looping]
    constructor
    · exact h.order
    · intro item
      have := h.placed item
      rwa [none_works _ rfl rfl] at this
    · intro item
      have := h.ended item
      rwa [none_works _ rfl rfl] at this
  | refuseCall | enter | stop | stopFirst | lock | refuse | wait | abandonTask | executeTask
  | destroyTask | close | drain | findStopped | findRunning | halt | join =>
    exact ⟨h.order, h.placed, h.ended⟩
  | accept here opened pushed =>
    have back := toList_of_push pushed
    constructor
    · dsimp only [setCaller]
      rw [back, h.order, append_assoc]
    · intro item
      have := h.placed item
      dsimp only [setCaller]
      rw [back, count_append, count_append]
      omega
    · exact h.ended
  | clear => exact ⟨h.clearQueue.order, h.clearQueue.placed, h.clearQueue.ended⟩
  | clearAndLeave => exact h.clearQueue.leaveStop _ _ _
  | check => exact h.leaveStop _ _ _
  | loop here =>
    apply h.moveWorker .locking rfl <;> intro item <;> rw [here] <;> rfl
  | leave here =>
    rcases here with here | here <;>
      apply h.moveWorker .exited rfl <;> intro item <;> rw [here] <;> rfl
  | @pop w _ item queue here popped =>
    have front := toList_of_pop popped
    apply h.moveWorker (.consuming item)
    · rw [front, append_assoc, singleton_append]
    · intro item'
      rw [front, here, count_cons]
      simp only [Worker.consumes, beq_iff_eq]
      omega
    · intro item'
      rw [here]
      rfl
  | @process w _ item worker here next =>
    have new : ∀ item', worker.consumes item' = 0 ∧
        worker.owesDestroy item' = if item = item' then 1 else 0 := by
      rcases next with rfl | rfl <;> exact fun item' => ⟨rfl, rfl⟩
    apply h.moveWorker worker rfl
    · intro item'
      rw [here, (new item').1, count_append, count_singleton]
      simp only [Worker.consumes, beq_iff_eq]
      omega
    · intro item'
      rw [here, (new item').2, count_append, count_singleton]
      simp only [Worker.owesDestroy, beq_iff_eq]
      omega
  | @destroy w _ item worker here next =>
    have old : ∀ item', (p.workers w).consumes item' = 0 ∧
        (p.workers w).owesDestroy item' = if item = item' then 1 else 0 := by
      rcases here with here | here <;> rw [here] <;> exact fun item' => ⟨rfl, rfl⟩
    have new : ∀ item', worker.consumes item' = 0 ∧ worker.owesDestroy item' = 0 := by
      rcases next with rfl | rfl <;> exact fun item' => ⟨rfl, rfl⟩
    apply h.moveWorker worker rfl
    · intro item'
      rw [(old item').1, (new item').1]
    · intro item'
      rw [(old item').2, (new item').2, count_append, count_singleton]
      simp only [beq_iff_eq]
      omega
  | record here =>
    apply h.moveWorker .looping rfl <;> intro item <;> rw [here] <;> rfl

end Items

/-! ### Calls -/

section Calls

/-- The item on which `PushWorkItem` is at work. -/
def Caller.pushing : Caller → Option Nat
  | .tested push | .locking push | .waiting push => some push.item
  | .stopping _ _ push => push.map Push.item
  | _ => none

/-- The item that `PushTask` has to destroy. -/
def Caller.handling : Caller → Option Nat
  | .executing item | .destroying item => some item
  | _ => none

def Caller.pushes (item : Nat) (caller : Caller) : Nat :=
  if caller.pushing = some item then 1 else 0

def Caller.handles (item : Nat) (caller : Caller) : Nat :=
  if caller.handling = some item then 1 else 0

/-- The items for which `PushWorkItem` returned an error. -/
def refusedItems (p : ThreadPool n m queueSize) : List Nat := p.refused.map Prod.fst

/-- Each item has one outcome at most, and `PushTask` handles what was not accepted. -/
structure Calls (p : ThreadPool n m queueSize) : Prop where
  outcome : ∀ item, tally (Caller.pushes item) p.callers + p.accepted.count item +
    p.refusedItems.count item + p.thrown.count item = if item < p.calls then 1 else 0
  tasks : ∀ item, tally (Caller.handles item) p.callers + p.tasksOver.count item ≤
    p.refusedItems.count item + p.thrown.count item
  destroyed : ∀ item, p.tasksDestroyed.count item ≤ p.tasksOver.count item

theorem calls_new (stopIfHasException : Bool) :
    Calls ({ stopIfHasException } : ThreadPool n m queueSize) := by
  constructor
  · intro item
    have none_pushes : tally (Caller.pushes item) (fun _ : Fin m => .idle) = 0 :=
      tally_const_eq_zero rfl
    exact none_pushes
  · intro item
    have none_handles : tally (Caller.handles item) (fun _ : Fin m => .idle) = 0 :=
      tally_const_eq_zero rfl
    exact none_handles.le
  · intro item
    exact le_rfl

variable {c : Fin m}

/-- A thread that uses the pool goes on. -/
theorem Calls.moveCaller (h : p.Calls) (caller : Caller)
    (callers : p'.callers = Function.update p.callers c caller)
    (outcome : ∀ item, caller.pushes item + p'.accepted.count item + p'.refusedItems.count item +
      p'.thrown.count item + (if item < p.calls then 1 else 0) =
        (p.callers c).pushes item + p.accepted.count item + p.refusedItems.count item +
          p.thrown.count item + if item < p'.calls then 1 else 0)
    (tasks : ∀ item, caller.handles item + p'.tasksOver.count item + p.refusedItems.count item +
      p.thrown.count item ≤ (p.callers c).handles item + p.tasksOver.count item +
        p'.refusedItems.count item + p'.thrown.count item)
    (destroyed : ∀ item, p'.tasksDestroyed.count item + p.tasksOver.count item ≤
      p.tasksDestroyed.count item + p'.tasksOver.count item) : p'.Calls := by
  constructor
  · intro item
    have moved := tally_update (Caller.pushes item) p.callers c caller
    have := h.outcome item
    have := outcome item
    rw [callers]
    omega
  · intro item
    have moved := tally_update (Caller.handles item) p.callers c caller
    have := h.tasks item
    have := tasks item
    rw [callers]
    omega
  · intro item
    have := h.destroyed item
    have := destroyed item
    omega

/-- A thread goes on that keeps the items it has. -/
theorem Calls.keepItem (h : p.Calls) {caller : Caller} {push run : Bool}
    (pushing : caller.pushing = (p.callers c).pushing)
    (handling : caller.handling = (p.callers c).handling) :
    Calls ({ p with push, run }.setCaller c caller) := by
  have pushes : ∀ item, caller.pushes item = (p.callers c).pushes item := by
    intro item
    unfold Caller.pushes
    rw [pushing]
  have handles : ∀ item, caller.handles item = (p.callers c).handles item := by
    intro item
    unfold Caller.handles
    rw [handling]
  apply h.moveCaller caller rfl
  · intro item
    rw [pushes]
    rfl
  · intro item
    rw [handles]
    exact le_rfl
  · intro item
    exact le_rfl

theorem Push.pushing_onError (push : Push) : push.onError.pushing = none := by
  unfold Push.onError
  split
  · rfl
  · split_ifs <;> rfl

theorem Push.handles_onError_le (push : Push) (item : Nat) :
    push.onError.handles item ≤ if push.item = item then 1 else 0 := by
  unfold Push.onError
  split
  · exact Nat.zero_le _
  · split_ifs <;> simp_all [Caller.handles, Caller.handling]

/-- `PushWorkItem` returns an error; before, it was at work on the item, or was just called. -/
theorem Calls.refuse (h : p.Calls) {push : Push} (error : ErrorType) {calls : Nat}
    (outcome : ∀ item, (if push.item = item then 1 else 0) + (if item < p.calls then 1 else 0) =
      (p.callers c).pushes item + if item < calls then 1 else 0) :
    Calls ({ p with calls }.refuse c push error) := by
  have refused : ∀ item, ({ p with calls }.refuse c push error).refusedItems.count item =
      p.refusedItems.count item + if push.item = item then 1 else 0 := by
    intro item
    simp only [ThreadPool.refuse, refusedItems, setCaller, map_append, map_cons,
      map_nil, count_append, count_singleton, beq_iff_eq]
  apply h.moveCaller push.onError rfl
  · intro item
    have none_left : push.onError.pushes item = 0 := by
      unfold Caller.pushes
      rw [push.pushing_onError]
      rfl
    have := outcome item
    rw [none_left, refused]
    change 0 + p.accepted.count item + _ + p.thrown.count item + _ = _ + if item < calls then 1 else 0
    omega
  · intro item
    have := push.handles_onError_le item
    rw [refused]
    change _ + p.tasksOver.count item + _ + _ ≤ _ + _ + _ + p.thrown.count item
    omega
  · intro item
    exact le_rfl

theorem Calls.clearQueue (h : p.Calls) : p.clearQueue.Calls := by
  obtain ⟨queue, -, same⟩ := p.clearQueue_eq
  rw [same]
  exact ⟨h.outcome, h.tasks, h.destroyed⟩

theorem callers_clearQueue (p : ThreadPool n m queueSize) : p.clearQueue.callers = p.callers := by
  obtain ⟨queue, -, same⟩ := p.clearQueue_eq
  rw [same]

theorem Calls.throwUp (h : p.Calls) {push : Push}
    (pushes : ∀ item, (p.callers c).pushes item = if push.item = item then 1 else 0) :
    (p.throwUp c push).Calls := by
  have thrown : ∀ item, (p.throwUp c push).thrown.count item =
      p.thrown.count item + if push.item = item then 1 else 0 := by
    intro item
    simp only [ThreadPool.throwUp, setCaller, count_append, count_singleton, beq_iff_eq]
  have tasksOver : ∀ item, p.tasksOver.count item ≤ (p.throwUp c push).tasksOver.count item ∧
      (p.throwUp c push).tasksOver.count item ≤
        p.tasksOver.count item + if push.item = item then 1 else 0 := by
    intro item
    dsimp only [ThreadPool.throwUp, setCaller]
    split_ifs <;> simp_all [count_append]
  apply h.moveCaller .idle rfl
  · intro item
    rw [thrown, pushes]
    change 0 + p.accepted.count item + p.refusedItems.count item + _ + _ =
      _ + if item < p.calls then 1 else 0
    omega
  · intro item
    have := (tasksOver item).2
    rw [thrown]
    change 0 + _ + _ + _ ≤ _ + _ + p.refusedItems.count item + _
    omega
  · intro item
    exact Nat.add_le_add_left (tasksOver item).1 _

theorem Calls.leaveStop (h : p.Calls) {stopType : StopType} {phase : StopPhase}
    {push : Option Push} (throws : Bool) (here : p.callers c = .stopping stopType phase push) :
    (p.leaveStop c throws push).Calls := by
  cases push with
  | none => exact h.keepItem (by rw [here]; rfl) (by rw [here]; rfl)
  | some push =>
    have pushes : ∀ item, (p.callers c).pushes item = if push.item = item then 1 else 0 := by
      intro item
      rw [here]
      simp only [Caller.pushes, Caller.pushing, map_some, some.injEq]
    unfold ThreadPool.leaveStop
    split_ifs
    · exact h.throwUp pushes
    · exact h.refuse .poolHasStop fun item => by rw [pushes]

/-- `PushTask` is done with an item. -/
theorem Calls.endTask (h : p.Calls) {item : Nat} {tasksDestroyed : List Nat}
    (pushing : (p.callers c).pushing = none) (handling : (p.callers c).handling = some item)
    (destroyed : ∀ item', tasksDestroyed.count item' ≤
      p.tasksDestroyed.count item' + [item].count item') :
    Calls ({ p with tasksOver := p.tasksOver ++ [item], tasksDestroyed }.setCaller c .idle) := by
  apply h.moveCaller .idle rfl
  · intro item'
    simp only [Caller.pushes, pushing]
    rfl
  · intro item'
    simp only [Caller.handles, handling, some.injEq]
    dsimp only [setCaller]
    rw [count_append, count_singleton]
    simp only [beq_iff_eq]
    change 0 + _ + _ + _ ≤ _ + _ + p.refusedItems.count item' + _
    omega
  · intro item'
    have := destroyed item'
    dsimp only [setCaller]
    rw [count_append]
    omega

theorem Calls.step {a : Action n m} (h : p.Calls) (moved : p.step a = some p') : p'.Calls := by
  have pushes : ∀ {c} {push : Push}, (p.callers c).pushing = some push.item → ∀ item,
      (p.callers c).pushes item = if push.item = item then 1 else 0 := by
    intro c push pushing item
    simp only [Caller.pushes, pushing, some.injEq]
  have holds : ∀ {c push}, p.callers c = .locking push ∨ p.callers c = .waiting push →
      (p.callers c).pushing = some push.item ∧ (p.callers c).handling = none := by
    rintro c push (here | here) <;> rw [here] <;> exact ⟨rfl, rfl⟩
  have numbered : ∀ {c} {push : Push}, p.callers c = .idle → push.item = p.calls → ∀ item,
      (if push.item = item then 1 else 0) + (if item < p.calls then 1 else 0) =
        (p.callers c).pushes item + if item < p.calls + 1 then 1 else 0 := by
    intro c push here number item
    rw [here, number]
    change _ = 0 + _
    split_ifs <;> omega
  cases move_of_step moved with
  | again => exact h
  | start | loop | leave | pop | process | destroy | record =>
    exact ⟨h.outcome, h.tasks, h.destroyed⟩
  | refuseCall call here number => exact h.refuse _ (numbered here number)
  | @enter _ c push call here number =>
    apply h.moveCaller (.tested push) rfl
    · intro item
      have := numbered here number item
      simp only [Caller.pushes, Caller.pushing, some.injEq] at this ⊢
      change _ + p.accepted.count item + p.refusedItems.count item + p.thrown.count item + _ =
        _ + if item < p.calls + 1 then 1 else 0
      omega
    · intro item
      change 0 + p.tasksOver.count item + _ + _ ≤ _ + _ + p.refusedItems.count item + p.thrown.count item
      omega
    · intro item
      exact le_rfl
  | stop here | stopFirst here | lock here | close here | drain here | findStopped here
  | findRunning here | halt here | join here | executeTask here =>
    exact h.keepItem (by rw [here]; rfl) (by rw [here]; rfl)
  | refuse here => exact h.refuse _ fun item => by rw [pushes (holds here).1]
  | wait here =>
    exact h.keepItem (holds here).1.symm (holds here).2.symm
  | @accept c _ push queue here opened pushed =>
    apply h.moveCaller .idle rfl
    · intro item
      rw [pushes (holds here).1]
      dsimp only [setCaller]
      rw [count_append, count_singleton]
      simp only [beq_iff_eq]
      change 0 + _ + p.refusedItems.count item + _ + _ = _ + if item < p.calls then 1 else 0
      omega
    · intro item
      change 0 + p.tasksOver.count item + _ + _ ≤ _ + _ + p.refusedItems.count item + p.thrown.count item
      omega
    · intro item
      exact le_rfl
  | abandonTask here =>
    exact h.endTask (by rw [here]; rfl) (by rw [here]; rfl) fun _ => Nat.le_add_right ..
  | destroyTask here =>
    exact h.endTask (by rw [here]; rfl) (by rw [here]; rfl) fun _ => count_append.le
  | @clear c _ stopType push here =>
    have here' : p.clearQueue.callers c = .stopping stopType .clearing push := by
      rw [callers_clearQueue, here]
    exact h.clearQueue.keepItem (by rw [here']; rfl) (by rw [here']; rfl)
  | @clearAndLeave c _ stopType push here =>
    have here' : p.clearQueue.callers c = .stopping stopType .clearing push := by
      rw [callers_clearQueue, here]
    exact h.clearQueue.leaveStop false here'
  | check here => exact h.leaveStop _ here

end Calls

/-! ### `Stop` -/

section Closing

/-- What `Stop` has made sure of when a thread is there. -/
def Caller.Sees (p : ThreadPool n m queueSize) : Caller → Prop
  | .stopping stopType phase _ =>
      (stopType ≠ .threadOnly → phase ≠ .closing → p.push = false) ∧
      (stopType ≠ .threadOnly → phase = .checking → p.queue.toList = []) ∧
      (phase = .joining ∨ phase = .clearing ∨ phase = .checking → p.run = false)
  | _ => True

def Caller.joins : Caller → Bool
  | .stopping _ .joining _ => true
  | _ => false

structure Closing (p : ThreadPool n m queueSize) : Prop where
  callers : ∀ c, (p.callers c).Sees p
  workers : p.run = false → (∃ c, (p.callers c).joins = true) ∨ ∀ w, p.workers w = .exited

theorem closing_new (stopIfHasException : Bool) :
    Closing ({ stopIfHasException } : ThreadPool n m queueSize) :=
  ⟨fun _ => trivial, fun _ => .inr fun _ => rfl⟩

/-- What only grows true while a `Stop` is under way. -/
structure Closes (p p' : ThreadPool n m queueSize) : Prop where
  push : p.push = false → p'.push = false
  queue : p.push = false → p.queue.toList = [] → p'.queue.toList = []
  run : p.run = false → p'.run = false

theorem closes_setCaller (p : ThreadPool n m queueSize) (c : Fin m) (caller : Caller) :
    Closes p (p.setCaller c caller) := ⟨id, fun _ => id, id⟩

variable {caller : Caller}

theorem Caller.Sees.mono (h : caller.Sees p) (closes : Closes p p') : caller.Sees p' := by
  cases caller with
  | stopping stopType phase push =>
    obtain ⟨closed, cleared, halted⟩ := h
    refine ⟨fun other later => closes.push (closed other later), fun other last => ?_,
      fun late => closes.run (halted late)⟩
    refine closes.queue (closed other ?_) (cleared other last)
    rw [last]
    exact nofun
  | _ => trivial

theorem Closing.sees_update (h : p.Closing) {c : Fin m} (closes : Closes p p')
    (sees : caller.Sees p') (c' : Fin m) : (Function.update p.callers c caller c').Sees p' := by
  by_cases same : c' = c
  · subst same
    rwa [update_self]
  · rw [update_of_ne same]
    exact (h.callers c').mono closes

/-- A thread that uses the pool goes on, and is not the one that waits for the workers. -/
theorem Closing.moveCaller (h : p.Closing) {c : Fin m}
    (callers : p'.callers = Function.update p.callers c caller) (workers : p'.workers = p.workers)
    (closes : Closes p p') (sees : caller.Sees p') (running : p.run = true → p'.run = true)
    (elsewhere : (p.callers c).joins = false) : p'.Closing := by
  constructor
  · rw [callers]
    exact h.sees_update closes sees
  · intro stopped
    have stopped : p.run = false := by
      by_contra runs
      rw [running (Bool.not_eq_false _ ▸ runs)] at stopped
      cases stopped
    rw [workers, callers]
    refine (h.workers stopped).imp ?_ id
    rintro ⟨c', joins⟩
    refine ⟨c', ?_⟩
    rwa [update_of_ne]
    rintro rfl
    cases elsewhere.symm.trans joins

/-- A thread of the pool goes on. -/
theorem Closing.moveWorker (h : p.Closing) {w : Fin n} {worker : Worker}
    {queue : CircularQueue Nat queueSize} {popped processed destroyed : List Nat}
    {hasException : Bool} (here : p.workers w ≠ .exited)
    (shorter : p.queue.toList = [] → queue.toList = []) :
    Closing ({ p with queue, popped, processed, destroyed, hasException }.setWorker w worker) := by
  constructor
  · intro c
    exact (h.callers c).mono ⟨id, fun _ => shorter, id⟩
  · intro stopped
    rcases h.workers stopped with joins | left
    · exact .inl joins
    · exact absurd (left w) here

theorem StopType.afterThreads_cases (stopType : StopType) :
    stopType.afterThreads = .clearing ∨ stopType = .threadOnly ∧ stopType.afterThreads = .checking := by
  cases stopType
  · exact .inr ⟨rfl, rfl⟩
  all_goals exact .inl rfl

theorem StopType.sees_afterThreads {stopType : StopType} {push : Option Push}
    (closed : stopType ≠ .threadOnly → p.push = false) (stopped : p.run = false) :
    (Caller.stopping stopType stopType.afterThreads push).Sees p := by
  refine ⟨fun other _ => closed other, fun other last => ?_, fun _ => stopped⟩
  rcases stopType.afterThreads_cases with clearing | ⟨only, -⟩
  · cases clearing.symm.trans last
  · exact absurd only other

theorem Caller.sees_of_not_stops (h : caller.stops = false) : caller.Sees p := by
  cases caller with
  | stopping => cases h
  | _ => trivial

theorem Caller.not_joins_of_not_stops (h : caller.stops = false) : caller.joins = false := by
  cases caller with
  | stopping => cases h
  | _ => rfl

theorem Push.stops_onError (push : Push) : push.onError.stops = false := by
  unfold Push.onError
  split
  · rfl
  · split_ifs <;> rfl

/-- A thread goes on that was not in `Stop` and is not now. -/
theorem Closing.moveOutside (h : p.Closing) {c : Fin m}
    (callers : p'.callers = Function.update p.callers c caller) (workers : p'.workers = p.workers)
    (closes : Closes p p') (running : p.run = true → p'.run = true)
    (before : (p.callers c).stops = false) (now : caller.stops = false) : p'.Closing :=
  h.moveCaller callers workers closes (Caller.sees_of_not_stops now) running
    (Caller.not_joins_of_not_stops before)

/-- `Stop` returns or throws. -/
theorem Closing.leaveStop (h : p.Closing) {c : Fin m} (throws : Bool) (push : Option Push)
    (elsewhere : (p.callers c).joins = false) : (p.leaveStop c throws push).Closing := by
  unfold ThreadPool.leaveStop
  split
  · exact h.moveCaller rfl rfl (closes_setCaller ..) trivial id elsewhere
  · rename_i push
    split_ifs
    · exact h.moveCaller rfl rfl ⟨id, fun _ => id, id⟩ trivial id elsewhere
    · exact h.moveCaller rfl rfl ⟨id, fun _ => id, id⟩
        (Caller.sees_of_not_stops push.stops_onError) id elsewhere

theorem Closing.clearQueue (h : p.Closing) : p.clearQueue.Closing := by
  obtain ⟨queue, empty, same⟩ := p.clearQueue_eq
  rw [same]
  exact ⟨fun c => (h.callers c).mono ⟨id, fun _ _ => empty, id⟩, h.workers⟩

theorem Closing.step {a : Action n m} (h : p.Closing) (moved : p.step a = some p') :
    p'.Closing := by
  have outside : ∀ {c push}, p.callers c = .locking push ∨ p.callers c = .waiting push →
      (p.callers c).stops = false := by
    rintro c push (here | here) <;> rw [here] <;> rfl
  cases move_of_step moved with
  | again => exact h
  | start stopped free =>
    refine ⟨fun c => Caller.sees_of_not_stops (free c), fun stopped => ?_⟩
    cases stopped
  | @refuseCall _ c push _ call here number =>
    exact h.moveOutside rfl rfl ⟨id, fun _ => id, id⟩ id (by rw [here]; rfl) push.stops_onError
  | enter call here number | lock here | executeTask here | abandonTask here | destroyTask here =>
    exact h.moveOutside rfl rfl ⟨id, fun _ => id, id⟩ id (by rw [here]; rfl) rfl
  | @refuse c _ push _ here =>
    exact h.moveOutside rfl rfl ⟨id, fun _ => id, id⟩ id (outside here) push.stops_onError
  | wait here => exact h.moveOutside rfl rfl (closes_setCaller ..) id (outside here) rfl
  | accept here opened pushed =>
    -- a thread that has cleared the queue has closed it before
    refine h.moveOutside rfl rfl ⟨id, fun closed => ?_, id⟩ id (outside here) rfl
    cases opened.symm.trans closed
  | @stop c stopType here =>
    refine h.moveCaller rfl rfl (closes_setCaller ..) ⟨?_, ?_, ?_⟩ id (by rw [here]; rfl)
    · cases stopType with
      | threadOnly => exact fun other => absurd rfl other
      | _ => exact fun _ later => absurd rfl later
    · intro _ last
      cases stopType <;> cases last
    · intro late
      cases stopType <;> rcases late with late | late | late <;> cases late
  | stopFirst here =>
    refine h.moveCaller rfl rfl (closes_setCaller ..) ⟨fun _ later => absurd rfl later, ?_, ?_⟩ id
      (by rw [here]; rfl)
    · intro _ last
      cases last
    · rintro (late | late | late) <;> cases late
  | close here next =>
    refine h.moveCaller rfl rfl ⟨fun _ => rfl, fun _ => id, id⟩ ⟨fun _ _ => rfl, ?_, ?_⟩ id
      (by rw [here]; rfl)
    · rintro - rfl
      rcases next with next | next <;> cases next
    · rcases next with rfl | rfl <;> rintro (late | late | late) <;> cases late
  | @drain c _ stopType push phase phase' here draining next =>
    have sees := h.callers c
    rw [here] at sees
    refine h.moveCaller rfl rfl (closes_setCaller ..) ⟨fun other _ => sees.1 other ?_, ?_, ?_⟩ id ?_
    · rcases draining with rfl | rfl <;> exact nofun
    · rintro - rfl
      rcases next with next | next | next <;> cases next
    · rcases next with rfl | rfl | rfl <;> rintro (late | late | late) <;> cases late
    · rw [here]
      rcases draining with rfl | rfl <;> rfl
  | @findStopped c _ stopType push here stopped =>
    have sees := h.callers c
    rw [here] at sees
    exact h.moveCaller rfl rfl (closes_setCaller ..)
      (StopType.sees_afterThreads (fun other => sees.1 other nofun) stopped) id
      (by rw [here]; rfl)
  | @findRunning c _ stopType push here =>
    have sees := h.callers c
    rw [here] at sees
    refine h.moveCaller rfl rfl (closes_setCaller ..)
      ⟨fun other _ => sees.1 other nofun, ?_, ?_⟩ id (by rw [here]; rfl)
    · intro _ last
      cases last
    · rintro (late | late | late) <;> cases late
  | @halt c _ stopType push here =>
    have sees := h.callers c
    rw [here] at sees
    constructor
    · refine h.sees_update ⟨id, fun _ => id, fun _ => rfl⟩
        ⟨fun other _ => sees.1 other nofun, ?_, fun _ => rfl⟩
      intro _ last
      cases last
    · intro _
      refine .inl ⟨c, ?_⟩
      dsimp only [setCaller]
      rw [update_self]
      rfl
  | @join c _ stopType push here left =>
    have sees := h.callers c
    rw [here] at sees
    constructor
    · exact h.sees_update (closes_setCaller ..) (StopType.sees_afterThreads
        (fun other => sees.1 other nofun) (sees.2.2 (.inl rfl)))
    · exact fun _ => .inr left
  | @clear c _ stopType push here =>
    have sees := h.callers c
    rw [here] at sees
    obtain ⟨queue, empty, same⟩ := p.clearQueue_eq
    have elsewhere : (p.clearQueue.callers c).joins = false := by
      rw [callers_clearQueue, here]
      rfl
    refine h.clearQueue.moveCaller rfl rfl (closes_setCaller ..) ⟨?_, ?_, ?_⟩ id elsewhere <;> rw [same]
    · exact fun other _ => sees.1 other nofun
    · exact fun _ _ => empty
    · exact fun _ => sees.2.2 (.inr (.inl rfl))
  | @clearAndLeave c _ stopType push here =>
    refine h.clearQueue.leaveStop false push ?_
    rw [callers_clearQueue, here]
    rfl
  | @check c _ stopType push here => exact h.leaveStop _ push (by rw [here]; rfl)
  | loop here | process here | record here =>
    refine h.moveWorker ?_ id
    rw [here]
    exact nofun
  | leave here | destroy here =>
    refine h.moveWorker ?_ id
    rcases here with here | here <;> rw [here] <;> exact nofun
  | pop here popped =>
    refine h.moveWorker ?_ ?_
    · rw [here]
      exact nofun
    · intro empty
      cases (toList_of_pop popped).symm.trans empty

end Closing

/-! ### Once `Stop` is over -/

section Stopped

/-- What `Stop` leaves behind, until the pool is started again. -/
structure Stopped (p : ThreadPool n m queueSize) : Prop where
  closed : p.push = false
  empty : p.queue.toList = []

theorem Stopped.clearQueue (closed : p.push = false) : p.clearQueue.Stopped := by
  obtain ⟨queue, empty, same⟩ := p.clearQueue_eq
  rw [same]
  exact ⟨closed, empty⟩

theorem Stopped.leaveStop (h : p.Stopped) (c : Fin m) (throws : Bool) (push : Option Push) :
    (p.leaveStop c throws push).Stopped := by
  obtain ⟨callers, refused, thrown, tasksOver, same⟩ := p.leaveStop_eq c throws push
  rw [same]
  exact ⟨h.closed, h.empty⟩

theorem Stopped.step (h : p.Stopped) {a : Action n m} (noStart : a ≠ .start)
    (moved : p.step a = some p') : p'.Stopped := by
  have cleared : p.clearQueue.Stopped := .clearQueue h.closed
  cases move_of_step moved with
  | again | start => exact absurd rfl noStart
  | accept here opened => cases opened.symm.trans h.closed
  | pop here popped => cases (toList_of_pop popped).symm.trans h.empty
  | close => exact ⟨rfl, h.empty⟩
  | clear => exact ⟨cleared.closed, cleared.empty⟩
  | clearAndLeave => exact cleared.leaveStop _ _ _
  | check => exact h.leaveStop _ _ _
  | refuseCall | enter | stop | stopFirst | lock | refuse | wait | abandonTask | executeTask
  | destroyTask | drain | findStopped | findRunning | halt | join | loop | leave | process | destroy
  | record => exact ⟨h.closed, h.empty⟩

theorem workers_leaveStop (p : ThreadPool n m queueSize) (c : Fin m) (throws : Bool)
    (push : Option Push) : (p.leaveStop c throws push).workers = p.workers := by
  obtain ⟨callers, refused, thrown, tasksOver, same⟩ := p.leaveStop_eq c throws push
  rw [same]

theorem workers_clearQueue (p : ThreadPool n m queueSize) : p.clearQueue.workers = p.workers := by
  obtain ⟨queue, -, same⟩ := p.clearQueue_eq
  rw [same]

/-- The threads that have returned stay away until the pool is started again. -/
theorem all_exited_of_step (left : ∀ w, p.workers w = .exited) {a : Action n m} (noStart : a ≠ .start)
    (moved : p.step a = some p') : ∀ w, p'.workers w = .exited := by
  cases move_of_step moved with
  | again | start => exact absurd rfl noStart
  | @loop w _ here | @process w _ _ _ here | @record w _ here | @pop w _ _ _ here =>
    cases here.symm.trans (left w)
  | @leave w _ here | @destroy w _ _ _ here =>
    rcases here with here | here <;> cases here.symm.trans (left w)
  | clear =>
    rw [← workers_clearQueue p] at left
    exact left
  | clearAndLeave =>
    rw [workers_leaveStop, workers_clearQueue]
    exact left
  | check =>
    rw [workers_leaveStop]
    exact left
  | refuseCall | enter | stop | stopFirst | lock | refuse | wait | accept | abandonTask | executeTask
  | destroyTask | close | drain | findStopped | findRunning | halt | join => exact left

/-- The call of `Stop` that a thread was in is over. -/
theorem stopped_of_leave (h : p.Closing) {c : Fin m} {throws : Bool} {stopType : StopType}
    {phase : StopPhase} {push : Option Push} (here : p.callers c = .stopping stopType phase push)
    (other : stopType ≠ .threadOnly) (moved : p.step (.goOn c throws) = some p')
    (left : (p'.callers c).stops = false) : p'.Stopped ∧ p'.run = false := by
  have stays : ∀ {p : ThreadPool n m queueSize} {caller}, caller.stops = true →
      ((p.setCaller c caller).callers c).stops = false → False := by
    intro p caller stops left
    dsimp only [setCaller] at left
    rw [update_self, stops] at left
    cases left
  have sees := h.callers c
  cases move_of_step moved with
  | refuseCall call | enter call => exact absurd rfl (call c throws)
  | stopFirst there | lock there | abandonTask there | executeTask there | destroyTask there =>
    cases there.symm.trans here
  | refuse there | wait there | accept there =>
    rcases there with there | there <;> cases there.symm.trans here
  | close | drain | findStopped | findRunning | halt | join | clear => exact (stays rfl left).elim
  | clearAndLeave there =>
    cases there.symm.trans here
    rw [here] at sees
    refine ⟨(Stopped.clearQueue (sees.1 other nofun)).leaveStop _ _ _, ?_⟩
    obtain ⟨callers, refused, thrown, tasksOver, same⟩ := p.clearQueue.leaveStop_eq c false push
    obtain ⟨queue, -, cleared⟩ := p.clearQueue_eq
    rw [same, cleared]
    exact sees.2.2 (.inr (.inl rfl))
  | check there =>
    cases there.symm.trans here
    rw [here] at sees
    have stopped : p.Stopped := ⟨sees.1 other nofun, sees.2.1 other rfl⟩
    refine ⟨stopped.leaveStop _ _ _, ?_⟩
    obtain ⟨callers, refused, thrown, tasksOver, same⟩ := p.leaveStop_eq c p.shallStop push
    rw [same]
    exact sees.2.2 (.inr (.inr rfl))

end Stopped

/-! ### The items of `PushTask` -/

section Tasks

/-- If a thread is about to call `process` in `PushTask`, that returns; and if it is about to look
for an exception in a `Stop` that `PushTask` led to, there is none. -/
def TaskKept (p : ThreadPool n m queueSize) : Action n m → Prop
  | .goOn c throws =>
      match p.callers c with
      | .executing _ => throws = false
      | .stopping _ .checking (some push) => push.task.isSome → p.shallStop = false
      | _ => True
  | _ => True

instance (p : ThreadPool n m queueSize) : (a : Action n m) → Decidable (p.TaskKept a)
  | .goOn c throws => by
      unfold TaskKept
      dsimp only
      split <;> infer_instance
  | .start | .pushWorkItem .. | .pushTask .. | .stop .. | .work .. => .isTrue trivial

/-- Each item that `PushTask` is done with was destroyed by it. -/
def TasksKept (p : ThreadPool n m queueSize) : Prop :=
  ∀ item, p.tasksDestroyed.count item = p.tasksOver.count item

/-- An item that `PushTask` leaves without destroying it is missed. -/
theorem not_tasksKept (kept : p.TasksKept) {item : Nat} (ends : p'.tasksOver = p.tasksOver ++ [item])
    (destroyed : p'.tasksDestroyed = p.tasksDestroyed) : ¬ p'.TasksKept := by
  intro kept'
  have before := kept item
  have after := kept' item
  rw [ends, destroyed, count_append, count_singleton_self] at after
  omega

theorem tasksKept_leaveStop (kept : p.TasksKept) (c : Fin m) (throws : Bool) (push : Option Push) :
    (p.leaveStop c throws push).TasksKept ↔
      ∀ push' ∈ push, push'.task.isSome → throws = false := by
  cases push with
  | none => exact ⟨nofun, fun _ => kept⟩
  | some push =>
    simp only [mem_some_iff, forall_eq']
    cases throws with
    | false => exact ⟨fun _ _ => rfl, fun _ => kept⟩
    | true =>
      by_cases task : push.task.isSome
      · have ends : (p.leaveStop c true (some push)).tasksOver = p.tasksOver ++ [push.item] := by
          dsimp only [leaveStop, throwUp, setCaller]
          rw [if_pos rfl, if_pos task]
        exact ⟨fun kept' => absurd kept' (not_tasksKept kept ends rfl), fun none => (nomatch none task)⟩
      · refine ⟨fun _ task' => absurd task' task, fun _ item => ?_⟩
        dsimp only [leaveStop, throwUp, setCaller]
        rw [if_pos rfl, if_neg task, append_nil]
        exact kept item

theorem tasksKept_iff {a : Action n m} (kept : p.TasksKept) (moved : p.step a = some p') :
    p'.TasksKept ↔ p.TaskKept a := by
  have cleared : p.clearQueue.TasksKept := by
    obtain ⟨queue, -, same⟩ := p.clearQueue_eq
    rw [same]
    exact kept
  cases move_of_step moved with
  | again | start | stop | loop | leave | pop | process | destroy | record =>
    exact ⟨fun _ => trivial, fun _ => kept⟩
  | refuseCall call | enter call =>
    refine ⟨fun _ => ?_, fun _ => kept⟩
    cases a with
    | goOn c throws => exact absurd rfl (call c throws)
    | _ => trivial
  | stopFirst here | lock here | close here | findStopped here | findRunning here | halt here
  | join here | executeTask here =>
    simp only [TaskKept, here]
    exact ⟨fun _ => trivial, fun _ => kept⟩
  | refuse here | wait here | accept here =>
    rcases here with here | here <;> simp only [TaskKept, here] <;>
      exact ⟨fun _ => trivial, fun _ => kept⟩
  | drain here draining =>
    rcases draining with rfl | rfl <;> simp only [TaskKept, here] <;>
      exact ⟨fun _ => trivial, fun _ => kept⟩
  | abandonTask here =>
    simp only [TaskKept, here]
    exact ⟨fun kept' => absurd kept' (not_tasksKept kept rfl rfl), nofun⟩
  | @destroyTask c _ item here =>
    simp only [TaskKept, here]
    refine ⟨fun _ => trivial, fun _ item' => ?_⟩
    dsimp only [setCaller]
    rw [count_append, count_append, kept item']
  | clear here =>
    simp only [TaskKept, here]
    exact ⟨fun _ => trivial, fun _ => cleared⟩
  | clearAndLeave here =>
    simp only [TaskKept, here]
    exact ⟨fun _ => trivial, fun _ => (tasksKept_leaveStop cleared _ _ _).mpr fun _ _ _ => rfl⟩
  | @check c _ stopType push here =>
    rw [tasksKept_leaveStop kept]
    cases push with
    | none =>
      simp only [TaskKept, here]
      exact ⟨fun _ => trivial, nofun⟩
    | some push => simp only [TaskKept, here, mem_some_iff, forall_eq']

end Tasks

/-! ### Conservation -/

section Conservation

/-- How often an item is somewhere, and how often something was done to it by a thread of the pool
or by `Stop`. -/
structure Marks where
  queued : Nat := 0
  consumed : Nat := 0
  processed : Nat := 0
  destroyed : Nat := 0
  dropped : Nat := 0
deriving DecidableEq

def marks (p : ThreadPool n m queueSize) (item : Nat) : Marks where
  queued := p.queue.toList.count item
  consumed := tally (Worker.consumes item) p.workers + tally (Worker.owesDestroy item) p.workers
  processed := p.processed.count item
  destroyed := p.destroyed.count item
  dropped := p.dropped.count item

/-- An accepted item is queued, or consumed, or processed and destroyed, or dropped. -/
theorem marks_of_accepted (items : p.Items) (calls : p.Calls) {item : Nat}
    (accepted : item ∈ p.accepted) :
    p.marks item ∈ [({ queued := 1 } : Marks), { consumed := 1 }, { consumed := 1, processed := 1 },
      { processed := 1, destroyed := 1 }, { dropped := 1 }] := by
  have once := calls.outcome item
  have placed := items.placed item
  have ended := items.ended item
  have some_time := count_pos_iff.mpr accepted
  have one : p.accepted.count item = 1 := by
    split_ifs at once <;> omega
  simp only [marks, mem_cons, Marks.mk.injEq, not_mem_nil, or_false]
  omega

/-- What was not accepted is left alone. -/
theorem marks_of_not_accepted (items : p.Items) {item : Nat} (none_time : p.accepted.count item = 0) :
    p.marks item = {} := by
  have placed := items.placed item
  have ended := items.ended item
  simp only [marks, Marks.mk.injEq]
  omega

theorem accepted_count_of_refused (calls : p.Calls) {item : Nat}
    (some_time : 0 < p.refusedItems.count item + p.thrown.count item) :
    p.accepted.count item = 0 := by
  have once := calls.outcome item
  split_ifs at once <;> omega

/-- `PushTask` has destroyed each of its items once, and nobody else has. -/
theorem destroyed_once_iff (items : p.Items) (calls : p.Calls) :
    (∀ item ∈ p.tasksOver, (p.destroyed ++ p.tasksDestroyed).count item = 1) ↔ p.TasksKept := by
  have only : ∀ item ∈ p.tasksOver, p.tasksOver.count item = 1 ∧ p.destroyed.count item = 0 := by
    intro item is_over
    have some_time := count_pos_iff.mpr is_over
    have tasks := calls.tasks item
    have once := calls.outcome item
    have none_time : p.accepted.count item = 0 := accepted_count_of_refused calls (by omega)
    have untouched := congrArg Marks.destroyed (marks_of_not_accepted items none_time)
    refine ⟨?_, untouched⟩
    split_ifs at once <;> omega
  constructor
  · intro destroyed item
    by_cases is_over : item ∈ p.tasksOver
    · have here := destroyed item is_over
      rw [count_append, (only item is_over).2] at here
      rw [(only item is_over).1]
      omega
    · have := calls.destroyed item
      rw [count_eq_zero_of_not_mem is_over] at this ⊢
      omega
  · intro kept item is_over
    rw [count_append, (only item is_over).2, kept item, (only item is_over).1]

variable (n m queueSize) in
/-- In every run the queue keeps its bound and its order, each accepted item is in one place, and
each refused one is left alone; after `Stop` no item is left in the queue. The items of `PushTask`
are destroyed once each, exactly if nothing throws in it. -/
theorem conserves_items_iff (stopIfHasException : Bool) (actions : List (Action n m)) :
    let new : ThreadPool n m queueSize := { stopIfHasException }
    (∀ p, after step new actions = some p →
      p.queue.size ≤ queueSize ∧ p.accepted = p.popped ++ p.queue.toList ∧
      (∀ item ∈ p.accepted, p.marks item ∈ [({ queued := 1 } : Marks), { consumed := 1 },
        { consumed := 1, processed := 1 }, { processed := 1, destroyed := 1 }, { dropped := 1 }]) ∧
      ∀ item ∈ p.refusedItems, p.marks item = {}) ∧
    (∀ p₀, after step new actions = some p₀ → ∀ c stopType phase push throws p₁,
      p₀.callers c = .stopping stopType phase push → stopType ≠ .threadOnly →
      p₀.step (.goOn c throws) = some p₁ → (p₁.callers c).stops = false →
      ∀ rest p, .start ∉ rest → after step p₁ rest = some p →
        p.queue.toList = [] ∧
        ((∀ c, (p₁.callers c).joins = false) → ∀ item, (p.marks item).consumed = 0)) ∧
    ((∀ pre, pre <+: actions → ∀ p, after step new pre = some p →
        ∀ item ∈ p.tasksOver, (p.destroyed ++ p.tasksDestroyed).count item = 1) ↔
      Throughout step TaskKept new actions) := by
  intro new
  have items : ∀ {actions p}, after step new actions = some p → p.Items :=
    fun run => after_inv (fun _ _ _ => Items.step) (items_new _) run
  have calls : ∀ {actions p}, after step new actions = some p → p.Calls :=
    fun run => after_inv (fun _ _ _ => Calls.step) (calls_new _) run
  refine ⟨?_, ?_, ?_⟩
  · intro p run
    refine ⟨p.queue.size_le, (items run).order, ?_, ?_⟩
    · intro item accepted
      exact marks_of_accepted (items run) (calls run) accepted
    · intro item refused
      have some_time := count_pos_iff.mpr refused
      exact marks_of_not_accepted (items run)
        (accepted_count_of_refused (calls run) (Nat.add_pos_left some_time _))
  · intro p₀ run c stopType phase push throws p₁ here other moved left rest p noStart later
    have closing : p₀.Closing := after_inv (fun _ _ _ => Closing.step) (closing_new _) run
    obtain ⟨stopped, halted⟩ := stopped_of_leave closing here other moved left
    have ne_start : ∀ a ∈ rest, a ≠ .start := fun a mem same => noStart (same ▸ mem)
    constructor
    · have stays : p.Stopped := after_inv_of_mem
        (fun _ a mem _ stopped moved => stopped.step (ne_start a mem) moved) stopped later
      exact stays.empty
    · intro alone item
      have all : ∀ w, p₁.workers w = .exited := by
        rcases (Closing.step closing moved).workers halted with ⟨c', joins⟩ | all
        · cases (alone c').symm.trans joins
        · exact all
      have all : ∀ w, p.workers w = .exited := after_inv_of_mem
        (fun _ a mem _ all moved => all_exited_of_step all (ne_start a mem) moved) all later
      have none_works : ∀ f : Worker → Nat, f .exited = 0 → tally f p.workers = 0 :=
        fun f none_ => tally_eq_zero fun w => (congrArg f (all w)).trans none_
      dsimp only [marks]
      rw [none_works _ rfl, none_works _ rfl]
  · rw [← throughout_iff (fun _ _ _ => tasksKept_iff) (fun _ => rfl)]
    constructor
    · intro all pre le p run
      exact (destroyed_once_iff (items run) (calls run)).mp (all pre le p run)
    · intro all pre le p run
      exact (destroyed_once_iff (items run) (calls run)).mpr (all pre le p run)

/-- A pool that was not started takes one item, refuses a task, and drops the item when it is
stopped. -/
theorem conserves_items_iff_refused_task :
    let new : ThreadPool 1 1 1 := { stopIfHasException := true }
    let actions : List (Action 1 1) := [.pushWorkItem 0 false false, .goOn 0 false, .goOn 0 false,
      .pushTask 0 false true, .goOn 0 false, .goOn 0 false, .goOn 0 false, .goOn 0 false,
      .stop 0 .andClearQueue, .goOn 0 false, .goOn 0 false, .goOn 0 false]
    (∃ p₀ p₁, after step new actions = some p₀ ∧ p₀.step (.goOn 0 false) = some p₁ ∧
      p₀.marks 0 ∈ [({ queued := 1 } : Marks), { consumed := 1 }, { consumed := 1, processed := 1 },
        { processed := 1, destroyed := 1 }, { dropped := 1 }] ∧
      p₀.marks 1 = {} ∧ p₁.queue.toList = []) ∧
    ∀ pre, pre <+: actions → ∀ p, after step new pre = some p →
      ∀ item ∈ p.tasksOver, (p.destroyed ++ p.tasksDestroyed).count item = 1 := by
  intro new actions
  obtain ⟨always, stopped, tasks⟩ := conserves_items_iff 1 1 1 true actions
  refine ⟨?_, tasks.mpr (by decide)⟩
  have there : (after step new actions).isSome ∧ ∀ p₀ ∈ after step new actions,
      p₀.accepted = [0] ∧ p₀.refusedItems = [1] ∧
      p₀.callers 0 = .stopping .andClearQueue .checking none ∧
      (p₀.step (.goOn 0 false)).isSome ∧
      ∀ p₁ ∈ p₀.step (.goOn 0 false), (p₁.callers 0).stops = false := by decide
  obtain ⟨p₀, run⟩ := isSome_iff_exists.mp there.1
  obtain ⟨accepted, refused, here, moves, left⟩ := there.2 p₀ run
  obtain ⟨p₁, moved⟩ := isSome_iff_exists.mp moves
  obtain ⟨-, -, fate, untouched⟩ := always p₀ run
  refine ⟨p₀, p₁, run, moved, ?_, ?_, ?_⟩
  · exact fate 0 (by rw [accepted]; exact mem_singleton_self 0)
  · exact untouched 1 (by rw [refused]; exact mem_singleton_self 1)
  · exact (stopped p₀ run 0 .andClearQueue .checking none false p₁ here nofun
      moved (left p₁ moved) [] p₁ not_mem_nil rfl).1

/-- `PushTask` does not destroy its item: its `process` throws when the queue is full, or there was
an exception in a pool that is to stop then. -/
theorem task_leaks :
    let full : List (Action 1 1) := [.pushWorkItem 0 false false, .goOn 0 false, .goOn 0 false,
      .pushTask 0 false true, .goOn 0 false, .goOn 0 false, .goOn 0 true]
    let failed : List (Action 1 1) := [.start, .pushWorkItem 0 false true, .goOn 0 false,
      .goOn 0 false, .work 0 false, .work 0 false, .work 0 true, .work 0 false, .work 0 false,
      .pushTask 0 true false, .goOn 0 false, .goOn 0 false, .goOn 0 false, .goOn 0 false,
      .work 0 false, .goOn 0 false, .goOn 0 false, .goOn 0 false]
    (∃ p ∈ after step ({ stopIfHasException := false } : ThreadPool 1 1 1) full,
      p.refused = [(1, .poolQueueFull)] ∧ p.tasksOver = [1] ∧ p.tasksDestroyed = [] ∧
        p.destroyed = []) ∧
    ∃ p ∈ after step ({ stopIfHasException := true } : ThreadPool 1 1 1) failed,
      p.thrown = [1] ∧ p.tasksOver = [1] ∧ p.tasksDestroyed = [] ∧ p.destroyed = [0] := by
  decide

end Conservation

end ThreadPool

end AgentEngine.Util
