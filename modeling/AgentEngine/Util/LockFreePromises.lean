import AgentEngine.Util.LockFreeWakeups

/-!
What `LockFreeThreadPool` keeps of the promises of `ThreadPoolBase`: at most `queue_size_` items
wait, and `Stop` lets the queue run empty.

It tests `cur_queue_size_ > queue_size_`, so that a test that meets just `queue_size_` items lets one
too many in (`Bounded`). `Stop` does not look at its argument: a worker that it wakes up leaves
without taking an item, and what is processed after `run_` was cleared is just what workers had set
out to take (`Since`). A second `Stop` does not wait for them.
-/

namespace AgentEngine.Util

open Lib List Function Nat

namespace LockFreeThreadPool

variable {n m : Nat}

/-! ### The bound of the queue -/

section Conditions

variable {Q : Type} [WorkItemQueue Q] (p : LockFreeThreadPool n m Q)

/-- Pushes do not block and do not overlap. -/
def Quiet : Action n m → Prop
  | .call _ isBlocked => isBlocked = false ∧ ∀ c, p.callers c = .idle
  | _ => True

instance : (a : Action n m) → Decidable (p.Quiet a)
  | .call _ isBlocked => inferInstanceAs (Decidable (isBlocked = false ∧ ∀ c, p.callers c = .idle))
  | .push _ | .work _ | .stop | .stopAgain => .isTrue trivial

def Caller.tests : Caller → Bool
  | .testing .. => true
  | _ => false

/-- No push makes its test while `cur_queue_size_` is just `queue_size_`. -/
def TestsClear : Action n m → Prop
  | .push c => (p.callers c).tests = true → p.curQueueSize ≠ p.queueSize
  | _ => True

instance : (a : Action n m) → Decidable (p.TestsClear a)
  | .push c => inferInstanceAs (Decidable ((p.callers c).tests = true → p.curQueueSize ≠ p.queueSize))
  | .call .. | .work _ | .stop | .stopAgain => .isTrue trivial

end Conditions

variable {p p' : LockFreeThreadPool n m}

section Bound

@[simp] def Worker.owesDecrement : Worker → Nat
  | .taken _ => 1
  | _ => 0

@[simp] def Caller.owesInsertion : Caller → Nat
  | .counted _ => 1
  | _ => 0

/-- The bound that the test of `cur_queue_size_` gives if pushes do not overlap and it lets none in
at `queue_size_ + extra`. -/
structure Bounded (extra : Nat) (p : LockFreeThreadPool n m) : Prop where
  size : p.curQueueSize = p.queue.length + tally Worker.owesDecrement p.workers +
    tally Caller.owesInsertion p.callers
  alone : ∀ c c', p.callers c ≠ .idle → p.callers c' ≠ .idle → c = c'
  admitted : ∀ c item, p.callers c = .admitted item → p.curQueueSize < p.queueSize + extra
  counted : ∀ c item, p.callers c = .counted item → p.curQueueSize ≤ p.queueSize + extra
  length : p.queue.length ≤ p.queueSize + extra

variable {extra : Nat}

theorem bounded_start (queueSize : Nat) :
    Bounded extra ({ queueSize } : LockFreeThreadPool n m) := by
  constructor
  · rw [tally_idle_callers rfl, tally_idle_workers rfl]
    rfl
  · intro c c' busy
    exact absurd rfl busy
  · intro c item admitted
    cases admitted
  · intro c item counted
    cases counted
  · exact zero_le _

/-- The only push goes on. -/
theorem Bounded.moveCaller (h : p.Bounded extra) {c : Fin m} (others : ∀ c' ≠ c, p.callers c' = .idle)
    (caller : Caller) {curQueueSize notifyIndex calls : Nat} {count : Nat → Nat}
    {queue accepted : List Nat}
    (size : curQueueSize + p.queue.length + (p.callers c).owesInsertion =
      p.curQueueSize + queue.length + caller.owesInsertion)
    (admitted : ∀ item, caller = .admitted item → curQueueSize < p.queueSize + extra)
    (counted : ∀ item, caller = .counted item → curQueueSize ≤ p.queueSize + extra)
    (length : queue.length ≤ p.queueSize + extra) :
    Bounded extra ({ p with
      curQueueSize
      notifyIndex
      calls
      count
      queue
      accepted }.setCaller c caller) := by
  have insertions := tally_update Caller.owesInsertion p.callers c caller
  have only : ∀ c', update p.callers c caller c' ≠ .idle → c' = c := by
    intro c' busy
    by_contra other
    rw [update_of_ne other] at busy
    exact busy (others c' other)
  constructor
  · have := h.size
    dsimp only [setCaller]
    omega
  · intro c₁ c₂ busy₁ busy₂
    exact (only c₁ busy₁).trans (only c₂ busy₂).symm
  · intro c' item here
    obtain rfl := only c' (fun idle => (nomatch here.symm.trans idle))
    exact admitted item ((update_self ..).symm.trans here)
  · intro c' item here
    obtain rfl := only c' (fun idle => (nomatch here.symm.trans idle))
    exact counted item ((update_self ..).symm.trans here)
  · exact length

/-- A worker goes on; the counter does not grow. -/
theorem Bounded.moveWorker (h : p.Bounded extra) {w : Fin n} (worker : Worker)
    {curQueueSize waitIndex : Nat} {count : Nat → Nat} {queue processed : List Nat}
    (size : curQueueSize + p.queue.length + (p.workers w).owesDecrement =
      p.curQueueSize + queue.length + worker.owesDecrement)
    (smaller : curQueueSize ≤ p.curQueueSize) (shorter : queue.length ≤ p.queue.length) :
    Bounded extra ({ p with curQueueSize, waitIndex, count, queue, processed }.setWorker w worker) := by
  have decrements := tally_update Worker.owesDecrement p.workers w worker
  constructor
  · have := h.size
    dsimp only [setWorker]
    omega
  · exact h.alone
  · intro c item here
    exact smaller.trans_lt (h.admitted c item here)
  · intro c item here
    exact smaller.trans (h.counted c item here)
  · exact shorter.trans h.length

theorem Bounded.step {a : Action n m} (h : p.Bounded extra) (quiet : p.Quiet a)
    (test : ∀ c, a = .push c → (p.callers c).tests = true → p.curQueueSize ≤ p.queueSize →
      p.curQueueSize < p.queueSize + extra) (moved : p.step a = some p') : p'.Bounded extra := by
  have others : ∀ {c caller}, p.callers c = caller → caller ≠ .idle →
      ∀ c' ≠ c, p.callers c' = .idle := by
    intro c caller here busy c' other
    by_contra busy'
    exact other (h.alone c' c busy' (here ▸ busy))
  cases move_of_step moved with
  | returnAtOnce => exact h
  | refuse here stopped | clearRun | signalSlot | join =>
    exact { h with }
  | enter here running =>
    apply h.moveCaller (fun c' _ => quiet.2 c')
    · simp [here]
    · intro item same
      cases same
    · intro item same
      cases same
    · exact h.length
  | giveUp here full | drawNotify here =>
    apply h.moveCaller (others here nofun)
    · simp [here]
    · intro item same
      cases same
    · intro item same
      cases same
    · exact h.length
  | letIn here room =>
    apply h.moveCaller (others here nofun)
    · simp [here]
    · intro item _
      exact test _ rfl (by rw [here]; rfl) room
    · intro item same
      cases same
    · exact h.length
  | increment here =>
    apply h.moveCaller (others here nofun)
    · simp [here]
      omega
    · intro item same
      cases same
    · intro item _
      exact h.admitted _ _ here
    · exact h.length
  | @insert c item here =>
    -- the counter includes this item already
    have size := h.size
    have this_one := le_tally Caller.owesInsertion p.callers c
    rw [here, Caller.owesInsertion] at this_one
    have bound := h.counted c item here
    apply h.moveCaller (others here nofun)
    · simp [here]
      omega
    · intro item same
      cases same
    · intro item same
      cases same
    · rw [length_append, length_singleton]
      omega
  | signal here =>
    apply h.moveCaller (others here nofun)
    · simp [here, signalCounted]
    · intro item same
      cases same
    · intro item same
      cases same
    · exact h.length
  | drawWait here | release here | goOn here | leave here | process here =>
    apply h.moveWorker
    · simp [here]
    · exact le_rfl
    · exact le_rfl
  | pop here front =>
    apply h.moveWorker
    · simp [here, front]
      omega
    · exact le_rfl
    · rw [front]
      exact le_succ _
  | @decrement w item here =>
    have size := h.size
    have this_one := le_tally Worker.owesDecrement p.workers w
    rw [here, Worker.owesDecrement] at this_one
    apply h.moveWorker
    · simp [here]
      omega
    · exact sub_le _ _
    · exact le_rfl

variable {queueSize : Nat} {actions : List (Action n m)}

theorem length_le_of_quiet (run : after step { queueSize } actions = some p)
    (quiet : Throughout step Quiet ({ queueSize } : LockFreeThreadPool n m) actions) :
    p.queue.length ≤ p.queueSize + 1 := by
  have keeps : ∀ (p : LockFreeThreadPool n m) a p', p.Bounded 1 → p.Quiet a →
      p.step a = some p' → p'.Bounded 1 :=
    fun _ _ _ h quiet => h.step quiet fun _ _ _ => lt_succ_of_le
  exact (quiet.inv keeps (bounded_start queueSize) run).length

/-- A test that meets fewer than `queue_size_` items, or more, keeps the bound. -/
theorem length_le_of_testsClear (run : after step { queueSize } actions = some p)
    (quiet : Throughout step Quiet ({ queueSize } : LockFreeThreadPool n m) actions)
    (clear : Throughout step TestsClear ({ queueSize } : LockFreeThreadPool n m) actions) :
    p.queue.length ≤ p.queueSize := by
  have keeps : ∀ (p : LockFreeThreadPool n m) a p', p.Bounded 0 → p.Quiet a ∧ p.TestsClear a →
      p.step a = some p' → p'.Bounded 0 := by
    rintro p a p' h ⟨quiet, clear⟩
    refine h.step quiet ?_
    rintro c rfl tests room
    exact lt_of_le_of_ne room (clear tests)
  exact ((quiet.and clear).inv keeps (bounded_start queueSize) run).length

end Bound

/-! ### Where items are -/

section Items

@[simp] def Worker.holds (item : Nat) : Worker → Nat
  | .taken held | .consuming held => if held = item then 1 else 0
  | _ => 0

/-- An item that is on its way into the queue. -/
@[simp] def Caller.brings (item : Nat) : Caller → Nat
  | .testing brought _ | .admitted brought | .counted brought => if brought = item then 1 else 0
  | _ => 0

/-- How often an item is in the pool: it waits, a worker has it, or it was processed. -/
def inPool (p : LockFreeThreadPool n m) (item : Nat) : Nat :=
  p.queue.count item + tally (Worker.holds item) p.workers + p.processed.count item

/-- Every item is at one place. -/
structure Placed (p : LockFreeThreadPool n m) : Prop where
  once : ∀ item, p.inPool item + tally (Caller.brings item) p.callers ≤ 1
  known : ∀ item, p.calls ≤ item → p.inPool item + tally (Caller.brings item) p.callers = 0
  inserted : ∀ c item, p.callers c = .inserted item → p.inPool item = 1
  ticketed : ∀ c item ticket, p.callers c = .ticketed item ticket → p.inPool item = 1
  accepted : ∀ item ∈ p.accepted, p.inPool item = 1

theorem placed_start (queueSize : Nat) :
    Placed ({ queueSize } : LockFreeThreadPool n m) := by
  have nowhere : ∀ item, inPool ({ queueSize } : LockFreeThreadPool n m) item = 0 := by
    intro item
    rw [inPool, tally_idle_workers rfl]
    rfl
  constructor
  · intro item
    rw [nowhere, tally_idle_callers rfl]
    exact zero_le 1
  · intro item _
    rw [nowhere, tally_idle_callers rfl]
  · intro c item here
    cases here
  · intro c item ticket here
    cases here
  · intro item mem
    cases mem

/-- Items get into the pool and do not leave it. -/
theorem Placed.move (h : p.Placed)
    (total : ∀ item, p'.inPool item + tally (Caller.brings item) p'.callers ≤
      p.inPool item + tally (Caller.brings item) p.callers)
    (stays : ∀ item, p.inPool item ≤ p'.inPool item) (calls : p'.calls = p.calls)
    (owes : ∀ c item, (p'.callers c = .inserted item ∨ ∃ ticket, p'.callers c = .ticketed item ticket) →
      p.callers c = .inserted item ∨ (∃ ticket, p.callers c = .ticketed item ticket) ∨
        0 < p'.inPool item)
    (accepted : ∀ item ∈ p'.accepted, item ∈ p.accepted ∨ 0 < p.inPool item) : p'.Placed := by
  have one : ∀ item, 0 < p'.inPool item → p'.inPool item = 1 := by
    intro item pos
    have := h.once item
    have := total item
    omega
  have kept : ∀ item, p.inPool item = 1 → p'.inPool item = 1 := by
    intro item here
    have := stays item
    exact one item (by omega)
  have owed : ∀ c item, (p'.callers c = .inserted item ∨ ∃ ticket, p'.callers c = .ticketed item ticket) →
      p'.inPool item = 1 := by
    intro c item owing
    rcases owes c item owing with inserted | ⟨ticket, ticketed⟩ | pos
    · exact kept item (h.inserted c item inserted)
    · exact kept item (h.ticketed c item ticket ticketed)
    · exact one item pos
  constructor
  · intro item
    exact (total item).trans (h.once item)
  · intro item unknown
    rw [calls] at unknown
    exact le_zero.mp ((total item).trans (le_of_eq (h.known item unknown)))
  · intro c item here
    exact owed c item (.inl here)
  · intro c item ticket here
    exact owed c item (.inr ⟨ticket, here⟩)
  · intro item mem
    rcases accepted item mem with before | pos
    · exact kept item (h.accepted item before)
    · exact one item (pos.trans_le (stays item))

variable {count : Nat → Nat}

/-- A push goes on. -/
theorem Placed.moveCaller (h : p.Placed) {c : Fin m} (caller : Caller)
    {curQueueSize notifyIndex : Nat} {queue accepted : List Nat}
    (total : ∀ item, queue.count item + caller.brings item ≤
      p.queue.count item + (p.callers c).brings item)
    (stays : ∀ item, p.queue.count item ≤ queue.count item)
    (owes : ∀ item, (caller = .inserted item ∨ ∃ ticket, caller = .ticketed item ticket) →
      p.callers c = .inserted item ∨ 0 < queue.count item)
    (accept : ∀ item ∈ accepted, item ∈ p.accepted ∨ ∃ ticket, p.callers c = .ticketed item ticket) :
    Placed ({ p with curQueueSize, notifyIndex, count, queue, accepted }.setCaller c caller) := by
  apply h.move
  · intro item
    have := tally_update (Caller.brings item) p.callers c caller
    have := total item
    dsimp only [setCaller, inPool]
    omega
  · intro item
    have := stays item
    dsimp only [setCaller, inPool]
    omega
  · rfl
  · intro c' item here
    dsimp only [setCaller, inPool] at here ⊢
    by_cases same : c' = c
    · subst same
      rw [update_self] at here
      rcases owes item here with before | pos
      · exact .inl before
      · exact .inr (.inr (by omega))
    · rw [update_of_ne same] at here
      rcases here with inserted | ticketed
      · exact .inl inserted
      · exact .inr (.inl ticketed)
  · intro item mem
    rcases accept item mem with before | ⟨ticket, ticketed⟩
    · exact .inl before
    · exact .inr (lt_of_lt_of_eq one_pos (h.ticketed c item ticket ticketed).symm)

variable {curQueueSize waitIndex : Nat} {queue processed : List Nat}

/-- A worker goes on. -/
theorem Placed.moveWorker (h : p.Placed) {w : Fin n} (worker : Worker)
    (same : ∀ item, queue.count item + worker.holds item + processed.count item =
      p.queue.count item + (p.workers w).holds item + p.processed.count item) :
    Placed ({ p with curQueueSize, waitIndex, count, queue, processed }.setWorker w worker) := by
  have all : ∀ item, inPool ({ p with
      curQueueSize
      waitIndex
      count
      queue
      processed }.setWorker w worker) item = p.inPool item := by
    intro item
    have := tally_update (Worker.holds item) p.workers w worker
    have := same item
    dsimp only [setWorker, inPool]
    omega
  apply h.move
  · intro item
    rw [all]
    exact le_rfl
  · intro item
    exact le_of_eq (all item).symm
  · rfl
  · intro c item here
    rcases here with inserted | ticketed
    · exact .inl inserted
    · exact .inr (.inl ticketed)
  · intro item mem
    exact .inl mem

variable {a : Action n m}

theorem Placed.step (h : p.Placed) (moved : p.step a = some p') : p'.Placed := by
  cases move_of_step moved with
  | refuse here stopped =>
    refine ⟨h.once, ?_, h.inserted, h.ticketed, h.accepted⟩
    intro item unknown
    exact h.known item (le_of_succ_le unknown)
  | @enter c isBlocked here running =>
    -- the new item is nowhere yet
    have brings := fun item => tally_update (Caller.brings item) p.callers c (.testing p.calls isBlocked)
    simp only [here, Caller.brings] at brings
    refine ⟨?_, ?_, ?_, ?_, h.accepted⟩
    · intro item
      have := h.once item
      have new := brings item
      change p.inPool item + tally _ (update p.callers c _) ≤ 1
      split_ifs at new with fresh
      · have := h.known item (le_of_eq fresh)
        omega
      · omega
    · intro item unknown
      have new := brings item
      have := h.known item (le_of_succ_le unknown)
      change p.inPool item + tally _ (update p.callers c _) = 0
      rw [if_neg (ne_of_lt unknown)] at new
      omega
    · intro c' item inserted
      change update p.callers c _ c' = _ at inserted
      by_cases same : c' = c
      · rw [same, update_self] at inserted
        cases inserted
      · rw [update_of_ne same] at inserted
        exact h.inserted c' item inserted
    · intro c' item ticket ticketed
      change update p.callers c _ c' = _ at ticketed
      by_cases same : c' = c
      · rw [same, update_self] at ticketed
        cases ticketed
      · rw [update_of_ne same] at ticketed
        exact h.ticketed c' item ticket ticketed
  | giveUp here full | letIn here room | increment here | drawNotify here =>
    apply h.moveCaller <;> simp [here]
  | insert here => apply h.moveCaller <;> simp [here, count_append, count_singleton]
  | signal here =>
    apply h.moveCaller
    · simp [here, signalCounted]
    · simp [signalCounted]
    · simp
    · intro item mem
      rcases mem_append.mp mem with before | new
      · exact .inl before
      · rw [mem_singleton.mp new]
        exact .inr ⟨_, here⟩
  | drawWait here | release here | goOn here | leave here | decrement here =>
    apply h.moveWorker
    simp [here]
  | pop here front =>
    apply h.moveWorker
    intro item
    simp only [here, front, Worker.holds, count_cons, beq_iff_eq]
    omega
  | process here =>
    apply h.moveWorker
    intro item
    simp only [here, Worker.holds, count_append, count_singleton, beq_iff_eq]
    omega
  | clearRun | signalSlot | join | returnAtOnce =>
    exact { h with }

end Items

/-! ### After `Stop` has cleared `run_` -/

section Since

/-- What has happened since `run_` was cleared in `p₀`: the workers that were set to take an item
have taken the first ones, in turn, and nothing else was taken. -/
structure Since (p₀ p : LockFreeThreadPool n m) (popped : Nat) : Prop where
  stopped : p.run = false
  polling : popped + tally Worker.polls p.workers = tally Worker.polls p₀.workers
  queue : ∃ new, p.queue = p₀.queue.drop popped ++ new
  items : ∀ item, tally (Worker.holds item) p.workers + p.processed.count item =
    tally (Worker.holds item) p₀.workers + p₀.processed.count item + (p₀.queue.take popped).count item

variable {p₀ : LockFreeThreadPool n m} {popped : Nat}

theorem since_start (p₀ : LockFreeThreadPool n m) (stop : StopPhase) :
    Since p₀ { p₀ with run := false, stop } 0 := by
  refine ⟨rfl, zero_add _, ⟨[], ?_⟩, ?_⟩
  · exact (append_nil _).symm
  · intro item
    rw [take_zero, count_nil]
    rfl

/-- A worker goes on without taking an item. -/
theorem Since.moveWorker (h : Since p₀ p popped) {w : Fin n} (worker : Worker)
    {curQueueSize waitIndex : Nat} {count : Nat → Nat} {processed : List Nat}
    (polls : worker.polls = (p.workers w).polls)
    (items : ∀ item, worker.holds item + processed.count item =
      (p.workers w).holds item + p.processed.count item) :
    Since p₀ ({ p with curQueueSize, waitIndex, count, processed }.setWorker w worker) popped := by
  have polling := tally_update Worker.polls p.workers w worker
  refine ⟨h.stopped, ?_, h.queue, ?_⟩
  · have := h.polling
    dsimp only [setWorker]
    omega
  · intro item
    have := tally_update (Worker.holds item) p.workers w worker
    have := items item
    have := h.items item
    dsimp only [setWorker]
    omega

theorem Since.step (enough : tally Worker.polls p₀.workers ≤ p₀.queue.length) {a : Action n m}
    (h : Since p₀ p popped) (moved : p.step a = some p') : ∃ popped, Since p₀ p' popped := by
  cases move_of_step moved with
  | refuse | giveUp | letIn | increment | drawNotify | signal | signalSlot | join | returnAtOnce =>
    exact ⟨popped, h.stopped, h.polling, h.queue, h.items⟩
  | enter here running | goOn here running => cases h.stopped.symm.trans running
  | @insert c item here =>
    obtain ⟨new, queue⟩ := h.queue
    refine ⟨popped, h.stopped, h.polling, ⟨new ++ [item], ?_⟩, h.items⟩
    rw [← append_assoc, ← queue]
    rfl
  | drawWait here | release here | leave here | decrement here =>
    refine ⟨popped, h.moveWorker _ ?_ ?_⟩ <;> simp [here]
  | @pop w item rest here front =>
    -- the item is the next one of those that waited when `run_` was cleared
    obtain ⟨new, queue⟩ := h.queue
    have polling := tally_update Worker.polls p.workers w (.taken item)
    have this_one := le_tally Worker.polls p.workers w
    have before := h.polling
    rw [here] at polling this_one
    simp only [Worker.polls] at polling this_one
    have lt : popped < p₀.queue.length := by omega
    rw [drop_eq_getElem_cons lt, front] at queue
    obtain ⟨rfl, rest_eq⟩ := cons.inj queue
    refine ⟨popped + 1, h.stopped, ?_, ⟨new, rest_eq⟩, ?_⟩
    · dsimp only [setWorker]
      omega
    · intro item
      have holds := tally_update (Worker.holds item) p.workers w (.taken p₀.queue[popped])
      have same := h.items item
      rw [here] at holds
      simp only [Worker.holds] at holds
      rw [take_add_one, getElem?_eq_getElem lt, Option.toList_some, count_append, count_singleton]
      simp only [beq_iff_eq]
      dsimp only [setWorker]
      omega
  | process here =>
    refine ⟨popped, h.moveWorker _ ?_ ?_⟩
    · simp [here]
    · intro item
      simp only [here, Worker.holds, count_append, count_singleton, beq_iff_eq]
      omega
  | clearRun here => exact ⟨popped, rfl, h.polling, h.queue, h.items⟩

/-- An item that was accepted before `Stop` is processed once, unless it waits behind those that
workers were set to take. -/
theorem Since.processed_iff (h : Since p₀ p popped) (placed : p₀.Placed)
    (left : ∀ w, p.workers w = .exited) {item : Nat} (accepted : item ∈ p₀.accepted) :
    p.processed.count item = 1 ↔ item ∉ p₀.queue.drop (tally Worker.polls p₀.workers) := by
  have nobody : tally Worker.polls p.workers = 0 ∧ tally (Worker.holds item) p.workers = 0 := by
    constructor
    · apply tally_eq_zero
      intro w
      rw [left w]
      rfl
    · apply tally_eq_zero
      intro w
      rw [left w]
      rfl
  have all : popped = tally Worker.polls p₀.workers := by
    have := h.polling
    omega
  have items := h.items item
  have somewhere := placed.accepted item accepted
  have parts : p₀.queue.count item =
      (p₀.queue.take popped).count item + (p₀.queue.drop popped).count item := by
    rw [← count_append, take_append_drop]
  rw [inPool] at somewhere
  rw [← all, ← count_eq_zero]
  omega

/-- Once `Stop` has returned, every worker has left. -/
theorem left_of_returned {a : Action n m} (h : p.stop = .returned → ∀ w, p.workers w = .exited) (moved : p.step a = some p')
    (returned : p'.stop = .returned) : ∀ w, p'.workers w = .exited := by
  cases move_of_step moved with
  | refuse | enter | giveUp | letIn | increment | insert | drawNotify | signal | returnAtOnce =>
    exact h returned
  | @drawWait w here | @release w _ here | @goOn w here | @leave w here | @pop w _ _ here
  | @decrement w _ here | @process w _ here =>
    have left := h returned w
    cases here.symm.trans left
  | clearRun | signalSlot => cases returned
  | join here all left => exact left

theorem Since.run (enough : tally Worker.polls p₀.workers ≤ p₀.queue.length)
    {actions : List (Action n m)} (h : Since p₀ p popped)
    (run : after LockFreeThreadPool.step p actions = some p') :
    ∃ popped, Since p₀ p' popped := by
  have keeps : ∀ p a p', (∃ popped, Since p₀ p popped) → LockFreeThreadPool.step p a = some p' →
      ∃ popped, Since p₀ p' popped := fun _ _ _ ⟨_, since⟩ moved => since.step enough moved
  have ends := after_inv keeps ⟨popped, h⟩ run
  exact ends

/-- The call of `Stop` that clears `run_` in `p₀`. -/
theorem processed_iff_of_stop (pos : 0 < n) {queueSize : Nat} {before rest : List (Action n m)}
    (reached : after step { queueSize } before = some p₀) (notCalled : p₀.stop = .notCalled)
    (run : after step p₀ (.stop :: rest) = some p) (returned : p.stop = .returned) {item : Nat}
    (accepted : item ∈ p₀.accepted) :
    p.processed.count item = 1 ↔ item ∉ p₀.queue.drop (tally Worker.polls p₀.workers) := by
  have counted : p₀.Counted := after_inv (fun _ _ _ => Counted.step pos) (counted_start queueSize) reached
  have placed : p₀.Placed := after_inv (fun _ _ _ => Placed.step) (placed_start queueSize) reached
  have enough := counted.polling
  have left : ∀ w, p.workers w = .exited := by
    refine after_inv (fun _ _ _ => left_of_returned) ?_ run returned
    intro already
    cases notCalled.symm.trans already
  obtain ⟨p₁, cleared, run⟩ := after_cons.mp run
  simp only [step, doStop, notCalled, Option.some.injEq] at cleared
  subst cleared
  obtain ⟨popped, since⟩ := (since_start p₀ (.signalling 0)).run (by omega) run
  exact since.processed_iff placed left accepted

/-- Any other call returns where it was made. -/
theorem processed_iff_of_stopAgain (placed : p₀.Placed) (again : p₀.step .stopAgain = some p)
    {item : Nat} (accepted : item ∈ p₀.accepted) :
    p.processed.count item = 1 ↔ item ∉ p₀.queue ∧ ∀ w, (p₀.workers w).holds item = 0 := by
  have somewhere := placed.accepted item accepted
  have same : p = p₀ := by
    cases move_of_step again
    rfl
  rw [inPool] at somewhere
  rw [same]
  constructor
  · intro processed
    refine ⟨count_eq_zero.mp (by omega), fun w => ?_⟩
    have := le_tally (Worker.holds item) p₀.workers w
    omega
  · rintro ⟨absent, nobody⟩
    rw [count_eq_zero.mpr absent, tally_eq_zero nobody] at somewhere
    omega

end Since

/-! ### Both promises -/

variable {Q : Type} [WorkItemQueue Q] [FifoQueue Q]

theorem listed_after {queueSize : Nat} {actions : List (Action n m)} {p : LockFreeThreadPool n m Q}
    (run : after step { queueSize } actions = some p) :
    after step { queueSize } actions = some p.listed := by
  have start : listed ({ queueSize } : LockFreeThreadPool n m Q) = { queueSize } := by
    rw [listed, FifoQueue.items_empty]
    rfl
  rw [← start, ← after_map listed_step, run]
  rfl

/-- For every queue that hands out its items in turn. If pushes neither block nor overlap, then one
item more than `queue_size_` may wait, and no more than `queue_size_` do if no push makes its test
while `cur_queue_size_` is just that. The items that were accepted before the `Stop` that clears
`run_` are each processed once exactly if none of them waits behind those that workers are set to
take at that moment; and when a further `Stop` returns, exactly if none of them waits or is with a
worker. -/
theorem keeps_promises (pos : 0 < n) (queueSize : Nat) :
    (∀ (actions : List (Action n m)) (p : LockFreeThreadPool n m Q),
      after step { queueSize } actions = some p →
      Throughout step Quiet ({ queueSize } : LockFreeThreadPool n m Q) actions →
      (FifoQueue.items p.queue).length ≤ p.queueSize + 1 ∧
      (Throughout step TestsClear ({ queueSize } : LockFreeThreadPool n m Q) actions →
        (FifoQueue.items p.queue).length ≤ p.queueSize)) ∧
    (∀ (before rest : List (Action n m)) (p₀ p : LockFreeThreadPool n m Q),
      after step { queueSize } before = some p₀ → p₀.stop = .notCalled →
      after step p₀ (.stop :: rest) = some p → p.stop = .returned →
      ((∀ item ∈ p₀.accepted, p.processed.count item = 1) ↔ ∀ item ∈ p₀.accepted,
        item ∉ (FifoQueue.items p₀.queue).drop (tally Worker.polls p₀.workers))) ∧
    (∀ (before : List (Action n m)) (p₀ p : LockFreeThreadPool n m Q),
      after step { queueSize } before = some p₀ → p₀.step .stopAgain = some p →
      ((∀ item ∈ p₀.accepted, p.processed.count item = 1) ↔ ∀ item ∈ p₀.accepted,
        item ∉ FifoQueue.items p₀.queue ∧ ∀ w, (p₀.workers w).holds item = 0)) := by
  have nothing : after step ({ queueSize } : LockFreeThreadPool n m Q) [] = some { queueSize } := rfl
  have start : listed ({ queueSize } : LockFreeThreadPool n m Q) = { queueSize } :=
    (Option.some.inj (listed_after nothing)).symm
  refine ⟨?_, ?_, ?_⟩
  · intro actions p run quiet
    have quiet := quiet.map listed_step (Q := Quiet) fun _ a quiet => by cases a <;> exact quiet
    rw [start] at quiet
    refine ⟨length_le_of_quiet (listed_after run) quiet, fun clear => ?_⟩
    have clear := clear.map listed_step (Q := TestsClear) fun _ a clear => by cases a <;> exact clear
    rw [start] at clear
    exact length_le_of_testsClear (listed_after run) quiet clear
  · intro before rest p₀ p reached notCalled run returned
    have run : after step p₀.listed (.stop :: rest) = some p.listed := by
      rw [← after_map listed_step, run]
      rfl
    refine forall₂_congr fun item accepted => ?_
    exact processed_iff_of_stop pos (listed_after reached) notCalled run returned accepted
  · intro before p₀ p reached again
    have placed : p₀.listed.Placed :=
      after_inv (fun _ _ _ => Placed.step) (placed_start queueSize) (listed_after reached)
    have again : p₀.listed.step .stopAgain = some p.listed := by
      rw [← listed_step, again]
      rfl
    refine forall₂_congr fun item accepted => ?_
    exact processed_iff_of_stopAgain placed again accepted

instance : FifoQueue (List Nat) where
  items := id
  items_empty := rfl
  items_push _ _ := rfl
  items_pop queue := by cases queue <;> rfl

/-- One worker takes an item and processes it before `Stop` comes, and comes again. -/
theorem keeps_promises_processed_in_time :
    let accept : List (Action 1 1) := [.call 0 false, .push 0, .push 0, .push 0, .push 0, .push 0]
    let handle := accept ++ replicate 6 (.work 0)
    let leave := [.stop, .work 0, .work 0, .work 0, .stop]
    ∃ p₀ p, after step ({ queueSize := 1 } : LockFreeThreadPool 1 1) handle = some p₀ ∧
      p₀.queue.length ≤ p₀.queueSize ∧ after step p₀ (.stop :: leave) = some p ∧
      p₀.accepted = [0] ∧ (∀ item ∈ p₀.accepted, p.processed.count item = 1) ∧
      p.step .stopAgain = some p ∧ ∀ item ∈ p.accepted, p.processed.count item = 1 := by
  intro accept handle leave
  have promises := keeps_promises (Q := List Nat) (n := 1) (m := 1) (by decide) 1
  obtain ⟨p₀, reached⟩ := Option.isSome_iff_exists.mp
    (by decide : (after step ({ queueSize := 1 } : LockFreeThreadPool 1 1) handle).isSome)
  have before : ∀ p₀ ∈ after step ({ queueSize := 1 } : LockFreeThreadPool 1 1) handle,
      p₀.stop = .notCalled ∧ p₀.queue = [] ∧ p₀.accepted = [0] ∧
        (after step p₀ (.stop :: leave)).isSome ∧ ∀ p ∈ after step p₀ (.stop :: leave),
          p.stop = .returned ∧ p.run = false ∧ p.queue = [] ∧ p.workers 0 = .exited := by decide
  obtain ⟨notCalled, empty, accepted, some_end, atEnd⟩ := before p₀ reached
  obtain ⟨p, run⟩ := Option.isSome_iff_exists.mp some_end
  obtain ⟨returned, stopped, nothing, left⟩ := atEnd p run
  have again : p.step .stopAgain = some p := by simp [step, stopAgain, stopped]
  have whole := after_append.mpr ⟨p₀, reached, run⟩
  refine ⟨p₀, p, reached, ((promises.1 handle p₀ reached (by decide)).2 (by decide)), run, accepted,
    (promises.2.1 handle leave p₀ p reached notCalled run returned).mpr ?_, again,
    (promises.2.2 _ p p whole again).mpr ?_⟩
  · intro item _
    rw [empty]
    simp [FifoQueue.items]
  · intro item _
    rw [nothing]
    refine ⟨not_mem_nil, fun w => ?_⟩
    rw [Fin.fin_one_eq_zero w, left]
    rfl

/-- One worker and room for one item: two items are accepted before the worker takes one. And an
item that was accepted is not processed, because `Stop` comes before the worker takes it. -/
theorem accepts_two_and_drops_one :
    let accept : List (Action 1 1) := [.call 0 false, .push 0, .push 0, .push 0, .push 0, .push 0]
    (Throughout step Quiet ({ queueSize := 1 } : LockFreeThreadPool 1 1) (accept ++ accept) ∧
      ∃ p ∈ after step ({ queueSize := 1 } : LockFreeThreadPool 1 1) (accept ++ accept), p.accepted = [0, 1] ∧
        p.queue = [0, 1]) ∧
    ∃ p ∈ after step ({ queueSize := 1 } : LockFreeThreadPool 1 1) (accept ++ [.stop, .stop, .work 0, .work 0, .work 0, .stop]),
      p.stop = .returned ∧ p.accepted = [0] ∧ p.processed = [] := by
  decide

end LockFreeThreadPool

end AgentEngine.Util
