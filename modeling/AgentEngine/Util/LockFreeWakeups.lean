import AgentEngine.Lib.Tickets
import AgentEngine.Util.LockFreeThreadPool

/-!
`LockFreeThreadPool` loses no wake-up.

The signals of the pushes and the waits of the workers draw their slots from two counters, so that
it is left to chance which worker a signal reaches and which item that worker takes. What makes
this safe is counting: `Counted` says how the counters of the slots, the two ticket counters and
the places of all threads add up, and `exists_slot` finds a slot where a worker waits for a signal
that has been given.
-/

namespace AgentEngine.Util

open Lib

namespace LockFreeThreadPool

variable {n m : Nat}

/-! ### What threads contribute -/

/-- A worker that waits at a slot. -/
@[simp] def Worker.waitsAt (n slot : Nat) : Worker → Nat
  | .waiting ticket => if ticket % n = slot then 1 else 0
  | _ => 0

@[simp] def Worker.waits : Worker → Nat
  | .waiting _ => 1
  | _ => 0

@[simp] def Worker.polls : Worker → Nat
  | .polling => 1
  | _ => 0

@[simp] def Worker.leaves : Worker → Nat
  | .exited => 1
  | _ => 0

@[simp] def Worker.tests : Worker → Nat
  | .released => 1
  | _ => 0

/-- A worker that has drawn a ticket and not taken an item for it. -/
@[simp] def Worker.holdsTicket (worker : Worker) : Nat :=
  worker.waits + worker.tests + worker.polls + worker.leaves

/-- A push that has put its item into the queue and not drawn a ticket. -/
@[simp] def Caller.owesTicket : Caller → Nat
  | .inserted _ => 1
  | _ => 0

/-- A push that has drawn a ticket for a slot and not signalled it. -/
@[simp] def Caller.owesSignalAt (n slot : Nat) : Caller → Nat
  | .ticketed _ ticket => if ticket % n = slot then 1 else 0
  | _ => 0

/-- The signals that `Stop` has given to a slot. -/
def StopPhase.signals (slot : Nat) : StopPhase → Nat
  | .notCalled => 0
  | .signalling k => if slot < k then 1 else 0
  | .returned => 1

theorem sum_waitsAt (pos : 0 < n) (workers : Fin n → Worker) :
    ∑ slot : Fin n, tally (Worker.waitsAt n slot) workers = tally Worker.waits workers := by
  unfold tally
  rw [Finset.sum_comm]
  apply Finset.sum_congr rfl
  intro w _
  cases workers w with
  | waiting ticket => exact sum_slots pos ticket
  | idle | released | polling | taken | consuming | exited => exact Finset.sum_const_zero

theorem tally_holdsTicket (workers : Fin n → Worker) : tally Worker.holdsTicket workers =
    tally Worker.waits workers + tally Worker.tests workers + tally Worker.polls workers +
      tally Worker.leaves workers := by
  simp only [tally, Worker.holdsTicket, Finset.sum_add_distrib]

/-! ### The invariant -/

/-- How the counters and the places of the threads add up. -/
structure Counted (p : LockFreeThreadPool n m) : Prop where
  /-- Of the tickets for a slot, those of the pushes went to its counter and those of the workers
  were taken from it. -/
  slots : ∀ slot < n, p.count slot + tickets n p.waitIndex slot +
      tally (Caller.owesSignalAt n slot) p.callers =
    tickets n p.notifyIndex slot + tally (Worker.waitsAt n slot) p.workers + p.stop.signals slot
  waiting : ∀ slot, tally (Worker.waitsAt n slot) p.workers ≤ tickets n p.waitIndex slot
  /-- For every ticket of a worker an item was taken, or the worker still holds it. -/
  items : p.waitIndex + p.queue.length =
    p.notifyIndex + tally Caller.owesTicket p.callers + tally Worker.holdsTicket p.workers
  polling : tally Worker.polls p.workers + tally Caller.owesTicket p.callers ≤ p.queue.length
  running : p.run = true → p.stop = .notCalled ∧ tally Worker.leaves p.workers = 0
  stopping : ∀ k, p.stop = .signalling k → k ≤ n

theorem tally_idle_workers {f : Worker → Nat} (zero : f .idle = 0) :
    tally f (fun _ : Fin n => Worker.idle) = 0 := tally_eq_zero fun _ => zero

theorem tally_idle_callers {f : Caller → Nat} (zero : f .idle = 0) :
    tally f (fun _ : Fin m => Caller.idle) = 0 := tally_eq_zero fun _ => zero

theorem counted_start (queueSize : Nat) :
    Counted ({ queueSize } : LockFreeThreadPool n m) := by
  constructor
  · intro slot _
    rw [tally_idle_callers rfl, tally_idle_workers rfl]
    rfl
  · intro slot
    rw [tally_idle_workers rfl]
    exact Nat.zero_le _
  · rw [tally_idle_callers rfl, tally_idle_workers rfl]
    rfl
  · rw [tally_idle_callers rfl, tally_idle_workers rfl]
    exact le_rfl
  · intro _
    exact ⟨rfl, tally_idle_workers rfl⟩
  · intro k stopped
    cases stopped

section Moves

variable {p : LockFreeThreadPool n m}

/-- As long as the pool runs, the workers that are past their wait have items to take. -/
theorem Counted.running_items (h : p.Counted) (pos : 0 < n) (running : p.run = true) :
    tally Worker.holdsTicket p.workers + tally Caller.owesTicket p.callers ≤
      p.queue.length + tally Worker.waits p.workers := by
  have le : p.waitIndex ≤ p.notifyIndex + tally Worker.waits p.workers := by
    rw [← sum_tickets pos p.waitIndex, ← sum_tickets pos p.notifyIndex, ← sum_waitsAt pos,
      ← Finset.sum_add_distrib]
    apply Finset.sum_le_sum
    intro slot _
    have here := h.slots slot slot.isLt
    rw [(h.running running).1, StopPhase.signals] at here
    omega
  have := h.items
  omega

/-- A thread goes on in `PushWorkItem`. -/
theorem Counted.moveCaller (h : p.Counted) {c : Fin m} (caller : Caller) {count : Nat → Nat}
    {notifyIndex curQueueSize : Nat} {queue accepted : List Nat}
    (slots : ∀ slot < n,
      count slot + tickets n p.notifyIndex slot + caller.owesSignalAt n slot =
        p.count slot + tickets n notifyIndex slot + (p.callers c).owesSignalAt n slot)
    (items : queue.length + p.notifyIndex + (p.callers c).owesTicket =
      p.queue.length + notifyIndex + caller.owesTicket)
    (polling : p.queue.length + caller.owesTicket ≤ queue.length + (p.callers c).owesTicket) :
    Counted ({ p with count, notifyIndex, curQueueSize, queue, accepted }.setCaller c caller) := by
  have ticket := tally_update Caller.owesTicket p.callers c caller
  have signal := fun slot => tally_update (Caller.owesSignalAt n slot) p.callers c caller
  constructor
  · intro slot inRing
    have := h.slots slot inRing
    have := slots slot inRing
    have := signal slot
    dsimp only [setCaller]
    omega
  · exact h.waiting
  · have := h.items
    dsimp only [setCaller]
    omega
  · have := h.polling
    dsimp only [setCaller]
    omega
  · exact h.running
  · exact h.stopping

/-- A worker goes on in `WorkerRoutine`. -/
theorem Counted.moveWorker (h : p.Counted) {w : Fin n} (worker : Worker) {count : Nat → Nat}
    {waitIndex curQueueSize : Nat} {queue processed : List Nat}
    (slots : ∀ slot < n,
      count slot + tickets n waitIndex slot + (p.workers w).waitsAt n slot =
        p.count slot + tickets n p.waitIndex slot + worker.waitsAt n slot)
    (waiting : ∀ slot, tickets n p.waitIndex slot + worker.waitsAt n slot ≤
      tickets n waitIndex slot + (p.workers w).waitsAt n slot)
    (items : waitIndex + queue.length + (p.workers w).holdsTicket =
      p.waitIndex + p.queue.length + worker.holdsTicket)
    (polling : tally Worker.polls p.workers + worker.polls + tally Caller.owesTicket p.callers ≤
      queue.length + (p.workers w).polls)
    (running : p.run = true → worker.leaves = 0) :
    Counted ({ p with count, waitIndex, curQueueSize, queue, processed }.setWorker w worker) := by
  have holding := tally_update Worker.holdsTicket p.workers w worker
  have polls := tally_update Worker.polls p.workers w worker
  have leaves := tally_update Worker.leaves p.workers w worker
  have waits := fun slot => tally_update (Worker.waitsAt n slot) p.workers w worker
  constructor
  · intro slot inRing
    have := h.slots slot inRing
    have := slots slot inRing
    have := waits slot
    dsimp only [setWorker]
    omega
  · intro slot
    have := h.waiting slot
    have := waiting slot
    have := waits slot
    dsimp only [setWorker]
    omega
  · have := h.items
    dsimp only [setWorker]
    omega
  · dsimp only [setWorker]
    omega
  · intro run
    obtain ⟨stop, zero⟩ := h.running run
    have := running run
    refine ⟨stop, ?_⟩
    dsimp only [setWorker]
    omega
  · exact h.stopping

theorem Counted.step (pos : 0 < n) {a : Action n m} {p' : LockFreeThreadPool n m}
    (h : p.Counted) (moved : p.step a = some p') : p'.Counted := by
  have polling := h.polling
  cases move_of_step moved with
  | refuse here stopped => exact { h with }
  | enter here running =>
    have called : Counted { p with calls := p.calls + 1 } := { h with }
    apply called.moveCaller <;> simp [here]
  | giveUp here full | letIn here room | increment here => apply h.moveCaller <;> simp [here]
  | insert here =>
    -- a ticket is owed for the item
    apply h.moveCaller
    · simp [here]
    · simp [here]
      omega
    · simp [here]
  | drawNotify here =>
    -- a signal is owed for the ticket
    apply h.moveCaller
    · intro slot _
      rw [tickets_succ]
      simp [here]
      omega
    · simp [here]
      omega
    · simp [here]
  | @signal c item ticket here =>
    apply h.moveCaller
    · intro slot _
      rcases eq_or_ne slot (ticket % n) with rfl | other
      · simp [here, signalCounted]
        omega
      · simp [here, signalCounted, other, other.symm]
    · simp [here, signalCounted]
    · simp [here, signalCounted]
  | drawWait here =>
    apply h.moveWorker
    · intro slot _
      rw [tickets_succ]
      simp [here]
      omega
    · intro slot
      rw [tickets_succ]
      simp [here]
    · simp [here]
      omega
    · simpa [here] using polling
    · simp
  | @release w ticket here signalled =>
    apply h.moveWorker
    · intro slot _
      rcases eq_or_ne slot (ticket % n) with rfl | other
      · simp [here]
        omega
      · simp [here, other, other.symm]
    · simp
    · simp [here]
    · simpa [here] using polling
    · simp
  | @goOn w here running =>
    -- the worker is one of those for which there is an item
    have enough := h.running_items pos running
    have holders := tally_holdsTicket p.workers
    have this_one := le_tally Worker.tests p.workers w
    rw [here, Worker.tests] at this_one
    apply h.moveWorker
    · simp [here]
    · simp [here]
    · simp [here]
    · simp [here]
      omega
    · simp
  | leave here stopped =>
    apply h.moveWorker
    · simp [here]
    · simp [here]
    · simp [here]
    · simpa [here] using polling
    · simp [stopped]
  | pop here front =>
    rw [front, List.length_cons] at polling
    apply h.moveWorker
    · simp [here]
    · simp [here]
    · simp [here, front]
      omega
    · simp [here]
      omega
    · simp
  | decrement here | process here =>
    apply h.moveWorker
    · simp [here]
    · simp [here]
    · simp [here]
    · simpa [here] using polling
    · simp
  | clearRun here =>
    refine ⟨?_, h.waiting, h.items, h.polling, nofun, ?_⟩
    · intro slot inRing
      have slots := h.slots slot inRing
      rw [here] at slots
      exact slots
    · rintro k ⟨⟩
      exact Nat.zero_le n
  | @signalSlot k here more =>
    refine ⟨?_, h.waiting, h.items, h.polling, ?_, ?_⟩
    · intro slot inRing
      have slots := h.slots slot inRing
      rw [here] at slots
      simp only [StopPhase.signals] at slots
      dsimp only [signalCounted, StopPhase.signals]
      rcases eq_or_ne slot k with rfl | other
      · rw [if_neg (lt_irrefl slot)] at slots
        rw [Function.update_self, if_pos (Nat.lt_succ_self slot)]
        omega
      · rw [Function.update_of_ne other]
        split_ifs at slots ⊢ <;> omega
    · intro run
      cases here.symm.trans (h.running run).1
    · rintro k' ⟨⟩
      exact more
  | returnAtOnce => exact h
  | join here all left =>
    refine ⟨?_, h.waiting, h.items, h.polling, ?_, nofun⟩
    · intro slot inRing
      have slots := h.slots slot inRing
      rw [here] at slots
      simp only [StopPhase.signals, if_pos (inRing.trans_le all)] at slots
      exact slots
    · intro run
      cases here.symm.trans (h.running run).1

end Moves

/-! ### Wake-ups -/

section Wakeups

variable {p : LockFreeThreadPool n m}

/-- A push that is between its insertion and its signal. -/
def Caller.owes : Caller → Bool
  | .inserted _ | .ticketed .. => true
  | _ => false

/-- No push is between its insertion and its signal. -/
def Settled (p : LockFreeThreadPool n m) : Prop := ∀ c, (p.callers c).owes = false

instance (p : LockFreeThreadPool n m) : Decidable p.Settled :=
  inferInstanceAs (Decidable (∀ _, _ = _))

theorem Settled.owes_nothing (settled : p.Settled) :
    tally Caller.owesTicket p.callers = 0 ∧
      ∀ slot, tally (Caller.owesSignalAt n slot) p.callers = 0 := by
  have nothing : ∀ c, (p.callers c).owesTicket = 0 ∧
      ∀ slot, (p.callers c).owesSignalAt n slot = 0 := by
    intro c
    have quiet := settled c
    cases here : p.callers c with
    | idle | testing | admitted | counted => exact ⟨rfl, fun _ => rfl⟩
    | inserted | ticketed =>
      rw [here] at quiet
      cases quiet
  exact ⟨tally_eq_zero fun c => (nothing c).1, fun slot => tally_eq_zero fun c => (nothing c).2 slot⟩

/-- If the signals and the waits both outnumber the waits that are over, then somewhere a worker
waits at a slot with a signal. -/
theorem Counted.exists_signalled (h : p.Counted) (pos : 0 < n) (settled : p.Settled) (extra : Nat)
    (signals : ∀ slot < n, tickets n (p.notifyIndex + extra) slot ≤
      tickets n p.notifyIndex slot + p.stop.signals slot)
    (some_waits : 0 < tally Worker.waits p.workers)
    (some_left : p.waitIndex < p.notifyIndex + extra + tally Worker.waits p.workers) :
    ∃ w ticket, p.workers w = .waiting ticket ∧ p.count (ticket % n) ≠ 0 := by
  -- the waits at each slot that are over
  let done : Fin n → Nat := fun slot =>
    tickets n p.waitIndex slot - tally (Worker.waitsAt n slot) p.workers
  have total : ∑ slot, done slot + tally Worker.waits p.workers = p.waitIndex := by
    rw [← sum_waitsAt pos, ← Finset.sum_add_distrib]
    refine Eq.trans (Finset.sum_congr rfl fun slot _ => ?_) (sum_tickets pos p.waitIndex)
    exact Nat.sub_add_cancel (h.waiting slot)
  obtain ⟨slot, signalled, waited⟩ := exists_slot pos
    (by omega : ∑ slot, done slot < p.notifyIndex + extra)
    (by omega : ∑ slot, done slot < p.waitIndex)
  have slots := h.slots slot slot.isLt
  rw [settled.owes_nothing.2] at slots
  have given := signals slot slot.isLt
  have waiting := h.waiting slot
  obtain ⟨w, here⟩ := exists_of_tally_pos
    (show 0 < tally (Worker.waitsAt n slot) p.workers by dsimp only [done] at waited; omega)
  cases worker : p.workers w with
  | waiting ticket =>
    rw [worker, Worker.waitsAt] at here
    split_ifs at here with atSlot
    · refine ⟨w, ticket, worker, ?_⟩
      rw [atSlot]
      dsimp only [done] at signalled
      omega
    · exact absurd here (lt_irrefl 0)
  | idle | released | polling | taken | consuming | exited =>
    rw [worker] at here
    exact absurd here (lt_irrefl 0)

/-- `Stop` has signalled every slot. -/
def AllSignalled (p : LockFreeThreadPool n m) : Prop := p.stop = .signalling n ∨ p.stop = .returned

/-- Whoever is blocked while an item waits is not left there: a signal is at the slot of some
blocked worker. -/
theorem Counted.wakes (h : p.Counted) (pos : 0 < n) (settled : p.Settled) (items : p.queue ≠ [])
    (blocked : ∀ w, ∃ ticket, p.workers w = .waiting ticket) :
    ∃ w ticket, p.workers w = .waiting ticket ∧ p.count (ticket % n) ≠ 0 := by
  have all : ∀ w, (p.workers w).waits = 1 ∧ (p.workers w).holdsTicket = 1 := by
    intro w
    obtain ⟨ticket, here⟩ := blocked w
    rw [here]
    exact ⟨rfl, rfl⟩
  have waits : tally Worker.waits p.workers = n :=
    (tally_eq_card fun w => (all w).1).trans (Fintype.card_fin n)
  have holds : tally Worker.holdsTicket p.workers = n :=
    (tally_eq_card fun w => (all w).2).trans (Fintype.card_fin n)
  have drawn := h.items
  rw [settled.owes_nothing.1, holds] at drawn
  have some_item := List.length_pos_of_ne_nil items
  -- the signals of the pushes are enough
  exact h.exists_signalled pos settled 0 (fun slot _ => Nat.le_add_right _ _) (by omega)
    (by omega)

/-- A worker that found the pool running has an item to take. -/
theorem Counted.finds_item (h : p.Counted) {w : Fin n} (polling : p.workers w = .polling) :
    p.queue ≠ [] := by
  intro empty
  have enough := h.polling
  have this_one := le_tally Worker.polls p.workers w
  rw [empty, List.length_nil] at enough
  rw [polling, Worker.polls] at this_one
  omega

/-- Once every slot was signalled by `Stop`, some worker can go on until all have left. -/
theorem Counted.no_deadlock (h : p.Counted) (pos : 0 < n) (settled : p.Settled)
    (signalled : p.AllSignalled) {w : Fin n} (stays : p.workers w ≠ .exited) :
    ∃ w, (p.step (.work w)).isSome := by
  by_contra stuck
  push Not at stuck
  have blocked : ∀ w, p.work w = none := fun w => Option.not_isSome_iff_eq_none.mp (stuck w)
  -- whoever cannot go on has left, or waits at a slot without a signal
  have place : ∀ w, p.workers w = .exited ∨
      ∃ ticket, p.workers w = .waiting ticket ∧ p.count (ticket % n) = 0 := by
    intro w
    have here := blocked w
    unfold LockFreeThreadPool.work at here
    split at here
    · cases here
    · rename_i ticket waits
      dsimp only at here
      split_ifs at here with none_left
      exact .inr ⟨ticket, waits, none_left⟩
    · cases here
    · rename_i polls
      split at here
      · rename_i empty
        exact absurd (pop_eq_none.mp empty) (h.finds_item polls)
      · cases here
    · cases here
    · cases here
    · rename_i exited
      exact .inl exited
  have each : ∀ w, (p.workers w).holdsTicket = 1 ∧
      (p.workers w).tests = 0 ∧ (p.workers w).polls = 0 := by
    intro w
    rcases place w with left | ⟨ticket, waits, -⟩
    · rw [left]
      exact ⟨rfl, rfl, rfl⟩
    · rw [waits]
      exact ⟨rfl, rfl, rfl⟩
  have holders : tally Worker.holdsTicket p.workers = n :=
    (tally_eq_card fun w => (each w).1).trans (Fintype.card_fin n)
  have split := tally_holdsTicket p.workers
  rw [tally_eq_zero fun w => (each w).2.1, tally_eq_zero fun w => (each w).2.2] at split
  have waiter : 0 < tally Worker.waits p.workers := by
    refine lt_of_lt_of_le ?_ (le_tally Worker.waits p.workers w)
    rcases place w with left | ⟨ticket, waits, -⟩
    · exact absurd left stays
    · rw [waits]
      exact Nat.one_pos
  have drawn := h.items
  rw [settled.owes_nothing.1, holders] at drawn
  have ring : ∀ slot < n, tickets n (p.notifyIndex + n) slot ≤
      tickets n p.notifyIndex slot + p.stop.signals slot := by
    intro slot inRing
    rw [tickets_add_ring inRing]
    rcases signalled with all | returned
    · rw [all, StopPhase.signals, if_pos inRing]
    · rw [returned, StopPhase.signals]
  obtain ⟨w, ticket, waits, signal⟩ := h.exists_signalled pos settled n ring waiter (by omega)
  rcases place w with left | ⟨ticket', waits', none_left⟩
  · cases left.symm.trans waits
  · cases waits.symm.trans waits'
    exact signal none_left

/-- In every state that a started pool can get to and in which no push is between its insertion
and its signal: if there are items and every worker is blocked, then a blocked worker has a signal;
a worker that has found the pool running finds an item; and after the signals of `Stop` some worker
can go on until all have left. -/
theorem loses_no_wakeup (pos : 0 < n) (queueSize : Nat) {actions : List (Action n m)}
    (run : after step { queueSize } actions = some p) (settled : p.Settled) :
    (p.queue ≠ [] → (∀ w, ∃ ticket, p.workers w = .waiting ticket) →
      ∃ w ticket, p.workers w = .waiting ticket ∧ p.count (ticket % n) ≠ 0) ∧
    (∀ w, p.workers w = .polling → p.queue ≠ []) ∧
    (p.AllSignalled → (∃ w, p.workers w ≠ .exited) → ∃ w, (p.step (.work w)).isSome) := by
  have counted : p.Counted := after_inv (fun _ _ _ => Counted.step pos) (counted_start queueSize) run
  refine ⟨?_, ?_, ?_⟩
  · exact counted.wakes pos settled
  · intro w polling
    exact counted.finds_item polling
  · rintro signalled ⟨w, stays⟩
    exact counted.no_deadlock pos settled signalled stays

/-- Two workers wait, and the one item was signalled to the slot of the first. -/
theorem loses_no_wakeup_one_item :
    ∃ p ∈ after (step (n := 2) (m := 1) (Q := List Nat)) { queueSize := 4 } [.work 0, .work 1,
      .call 0 false, .push 0, .push 0, .push 0, .push 0, .push 0], p.queue = [0] ∧
      ∃ w ticket, p.workers w = .waiting ticket ∧ p.count (ticket % 2) ≠ 0 := by
  have reached : ∀ p ∈ after (step (n := 2) (m := 1) (Q := List Nat)) { queueSize := 4 } [.work 0,
      .work 1, .call 0 false, .push 0, .push 0, .push 0, .push 0, .push 0], p.Settled ∧
      p.queue = [0] ∧ p.workers 0 = .waiting 1 ∧ p.workers 1 = .waiting 2 := by decide
  obtain ⟨p, run⟩ := Option.isSome_iff_exists.mp (by decide :
    (after (step (n := 2) (m := 1) (Q := List Nat)) { queueSize := 4 } [.work 0, .work 1,
      .call 0 false, .push 0, .push 0, .push 0, .push 0, .push 0]).isSome)
  obtain ⟨settled, queue, first, second⟩ := reached p run
  refine ⟨p, run, queue, (loses_no_wakeup (by decide) 4 run settled).1 ?_ ?_⟩
  · rw [queue]
    exact List.cons_ne_nil 0 []
  · intro w
    rcases Fin.exists_fin_two.mp ⟨w, rfl⟩ with rfl | rfl
    · exact ⟨1, first⟩
    · exact ⟨2, second⟩

end Wakeups

end LockFreeThreadPool

end AgentEngine.Util
