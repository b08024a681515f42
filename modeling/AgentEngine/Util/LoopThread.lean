import AgentEngine.Lib.Transitions

/-!
`LoopThread` (`loop_thread.cc`): a thread that calls a function again and again, and `RunOnce`, which
asks for a call before its time.

The request is the value -1 of `next_time_`. `Loop` looks at `next_time_` in one critical section,
where it may wait, and sets it in another one behind the call. `RunOnce` may get the lock whenever
`Loop` is in neither of them, and while it waits. The loop is not stopped, and the function is not
disabled.

* `Due.step`: a request stays until the function is called.
* `runOnce_not_lost`: until then no wait is begun.
-/

namespace AgentEngine.Util

open Lib

/-- What `MonotonicTimeUs` returns. -/
def MonotonicTime : Type := { t : Int64 // 0 ≤ t }

inductive LoopPhase where
  /-- Before the first critical section. -/
  | top
  | waiting
  /-- Behind the first critical section, with `nowTime`. -/
  | ready (nowTime : Int64)
  /-- The function has been started. -/
  | called (nowTime : Int64)

structure LoopThread where
  loopInterval : Int64
  strictMode : Bool
  nextTime : Int64 := 0
  phase : LoopPhase := .top

namespace LoopThread

/-- What is done with the lock held, and the call of the function. The times are those that are read
on the way. -/
inductive Action where
  | runOnce
  | enter (nowTime later : MonotonicTime)
  | wake (later : MonotonicTime)
  | call
  | reschedule (later : MonotonicTime)

/-- The first critical section from behind the wait on. -/
def leave (t : LoopThread) (nowTime : Int64) : LoopThread :=
  let t := if t.nextTime = -1 then { t with nextTime := 0 } else t
  { t with phase := if nowTime < t.nextTime then .top else .ready nowTime }

def step (t : LoopThread) (a : Action) : Option LoopThread :=
  match a, t.phase with
  | .runOnce, _ => some { t with nextTime := -1 }
  | .enter nowTime later, .top =>
      if nowTime.val < t.nextTime then some { t with phase := .waiting }
      else some (t.leave later.val)
  | .wake later, .waiting => some (t.leave later.val)
  | .call, .ready nowTime => some { t with phase := .called nowTime }
  | .reschedule later, .called nowTime =>
      let nowTime := if t.strictMode then later.val else nowTime
      some { t with phase := .top
                    nextTime := if t.nextTime ≠ -1 then nowTime + t.loopInterval else t.nextTime }
  | _, _ => none

/-- A call of the function is due. -/
def Due (t : LoopThread) : Prop := t.nextTime = -1 ∨ ∃ nowTime, t.phase = .ready nowTime

theorem not_lt_of_nonpos (time : MonotonicTime) {next : Int64} (low : next ≤ 0) :
    ¬ time.val < next := by
  have := time.property
  rw [Int64.le_iff_toInt_le] at low this
  rw [Int64.lt_iff_toInt_lt]
  omega

theorem ready_leave {t : LoopThread} (asked : t.nextTime = -1) (later : MonotonicTime) :
    (t.leave later.val).phase = .ready later.val := by
  simp only [leave, if_pos asked]
  exact if_neg (not_lt_of_nonpos later (Int64.le_refl 0))

/-- A loop that is due does not wait. -/
theorem Due.enter {t t' : LoopThread} (h : t.Due) {nowTime later : MonotonicTime}
    (moved : t.step (.enter nowTime later) = some t') : t'.phase = .ready later.val := by
  cases phase : t.phase <;> simp only [LoopThread.step, phase] at moved <;> try cases moved
  have asked : t.nextTime = -1 := h.resolve_right (by simp [phase])
  rw [asked, if_neg (not_lt_of_nonpos nowTime (by decide))] at moved
  cases moved
  exact ready_leave asked later

theorem Due.step {t t' : LoopThread} (h : t.Due) {a : Action} (other : a ≠ .call)
    (moved : t.step a = some t') : t'.Due := by
  cases a with
  | runOnce =>
    cases moved
    exact .inl rfl
  | call => exact absurd rfl other
  | enter nowTime later => exact .inr ⟨_, h.enter moved⟩
  | wake later =>
    cases phase : t.phase <;> simp only [LoopThread.step, phase] at moved <;> cases moved
    exact .inr ⟨_, ready_leave (h.resolve_right (by simp [phase])) later⟩
  | reschedule later =>
    cases phase : t.phase <;> simp only [LoopThread.step, phase] at moved <;> cases moved
    have asked : t.nextTime = -1 := h.resolve_right (by simp [phase])
    exact .inl ((if_neg (not_not.mpr asked)).trans asked)

/-- Between a `RunOnce` and the next call of the function no wait is begun. -/
theorem runOnce_not_lost (loopInterval : Int64) (strictMode : Bool) (before between : List Action)
    (nowTime later : MonotonicTime) {t t' : LoopThread}
    (run : after step { loopInterval, strictMode } (before ++ .runOnce :: between) = some t)
    (unserved : .call ∉ between) (moved : t.step (.enter nowTime later) = some t') :
    t'.phase ≠ .waiting := by
  obtain ⟨t₀, -, rest⟩ := after_append.mp run
  obtain ⟨t₁, asked, rest⟩ := after_cons.mp rest
  have due : t₁.Due := by
    cases asked
    exact .inl rfl
  have due : t.Due := after_inv_of_mem
    (fun _ a mem _ due moved => due.step (fun call => unserved (call ▸ mem)) moved) due rest
  rw [due.enter moved]
  exact LoopPhase.noConfusion

/-- A request made while the function runs. -/
theorem runOnce_not_lost_while_called :
    ∃ t t', after step { loopInterval := 10, strictMode := true } ([.enter ⟨0, by decide⟩
        ⟨0, by decide⟩, .call] ++ .runOnce :: [.reschedule ⟨5, by decide⟩]) = some t ∧
      t.step (.enter ⟨6, by decide⟩ ⟨7, by decide⟩) = some t' ∧ t'.phase ≠ .waiting := by
  refine ⟨_, _, rfl, rfl, ?_⟩
  exact runOnce_not_lost 10 true [.enter ⟨0, by decide⟩ ⟨0, by decide⟩, .call]
    [.reschedule ⟨5, by decide⟩] ⟨6, by decide⟩ ⟨7, by decide⟩ rfl (by simp) rfl

end LoopThread

end AgentEngine.Util
