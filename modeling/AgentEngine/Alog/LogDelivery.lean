import AgentEngine.Lib.Transitions

/-!
Log files that are written by a thread of their own: `FileAppender` with asynchronous flushing, and
`EventBase`, which makes the flushes.

Threads append under the mutex of the appender. A flush swaps the two buffer lists under the same
mutex and then writes one of them while others append to the other; flushes exclude one another by a
mutex of `EventBase`. When a pass over the appenders is made is up to the worker thread, that is, it
may be made at any time. Every file operation succeeds.

* `Delivers.step`: what one step does to the bytes of an appender.
* `Progress.step`: how far the pass of `stop` has come.
* `delivery`: nothing is lost, duplicated or reordered along any run.
-/

namespace AgentEngine.Alog

open Lib List Function Option

/-! ### One appender -/

def MAX_CACHED_BUF_SIZE : BitVec 32 := 200 * 1024 * 1024

structure FileAppender where
  /-- What is in the files that have been rotated, in that order. -/
  rotated : List (List UInt8)
  /-- What is in the current file. -/
  current : List UInt8
  curSize : Nat
  maxSize : Nat
  delayTime : Nat
  maxDelayTime : Nat
  bAsyncFlush : Bool
  flushThreshold : BitVec 32
  flushIntervalInMS : Nat
  lastFlushTimeInMS : Nat
  acculatedBytes : BitVec 32
  acculatedBytesSinceLastSignal : BitVec 32
  needFlush : Bool
  pendingBufferList : List (List UInt8)
  bufferList : List (List UInt8)
  deriving DecidableEq, Repr

/-- What `time` returns where a write asks it: for the decision, in `rotateLog`, in
`setDelayTime`. -/
structure Times where
  decide : Nat
  rotate : Nat
  delay : Nat
  deriving DecidableEq, Repr

namespace FileAppender

variable (a : FileAppender)

def setDelayTime (delayTime time : Nat) : FileAppender :=
  { a with maxDelayTime := delayTime
           delayTime := if 0 < delayTime then time + delayTime else 0 }

/-- The current file is renamed and another one opened. -/
def rotateLog (times : Times) : FileAppender :=
  let a := { a with rotated := a.rotated ++ [a.current], current := [], curSize := 0 }
  if 0 < a.delayTime ∧ a.delayTime ≤ times.rotate then a.setDelayTime a.maxDelayTime times.delay
  else a

def write (buf : List UInt8) (times : Times) : FileAppender :=
  let a :=
    if (0 < a.maxSize ∧ a.maxSize ≤ a.curSize + buf.length) ∨
        (0 < a.delayTime ∧ a.delayTime ≤ times.decide) then a.rotateLog times
    else a
  { a with current := a.current ++ buf, curSize := a.curSize + buf.length }

def append (formatedStr : List UInt8) (times : Times) : FileAppender :=
  if a.bAsyncFlush = false then a.write formatedStr times
  else if formatedStr.length = 0 then a
  else if MAX_CACHED_BUF_SIZE ≤ a.acculatedBytes then a
  else
    let nLen := BitVec.ofNat 32 formatedStr.length
    let a :=
      { a with pendingBufferList := a.pendingBufferList ++ [formatedStr]
               acculatedBytes := a.acculatedBytes + nLen
               acculatedBytesSinceLastSignal := a.acculatedBytesSinceLastSignal + nLen }
    if a.flushThreshold ≤ a.acculatedBytes ∧ a.flushThreshold ≤ a.acculatedBytesSinceLastSignal then
      { a with needFlush := true, acculatedBytesSinceLastSignal := 0 }
    else a

/-- Whether `asyncFlush` goes on to flush. -/
def wantsFlush (now : Nat) (force : Bool) : Bool :=
  force || a.needFlush || decide (a.lastFlushTimeInMS + a.flushIntervalInMS ≤ now)

/-- The critical section of `asyncFlush`. -/
def swap : FileAppender :=
  { a with bufferList := a.pendingBufferList
           pendingBufferList := a.bufferList
           acculatedBytes := 0
           acculatedBytesSinceLastSignal := 0
           needFlush := false }

/-- The end of `asyncFlush`. -/
def finish (now : Nat) : FileAppender :=
  { a with lastFlushTimeInMS := now, bufferList := [] }

/-- The bytes in the files. -/
def written : List UInt8 := a.rotated.flatten ++ a.current

def pending : Nat := (a.pendingBufferList.map List.length).sum

/-- Writing leaves the buffer lists as they are. -/
structure SameLists (a b : FileAppender) : Prop where
  async : b.bAsyncFlush = a.bAsyncFlush
  pending : b.pendingBufferList = a.pendingBufferList
  buffer : b.bufferList = a.bufferList
  counted : b.acculatedBytes = a.acculatedBytes

theorem rotateLog_spec (times : Times) :
    (a.rotateLog times).written = a.written ∧ SameLists a (a.rotateLog times) := by
  unfold rotateLog
  simp only
  split_ifs
  · exact ⟨by simp [written, setDelayTime], rfl, rfl, rfl, rfl⟩
  · exact ⟨by simp [written], rfl, rfl, rfl, rfl⟩

theorem write_spec (buf : List UInt8) (times : Times) :
    (a.write buf times).written = a.written ++ buf ∧ SameLists a (a.write buf times) := by
  unfold write
  simp only
  split_ifs
  · obtain ⟨bytes, lists⟩ := a.rotateLog_spec times
    refine ⟨?_, lists.async, lists.pending, lists.buffer, lists.counted⟩
    rw [← bytes]
    exact (append_assoc _ _ _).symm
  · exact ⟨(append_assoc _ _ _).symm, rfl, rfl, rfl, rfl⟩

/-- A message is refused, or it comes behind those that are pending. -/
theorem append_spec {a : FileAppender} (async : a.bAsyncFlush = true) (m : List UInt8)
    (times : Times) :
    (MAX_CACHED_BUF_SIZE ≤ a.acculatedBytes ∧ a.append m times = a) ∨
    (a.acculatedBytes < MAX_CACHED_BUF_SIZE ∧ (a.append m times).written = a.written ∧
      (a.append m times).bAsyncFlush = true ∧
      (a.append m times).pendingBufferList.flatten = a.pendingBufferList.flatten ++ m ∧
      (a.append m times).pending = a.pending + m.length ∧
      (a.append m times).bufferList = a.bufferList ∧
      (a.append m times).acculatedBytes = a.acculatedBytes + BitVec.ofNat 32 m.length) := by
  by_cases full : MAX_CACHED_BUF_SIZE ≤ a.acculatedBytes
  · refine .inl ⟨full, ?_⟩
    rw [append, if_neg (by simp [async]), if_pos full, ite_self]
  refine .inr ⟨BitVec.not_le.mp full, ?_⟩
  rw [append, if_neg (by simp [async])]
  by_cases empty : m.length = 0
  · rw [if_pos empty, length_eq_zero_iff.mp empty]
    exact ⟨rfl, async, (append_nil _).symm, rfl, rfl, (BitVec.add_zero _).symm⟩
  · rw [if_neg empty, if_neg full]
    simp only
    split_ifs <;> exact ⟨rfl, async, by simp, by simp [pending], rfl, rfl⟩

end FileAppender

/-! ### All of them -/

/-- Where `asyncFlush` is. -/
inductive Phase where
  | check
  | swap
  /-- These have not been written yet. -/
  | write (todo : List (List UInt8))
  deriving DecidableEq, Repr

/-- A thread that holds `m_flushMutex`: in `EventBase::flush`, over the appenders as they were when
it began, or in `flushFile`. -/
structure Pass (ι : Type) where
  /-- It is the pass that `stop` makes. -/
  stopping : Bool
  force : Bool
  now : Nat
  current : Option (ι × Phase)
  rest : List ι

/-- The pass has not yet swapped the lists of the appender. -/
def Pass.Ahead {ι : Type} (pass : Pass ι) (i : ι) : Prop :=
  i ∈ pass.rest ∨ pass.current = some (i, .check) ∨ pass.current = some (i, .swap)

/-- Where `stop` is. -/
inductive StopState where
  | running
  | collected
  | flushing
  | flushed
  | stopped
  deriving DecidableEq, Repr

structure EventBase (ι : Type) where
  appenders : ι → FileAppender
  pendingFileAppenders : List ι
  fileAppenders : List ι
  /-- Who holds `m_flushMutex`. -/
  pass : Option (Pass ι)
  stop : StopState

inductive Event (ι : Type) where
  | append (i : ι) (formatedStr : List UInt8) (times : Times)
  | addFileAppender (i : ι)
  | collectFileAppenders
  | flush (force : Bool) (now : Nat)
  | flushFile (i : ι) (now : Nat)
  /-- The holder of `m_flushMutex` goes on. -/
  | proceed (times : Times)
  | stopCollect
  | stopFlush (now : Nat)
  | stopClear

namespace EventBase

variable {ι : Type} [DecidableEq ι]

def append (s : EventBase ι) (i : ι) (formatedStr : List UInt8) (times : Times) : EventBase ι :=
  { s with appenders := Function.update s.appenders i ((s.appenders i).append formatedStr times) }

def collect (s : EventBase ι) : EventBase ι :=
  { s with fileAppenders := s.fileAppenders ++ s.pendingFileAppenders, pendingFileAppenders := [] }

/-- Takes `m_flushMutex`. -/
def begin (s : EventBase ι) (pass : Pass ι) : Option (EventBase ι) :=
  match s.pass with
  | some _ => none
  | none => some { s with pass := some pass }

/-- The appender and what comes next. -/
def move (s : EventBase ι) (pass : Pass ι) (i : ι) (a : FileAppender) (phase : Option Phase) :
    EventBase ι :=
  { s with appenders := Function.update s.appenders i a
           pass := some { pass with current := phase.map fun phase => (i, phase) } }

@[simp] theorem move_self (s : EventBase ι) (pass : Pass ι) (i : ι) (a : FileAppender)
    (phase : Option Phase) : (s.move pass i a phase).appenders i = a := update_self _ _ _

theorem move_of_ne (s : EventBase ι) (pass : Pass ι) {i j : ι} (a : FileAppender)
    (phase : Option Phase) (ne : j ≠ i) : (s.move pass i a phase).appenders j = s.appenders j :=
  update_of_ne ne _ _

/-- One step of `EventBase::flush` and of `asyncFlush` in it. -/
def proceed (s : EventBase ι) (pass : Pass ι) (times : Times) : EventBase ι :=
  match pass.current with
  | none =>
      match pass.rest with
      | [] =>
          { s with pass := none, stop := if pass.stopping then .flushed else s.stop }
      | i :: rest => { s with pass := some { pass with current := some (i, .check), rest } }
  | some (i, phase) =>
      let a := s.appenders i
      match phase with
      | .check =>
          if a.wantsFlush pass.now pass.force then s.move pass i a (some .swap)
          else s.move pass i a none
      | .swap => s.move pass i a.swap (some (.write a.pendingBufferList))
      | .write (buf :: todo) => s.move pass i (a.write buf times) (some (.write todo))
      | .write [] => s.move pass i (a.finish times.decide) none

def step (s : EventBase ι) : Event ι → Option (EventBase ι)
  | .append i formatedStr times => some (s.append i formatedStr times)
  | .addFileAppender i =>
      if s.stop = .running then
        some { s with pendingFileAppenders := s.pendingFileAppenders ++ [i] }
      else none
  | .collectFileAppenders => if s.stop = .running then some s.collect else none
  | .flush force now => s.begin ⟨false, force, now, none, s.fileAppenders⟩
  | .flushFile i now => s.begin ⟨false, true, now, some (i, .check), []⟩
  | .proceed times => s.pass.map fun pass => s.proceed pass times
  | .stopCollect => if s.stop = .running then some { s.collect with stop := .collected } else none
  | .stopFlush now =>
      if s.stop = .collected then
        { s with stop := .flushing }.begin ⟨true, true, now, none, s.fileAppenders⟩
      else none
  | .stopClear =>
      if s.stop = .flushed then
        some { s with stop := .stopped, pendingFileAppenders := [], fileAppenders := [] }
      else none

/-! ### The bytes of an appender -/

/-- A flush of the appender has yet to write these. -/
def unwritten (s : EventBase ι) (i : ι) : List (List UInt8) :=
  match s.pass with
  | some pass =>
      match pass.current with
      | some (j, .write todo) => if j = i then todo else []
      | _ => []
  | none => []

/-- A flush of the appender is running. -/
def FlushRunning (s : EventBase ι) (i : ι) : Prop :=
  ∃ pass phase, s.pass = some pass ∧ pass.current = some (i, phase)

/-- It is writing. -/
def Writing (s : EventBase ι) (i : ι) : Prop :=
  ∃ pass todo, s.pass = some pass ∧ pass.current = some (i, .write todo)

theorem unwritten_eq_nil {s : EventBase ι} {i : ι} (none : ¬ s.Writing i) : s.unwritten i = [] := by
  unfold unwritten
  split
  · rename_i pass holder
    split
    · rename_i j todo here
      refine if_neg ?_
      rintro rfl
      exact none ⟨pass, todo, holder, here⟩
    · rfl
  · rfl

theorem unwritten_eq {s : EventBase ι} {i : ι} {pass : Pass ι} {todo : List (List UInt8)}
    (holder : s.pass = some pass) (here : pass.current = some (i, .write todo)) :
    s.unwritten i = todo := by
  rw [unwritten, holder]
  simp only [here, if_pos]

/-- What has been appended is in the files or on the way there. -/
structure Delivers (s : EventBase ι) (i : ι) (bytes : List UInt8) (longest : Nat) : Prop where
  async : (s.appenders i).bAsyncFlush = true
  bytes : (s.appenders i).written ++ (s.unwritten i).flatten ++
    (s.appenders i).pendingBufferList.flatten = bytes
  buffer : ¬ s.Writing i → (s.appenders i).bufferList = []
  counted : (s.appenders i).acculatedBytes.toNat = (s.appenders i).pending
  bounded : (s.appenders i).pending < MAX_CACHED_BUF_SIZE.toNat + longest

/-- What an event adds to the bytes of an appender. -/
def accepts (s : EventBase ι) (i : ι) : Event ι → List UInt8
  | .append j formatedStr _ =>
      if j = i ∧ (s.appenders i).acculatedBytes < MAX_CACHED_BUF_SIZE then formatedStr else []
  | _ => []

section Steps

variable {s s' : EventBase ι} {i : ι} {bytes : List UInt8} {longest : Nat}

section

variable (h : s.Delivers i bytes longest)
include h

theorem Delivers.mono {longest' : Nat} (le : longest ≤ longest') : s.Delivers i bytes longest' :=
  { h with bounded := h.bounded.trans_le (Nat.add_le_add_left le _) }

/-- What is of no concern to the appender. -/
theorem Delivers.frame (same : s'.appenders i = s.appenders i)
    (before : ¬ s.Writing i) (now : ¬ s'.Writing i) : s'.Delivers i bytes longest where
  async := same ▸ h.async
  bytes := by
    rw [same, unwritten_eq_nil now, ← unwritten_eq_nil before]
    exact h.bytes
  buffer := fun _ => same ▸ h.buffer before
  counted := same ▸ h.counted
  bounded := same ▸ h.bounded

/-- The appender and the flush that is running are the same. -/
theorem Delivers.congr (same : s'.appenders i = s.appenders i)
    (pass : s'.pass = s.pass) : s'.Delivers i bytes longest := by
  have writing : s'.Writing i ↔ s.Writing i := by simp only [Writing, pass]
  have rest : s'.unwritten i = s.unwritten i := by simp only [unwritten, pass]
  refine ⟨same ▸ h.async, ?_, ?_, same ▸ h.counted, same ▸ h.bounded⟩
  · rw [same, rest]
    exact h.bytes
  · rw [same, writing]
    exact h.buffer

theorem Delivers.append (j : ι) (m : List UInt8) (times : Times)
    (small : j = i → m.length < 2 ^ 31) :
    (s.append j m times).Delivers i (bytes ++ s.accepts i (.append j m times))
      (max longest (if j = i then m.length else 0)) := by
  by_cases other : j ≠ i
  · rw [accepts, if_neg fun both => other both.1, append_nil, if_neg other, Nat.max_zero]
    exact h.congr (update_of_ne other.symm _ _) rfl
  obtain rfl := not_not.mp other
  have here : (s.append j m times).appenders j = (s.appenders j).append m times :=
    update_self _ _ _
  rw [accepts, if_pos rfl]
  obtain ⟨full, same⟩ | ⟨room, bytes', async, behind, more, buffer, counted⟩ :=
    FileAppender.append_spec h.async m times
  · rw [if_neg fun both => BitVec.not_lt.mpr full both.2, append_nil]
    exact (h.congr (here.trans same) rfl).mono (le_max_left _ _)
  · have count : (s.appenders j).pending < MAX_CACHED_BUF_SIZE.toNat := h.counted ▸ room
    have limit : MAX_CACHED_BUF_SIZE.toNat = 209715200 := rfl
    have short := small rfl
    rw [if_pos ⟨rfl, room⟩]
    refine ⟨?_, ?_, ?_, ?_, ?_⟩
    · rw [here]
      exact async
    · rw [here, bytes', behind, ← append_assoc, ← h.bytes]
      rfl
    · rw [here, buffer]
      exact h.buffer
    · rw [here, counted, more, BitVec.toNat_add, BitVec.toNat_ofNat, h.counted]
      omega
    · rw [here, more]
      have le := le_max_right longest m.length
      omega

end

omit [DecidableEq ι] in
theorem writing_iff {pass : Pass ι} (holder : s.pass = some pass) :
    s.Writing i ↔ ∃ todo, pass.current = some (i, .write todo) := by
  simp [Writing, holder]

theorem writing_move {pass : Pass ι} {j : ι} {a : FileAppender} {phase : Option Phase} :
    (s.move pass j a phase).Writing i ↔ j = i ∧ ∃ todo, phase = some (.write todo) := by
  rw [writing_iff rfl]
  cases phase with
  | none | some phase => simp

/-- Within `asyncFlush`, only the appender changes, and the phase. -/
theorem proceed_move {pass : Pass ι} {j : ι} {phase : Phase} (times : Times)
    (here : pass.current = some (j, phase)) :
    ∃ a phase', s.proceed pass times = s.move pass j a phase' := by
  unfold proceed
  rw [here]
  simp only
  split
  · split_ifs <;> exact ⟨_, _, rfl⟩
  · exact ⟨_, _, rfl⟩
  · exact ⟨_, _, rfl⟩
  · exact ⟨_, _, rfl⟩

/-- What one step of a flush is to an appender. -/
inductive Flushes (s : EventBase ι) (pass : Pass ι) (times : Times) (i : ι) : EventBase ι → Prop where
  | elsewhere {s' : EventBase ι} (other : pass.current ≠ some (i, .swap)) (before : ¬ s.Writing i)
      (now : ¬ s'.Writing i) (same : s'.appenders i = s.appenders i) : Flushes s pass times i s'
  | swap (here : pass.current = some (i, .swap)) (idle : ¬ s.Writing i) :
      Flushes s pass times i
        (s.move pass i (s.appenders i).swap (some (.write (s.appenders i).pendingBufferList)))
  | write {buf : List UInt8} {todo : List (List UInt8)}
      (here : pass.current = some (i, .write (buf :: todo))) :
      Flushes s pass times i (s.move pass i ((s.appenders i).write buf times) (some (.write todo)))
  | finish (here : pass.current = some (i, .write [])) :
      Flushes s pass times i (s.move pass i ((s.appenders i).finish times.decide) none)

theorem flushes_proceed {pass : Pass ι} (holder : s.pass = some pass) (times : Times) (i : ι) :
    Flushes s pass times i (s.proceed pass times) := by
  have idle (other : ∀ todo, pass.current ≠ some (i, .write todo)) : ¬ s.Writing i := by
    rw [writing_iff holder, not_exists]
    exact other
  cases at' : pass.current with
  | none =>
    refine .elsewhere (by simp [at']) (idle (by simp [at'])) ?_ ?_
    · simp only [EventBase.proceed, at']
      split
      · rintro ⟨pass', _, none, -⟩
        cases none
      · rw [writing_iff rfl]
        simp
    · simp only [EventBase.proceed, at']
      split <;> rfl
  | some turn =>
    obtain ⟨j, phase⟩ := turn
    by_cases other : j ≠ i
    · obtain ⟨a, phase', moved⟩ := proceed_move (s := s) times at'
      rw [moved]
      refine .elsewhere (by simp [at', other]) (idle (by simp [at', other])) ?_
        (move_of_ne _ _ _ _ other.symm)
      rw [writing_move]
      exact fun here => other here.1
    obtain rfl := not_not.mp other
    simp only [EventBase.proceed, at']
    cases phase with
    | check =>
      have checked {phase' : Option Phase} (still : ∀ todo, phase' ≠ some (.write todo)) :
          Flushes s pass times j (s.move pass j (s.appenders j) phase') := by
        refine .elsewhere (by simp [at']) (idle (by simp [at'])) ?_ (move_self ..)
        rw [writing_move, not_and, not_exists]
        exact fun _ => still
      split_ifs
      · exact checked (by simp)
      · exact checked (by simp)
    | swap => exact .swap at' (idle (by simp [at']))
    | write todo =>
      cases todo with
      | cons buf todo => exact .write at'
      | nil => exact .finish at'

section

variable (h : s.Delivers i bytes longest)
include h

theorem Delivers.swap (idle : ¬ s.Writing i) (pass : Pass ι) :
    Delivers (s.move pass i (s.appenders i).swap (some (.write (s.appenders i).pendingBufferList))) i
      bytes longest := by
  have empty : (s.appenders i).swap.pendingBufferList = [] := h.buffer idle
  refine ⟨?_, ?_, ?_, ?_, ?_⟩
  · rw [move_self]
    exact h.async
  · rw [move_self, unwritten_eq rfl rfl, empty, flatten_nil, append_nil, ← h.bytes,
      unwritten_eq_nil idle, flatten_nil, append_nil]
    rfl
  · exact fun writing => absurd (writing_move.mpr ⟨rfl, _, rfl⟩) writing
  · rw [move_self, FileAppender.pending, empty]
    rfl
  · rw [move_self, FileAppender.pending, empty]
    exact Nat.lt_add_right _ (by decide)

theorem Delivers.write {pass : Pass ι} {buf : List UInt8}
    {todo : List (List UInt8)} (holder : s.pass = some pass)
    (at' : pass.current = some (i, .write (buf :: todo))) (times : Times) :
    Delivers (s.move pass i ((s.appenders i).write buf times) (some (.write todo))) i bytes
      longest := by
  obtain ⟨written, lists⟩ := (s.appenders i).write_spec buf times
  refine ⟨?_, ?_, ?_, ?_, ?_⟩
  · rw [move_self, lists.async]
    exact h.async
  · rw [move_self, unwritten_eq rfl rfl, written, lists.pending, ← h.bytes, unwritten_eq holder at',
      flatten_cons, append_assoc (s.appenders i).written]
  · exact fun writing => absurd (writing_move.mpr ⟨rfl, _, rfl⟩) writing
  · rw [move_self, lists.counted, FileAppender.pending, lists.pending]
    exact h.counted
  · rw [move_self, FileAppender.pending, lists.pending]
    exact h.bounded

theorem Delivers.finish {pass : Pass ι}
    (holder : s.pass = some pass) (at' : pass.current = some (i, .write [])) (now : Nat) :
    Delivers (s.move pass i ((s.appenders i).finish now) none) i bytes longest := by
  have idle : ¬ (s.move pass i ((s.appenders i).finish now) none).Writing i := by
    rw [writing_move]
    simp
  refine ⟨?_, ?_, ?_, ?_, ?_⟩
  · rw [move_self]
    exact h.async
  · rw [move_self, unwritten_eq_nil idle, ← h.bytes, unwritten_eq holder at']
    rfl
  · rw [move_self]
    exact fun _ => rfl
  · rw [move_self]
    exact h.counted
  · rw [move_self]
    exact h.bounded

theorem Delivers.proceed {pass : Pass ι} (holder : s.pass = some pass) (times : Times) :
    (s.proceed pass times).Delivers i bytes longest := by
  have flushes := flushes_proceed holder times i
  generalize s.proceed pass times = s' at flushes ⊢
  cases flushes with
  | elsewhere other before now same => exact h.frame same before now
  | swap here idle => exact h.swap idle pass
  | write here => exact h.write holder here times
  | finish here => exact h.finish holder here times.decide

end

omit [DecidableEq ι] in
/-- Whoever takes the mutex has not begun to write. -/
theorem begin_spec {pass : Pass ι} (begun : s.begin pass = some s') :
    s.pass = none ∧ s' = { s with pass := some pass } := by
  unfold EventBase.begin at begun
  split at begun
  · exact nomatch begun
  · rename_i free
    exact ⟨free, (some.inj begun).symm⟩

theorem Delivers.begin (h : s.Delivers i bytes longest) {pass : Pass ι}
    (begun : s.begin pass = some s') (check : ∀ j todo, pass.current ≠ some (j, .write todo)) :
    s'.Delivers i bytes longest := by
  obtain ⟨free, rfl⟩ := begin_spec begun
  refine h.frame ?_ ?_ ?_
  · rfl
  · rintro ⟨_, _, holder, -⟩
    exact nomatch free.symm.trans holder
  · rw [writing_iff rfl]
    rintro ⟨todo, at'⟩
    exact check i todo at'

end Steps

/-- The length of the message that an event appends to an appender. -/
def messageLength (i : ι) : Event ι → Nat
  | .append j formatedStr _ => if j = i then formatedStr.length else 0
  | _ => 0

theorem Delivers.quiet {s s' : EventBase ι} {i : ι} {bytes : List UInt8} {longest : Nat}
    (h : s'.Delivers i bytes longest) {e : Event ι} (quiet : s.accepts i e = []) :
    s'.Delivers i (bytes ++ s.accepts i e) (max longest (messageLength i e)) := by
  rw [quiet, append_nil]
  exact h.mono (le_max_left _ _)

theorem Delivers.step {s s' : EventBase ι} {i : ι} {bytes : List UInt8} {longest : Nat}
    (h : s.Delivers i bytes longest) {e : Event ι} (small : messageLength i e < 2 ^ 31)
    (next : s.step e = some s') :
    s'.Delivers i (bytes ++ s.accepts i e) (max longest (messageLength i e)) := by
  cases e with
  | append j m times =>
    cases next
    refine h.append j m times ?_
    rintro rfl
    rwa [messageLength, if_pos rfl] at small
  | addFileAppender j | collectFileAppenders | stopCollect | stopClear =>
    obtain ⟨-, ⟨⟩⟩ := ite_none_right_eq_some.mp next
    refine Delivers.quiet ?_ rfl
    exact h.congr rfl rfl
  | flush force now | flushFile j now => exact (h.begin next (by simp)).quiet rfl
  | proceed times =>
    obtain ⟨pass, holder, rfl⟩ := map_eq_some_iff.mp next
    exact (h.proceed holder times).quiet rfl
  | stopFlush now =>
    obtain ⟨-, begun⟩ := ite_none_right_eq_some.mp next
    have stopping : Delivers { s with stop := .flushing } i bytes longest := h.congr rfl rfl
    exact (stopping.begin begun (by simp)).quiet rfl

/-! ### The pass of stop -/

/-- Nothing of the appender is on its way. -/
def Drained (s : EventBase ι) (i : ι) : Prop :=
  (s.appenders i).pendingBufferList = [] ∧ s.unwritten i = []

/-- How far `stop` has come with an appender that nothing is appended to. -/
def Progress (s : EventBase ι) (i : ι) : Prop :=
  match s.stop with
  | .running => i ∈ s.pendingFileAppenders ∨ i ∈ s.fileAppenders
  | .collected => i ∈ s.fileAppenders
  | .flushing => ∃ pass, s.pass = some pass ∧ pass.stopping = true ∧ pass.force = true ∧
      (pass.Ahead i ∨ (s.appenders i).pendingBufferList = [])
  | .flushed | .stopped => s.Drained i

/-- The pass of `stop` is made while it is at it. -/
def StopperFlushes (s : EventBase ι) : Prop :=
  ∀ pass, s.pass = some pass → pass.stopping = true → s.stop = .flushing

section Stop

variable {s s' : EventBase ι} {i : ι} {bytes : List UInt8} {longest : Nat} {pass : Pass ι}

/-- What a flush does to what is pending. -/
theorem proceed_lists (holder : s.pass = some pass) (times : Times) (i : ι) :
    (pass.current = some (i, .swap) ∧
      ((s.proceed pass times).appenders i).pendingBufferList = (s.appenders i).bufferList ∧
      (s.proceed pass times).unwritten i = (s.appenders i).pendingBufferList) ∨
    (pass.current ≠ some (i, .swap) ∧
      ((s.proceed pass times).appenders i).pendingBufferList = (s.appenders i).pendingBufferList ∧
      (s.proceed pass times).unwritten i = (s.unwritten i).tail) := by
  have flushes := flushes_proceed holder times i
  generalize s.proceed pass times = s' at flushes ⊢
  cases flushes with
  | elsewhere other before now same =>
    rw [unwritten_eq_nil before, unwritten_eq_nil now, same]
    exact .inr ⟨other, rfl, rfl⟩
  | swap here =>
    rw [move_self, unwritten_eq rfl rfl]
    exact .inl ⟨here, rfl, rfl⟩
  | @write buf todo here =>
    rw [move_self, unwritten_eq rfl rfl, unwritten_eq holder here]
    exact .inr ⟨by simp [here], ((s.appenders i).write_spec buf times).2.pending, rfl⟩
  | finish here =>
    rw [move_self, unwritten_eq holder here]
    exact .inr ⟨by simp [here], rfl, rfl⟩

/-- A flush that finds nothing leaves nothing. -/
theorem Drained.proceed (drained : s.Drained i) (h : s.Delivers i bytes longest)
    (holder : s.pass = some pass) (times : Times) : (s.proceed pass times).Drained i := by
  obtain ⟨at', pending, rest⟩ | ⟨-, pending, rest⟩ := proceed_lists holder times i
  · have idle : ¬ s.Writing i := by
      rw [writing_iff holder, at']
      simp
    exact ⟨pending.trans (h.buffer idle), rest.trans drained.1⟩
  · exact ⟨pending.trans drained.1, by rw [rest, drained.2, tail_nil]⟩

/-- A forced pass swaps the lists of every appender that it comes to. -/
theorem ahead_or_empty (h : s.Delivers i bytes longest) {pass pass' : Pass ι}
    (holder : s.pass = some pass) (force : pass.force = true) (times : Times)
    (holder' : (s.proceed pass times).pass = some pass')
    (place : pass.Ahead i ∨ (s.appenders i).pendingBufferList = []) :
    pass'.Ahead i ∨ ((s.proceed pass times).appenders i).pendingBufferList = [] := by
  obtain ⟨at', pending, -⟩ | ⟨other, pending, -⟩ := proceed_lists holder times i
  · have idle : ¬ s.Writing i := by
      rw [writing_iff holder, at']
      simp
    exact .inr (pending.trans (h.buffer idle))
  rw [pending]
  rcases place with (later | check | swap) | empty
  · -- the appender comes later, or now
    match at' : pass.current, list : pass.rest with
    | none, [] => exact absurd (list ▸ later) not_mem_nil
    | none, j :: rest =>
      simp only [EventBase.proceed, at', list] at holder'
      cases holder'
      rcases mem_cons.mp (list ▸ later) with rfl | later
      · exact .inl (.inr (.inl rfl))
      · exact .inl (.inl later)
    | some (j, phase), _ =>
      obtain ⟨a, phase', moved⟩ := proceed_move (s := s) times at'
      rw [moved] at holder'
      cases holder'
      exact .inl (.inl later)
  · simp only [EventBase.proceed, check, FileAppender.wantsFlush, force, Bool.true_or, if_true]
      at holder'
    cases holder'
    exact .inl (.inr (.inr rfl))
  · exact absurd swap other
  · exact .inr empty

/-- What a step does to the mutex and to `stop`, and what it leaves alone. -/
theorem proceed_pass (s : EventBase ι) (pass : Pass ι) (times : Times) :
    ((s.proceed pass times).pendingFileAppenders = s.pendingFileAppenders ∧
      (s.proceed pass times).fileAppenders = s.fileAppenders) ∧
    ((∃ pass', (s.proceed pass times).pass = some pass' ∧ pass'.stopping = pass.stopping ∧
      pass'.force = pass.force ∧ (s.proceed pass times).stop = s.stop) ∨
    (pass.current = none ∧ pass.rest = [] ∧ (s.proceed pass times).pass = none ∧
      (s.proceed pass times).stop = if pass.stopping then .flushed else s.stop)) := by
  match at' : pass.current, list : pass.rest with
  | none, [] =>
    simp only [EventBase.proceed, at', list]
    exact ⟨⟨trivial, trivial⟩, .inr ⟨trivial, trivial, trivial, trivial⟩⟩
  | none, j :: rest =>
    simp only [EventBase.proceed, at', list]
    exact ⟨⟨trivial, trivial⟩, .inl ⟨_, rfl, rfl, rfl, trivial⟩⟩
  | some (j, phase), _ =>
    obtain ⟨a, phase', moved⟩ := proceed_move (s := s) times at'
    rw [moved]
    exact ⟨⟨rfl, rfl⟩, .inl ⟨_, rfl, rfl, rfl, rfl⟩⟩

theorem StopperFlushes.step (h : s.StopperFlushes) {e : Event ι} (next : s.step e = some s') :
    s'.StopperFlushes := by
  -- whatever moves `stop` on finds no pass of it
  have never {state : StopState} (here : s.stop = state) (other : state ≠ .flushing) {pass : Pass ι}
      (holder : s.pass = some pass) : pass.stopping ≠ true :=
    fun stopping => other (here.symm.trans (h pass holder stopping))
  cases e with
  | append j m times =>
    cases next
    exact h
  | addFileAppender j | collectFileAppenders =>
    obtain ⟨running, ⟨⟩⟩ := ite_none_right_eq_some.mp next
    exact h
  | flush force now | flushFile j now =>
    obtain ⟨-, rfl⟩ := begin_spec next
    rintro _ ⟨⟩ ⟨⟩
  | proceed times =>
    obtain ⟨pass, holder, rfl⟩ := map_eq_some_iff.mp next
    intro pass' holder' stopping'
    obtain ⟨_, here, stopping, -, stop⟩ | ⟨-, -, none, -⟩ := (proceed_pass s pass times).2
    · cases here.symm.trans holder'
      exact stop.trans (h pass holder (stopping ▸ stopping'))
    · exact nomatch none.symm.trans holder'
  | stopFlush now =>
    obtain ⟨-, begun⟩ := ite_none_right_eq_some.mp next
    obtain ⟨-, rfl⟩ := begin_spec begun
    exact fun _ _ _ => rfl
  | stopCollect | stopClear =>
    obtain ⟨here, ⟨⟩⟩ := ite_none_right_eq_some.mp next
    exact fun pass holder stopping => absurd stopping (never here (by decide) holder)

/-- Only the pass of `stop` moves it on. -/
theorem StopperFlushes.stop_proceed (stopper : s.StopperFlushes)
    (holder : s.pass = some pass) (times : Times) (other : s.stop ≠ .flushing) :
    (s.proceed pass times).stop = s.stop := by
  obtain ⟨-, -, -, -, same⟩ | ⟨-, -, -, stop⟩ := (proceed_pass s pass times).2
  · exact same
  · rw [stop, if_neg fun stopping => other (stopper pass holder stopping)]

variable (progress : s.Progress i)
include progress

theorem Progress.proceed (stopper : s.StopperFlushes)
    (h : s.Delivers i bytes longest) (holder : s.pass = some pass) (times : Times) :
    (s.proceed pass times).Progress i := by
  obtain ⟨⟨pending, collected⟩, moves⟩ := proceed_pass s pass times
  rw [Progress] at progress
  cases stop : s.stop with
  | running | collected =>
    rw [Progress, stopper.stop_proceed holder times (by simp [stop])]
    simpa only [stop, pending, collected] using progress
  | flushed | stopped =>
    rw [Progress, stopper.stop_proceed holder times (by simp [stop])]
    simp only [stop] at progress ⊢
    exact progress.proceed h holder times
  | flushing =>
    simp only [stop] at progress
    obtain ⟨_, holder', stopping, force, place⟩ := progress
    cases holder.symm.trans holder'
    obtain ⟨pass', here, same, same', stop'⟩ | ⟨at', list, none, stop'⟩ := moves
    · rw [Progress, stop']
      simp only [stop]
      exact ⟨pass', here, same.trans stopping, same'.trans force,
        ahead_or_empty h holder force times here place⟩
    · have empty : (s.appenders i).pendingBufferList = [] := by
        simpa [Pass.Ahead, at', list] using place
      have kept : ((s.proceed pass times).appenders i).pendingBufferList = [] := by
        obtain ⟨swap, -⟩ | ⟨-, kept, -⟩ := proceed_lists holder times i
        · exact nomatch at'.symm.trans swap
        · exact kept.trans empty
      rw [Progress, stop', if_pos stopping]
      refine ⟨kept, unwritten_eq_nil ?_⟩
      rintro ⟨_, _, holder', -⟩
      exact nomatch none.symm.trans holder'

/-- Whoever takes the mutex leaves the lists alone. -/
theorem Progress.begin (begun : s.begin pass = some s')
    (check : ∀ j todo, pass.current ≠ some (j, .write todo)) : s'.Progress i := by
  obtain ⟨free, rfl⟩ := begin_spec begun
  have drained (drained : s.Drained i) : Drained { s with pass := some pass } i := by
    refine ⟨drained.1, unwritten_eq_nil ?_⟩
    rw [writing_iff rfl]
    rintro ⟨todo, at'⟩
    exact check i todo at'
  rw [Progress] at progress ⊢
  cases stop : s.stop with
  | running | collected => simpa only [stop] using progress
  | flushed | stopped =>
    simp only [stop] at progress ⊢
    exact drained progress
  | flushing =>
    simp only [stop] at progress
    obtain ⟨_, holder, -⟩ := progress
    exact nomatch free.symm.trans holder

theorem Progress.append {j : ι} (other : i ≠ j) (m : List UInt8)
    (times : Times) : (s.append j m times).Progress i := by
  have same : (s.append j m times).appenders i = s.appenders i := update_of_ne other _ _
  have rest : (s.append j m times).unwritten i = s.unwritten i := rfl
  rw [Progress] at progress ⊢
  rw [Drained, same, rest]
  exact progress

/-- Before its pass, `stop` only has to see that the appender is registered. -/
theorem Progress.registered (running : s.stop = .running) :
    i ∈ s.pendingFileAppenders ∨ i ∈ s.fileAppenders := by
  rwa [Progress, running] at progress

theorem Progress.step (stopper : s.StopperFlushes)
    (h : s.Delivers i bytes longest) {e : Event ι} (quiet : ∀ m times, e ≠ .append i m times)
    (next : s.step e = some s') : s'.Progress i := by
  cases e with
  | append j m times =>
    cases next
    refine progress.append ?_ m times
    rintro rfl
    exact quiet m times rfl
  | addFileAppender j =>
    obtain ⟨running, ⟨⟩⟩ := ite_none_right_eq_some.mp next
    simp only [Progress, running]
    exact (progress.registered running).imp (mem_append_left _) id
  | collectFileAppenders =>
    obtain ⟨running, ⟨⟩⟩ := ite_none_right_eq_some.mp next
    simp only [Progress, collect, running]
    exact .inr (mem_append.mpr (progress.registered running).symm)
  | flush force now | flushFile j now => exact progress.begin next (by simp)
  | proceed times =>
    obtain ⟨pass, holder, rfl⟩ := map_eq_some_iff.mp next
    exact progress.proceed stopper h holder times
  | stopCollect =>
    obtain ⟨running, ⟨⟩⟩ := ite_none_right_eq_some.mp next
    simp only [Progress, collect]
    exact mem_append.mpr (progress.registered running).symm
  | stopFlush now =>
    obtain ⟨collected, begun⟩ := ite_none_right_eq_some.mp next
    obtain ⟨-, rfl⟩ := begin_spec begun
    rw [Progress, collected] at progress
    exact ⟨_, rfl, rfl, rfl, .inl (.inl progress)⟩
  | stopClear =>
    obtain ⟨flushed, ⟨⟩⟩ := ite_none_right_eq_some.mp next
    rw [Progress, flushed] at progress
    exact progress

end Stop

/-! ### Runs -/

/-- The messages of a run that an appender has not refused, one after the other. -/
def accepted (i : ι) : EventBase ι → List (Event ι) → List UInt8
  | _, [] => []
  | s, e :: events =>
      s.accepts i e ++
        match s.step e with
        | some s' => accepted i s' events
        | none => []

/-- The length of the longest message of a run. -/
def longest (i : ι) (events : List (Event ι)) : Nat :=
  (events.map (messageLength i)).foldr max 0

theorem Delivers.run {s s' : EventBase ι} {i : ι} {bytes : List UInt8} {most : Nat}
    {events : List (Event ι)} (h : s.Delivers i bytes most)
    (small : ∀ e ∈ events, messageLength i e < 2 ^ 31)
    (run : after EventBase.step s events = some s') :
    s'.Delivers i (bytes ++ accepted i s events) (max most (longest i events)) := by
  induction events generalizing s bytes most with
  | nil =>
    cases run
    rw [accepted, append_nil]
    exact h.mono (le_max_left _ _)
  | cons e events ih =>
    obtain ⟨t, first, rest⟩ := after_cons.mp run
    have next := h.step (small e mem_cons_self) first
    have last := ih next (fun e' mem => small e' (mem_cons_of_mem e mem)) rest
    rw [accepted, first, ← append_assoc]
    rw [max_assoc] at last
    exact last

theorem Progress.run {s s' : EventBase ι} {i : ι} {bytes : List UInt8} {most : Nat}
    {events : List (Event ι)} (progress : s.Progress i) (stopper : s.StopperFlushes)
    (h : s.Delivers i bytes most) (quiet : ∀ m times, .append i m times ∉ events)
    (run : after EventBase.step s events = some s') : s'.Progress i := by
  induction events generalizing s bytes most with
  | nil =>
    cases run
    exact progress
  | cons e events ih =>
    obtain ⟨t, first, rest⟩ := after_cons.mp run
    have other : ∀ m times, e ≠ .append i m times := by
      rintro m times rfl
      exact quiet m times mem_cons_self
    have silent : messageLength i e = 0 := by
      cases e with
      | append j m times =>
        refine if_neg ?_
        rintro rfl
        exact other m times rfl
      | _ => rfl
    exact ih (progress.step stopper h other first) (stopper.step first)
      (h.step (by rw [silent]; decide) first)
      (fun m times mem => quiet m times (mem_cons_of_mem e mem)) rest

/-- An appender that is flushed asynchronously and has not been used yet. -/
structure Unused (a : FileAppender) : Prop where
  async : a.bAsyncFlush = true
  pending : a.pendingBufferList = []
  buffer : a.bufferList = []
  counted : a.acculatedBytes = 0

/-- Along every run: what is in the files and what is still on its way there is what has been
appended and not refused, in that order; between flushes the buffer list is empty and the count is
right; no more than the limit and one message are pending; and after `stop` nothing is, if nothing
has been appended meanwhile. -/
theorem delivery {s₀ s : EventBase ι} {i : ι} {events : List (Event ι)}
    (unused : Unused (s₀.appenders i)) (free : s₀.pass = none)
    (small : ∀ m times, .append i m times ∈ events → m.length < 2 ^ 31)
    (run : after EventBase.step s₀ events = some s) :
    (s.appenders i).written ++ (s.unwritten i).flatten ++
        (s.appenders i).pendingBufferList.flatten =
      (s₀.appenders i).written ++ accepted i s₀ events ∧
    (¬ s.FlushRunning i → (s.appenders i).bufferList = [] ∧
      (s.appenders i).acculatedBytes.toNat = (s.appenders i).pending) ∧
    (s.appenders i).pending < MAX_CACHED_BUF_SIZE.toNat + longest i events ∧
    ∀ before rest s₁, events = before ++ rest → after EventBase.step s₀ before = some s₁ →
      s₁.stop = .running → i ∈ s₁.pendingFileAppenders ∨ i ∈ s₁.fileAppenders →
      (∀ m times, .append i m times ∉ rest) → s.stop = .stopped → s.Drained i := by
  have idle : ¬ s₀.Writing i := by
    rintro ⟨_, _, holder, -⟩
    exact nomatch free.symm.trans holder
  have start : s₀.Delivers i (s₀.appenders i).written 0 := by
    refine ⟨unused.async, ?_, fun _ => unused.buffer, ?_, ?_⟩
    · rw [unwritten_eq_nil idle, unused.pending]
      simp
    · rw [unused.counted, FileAppender.pending, unused.pending]
      rfl
    · rw [FileAppender.pending, unused.pending]
      decide
  have lengths {events' : List (Event ι)} (sub : events' ⊆ events) :
      ∀ e ∈ events', messageLength i e < 2 ^ 31 := by
    intro e mem
    cases e with
    | append j m times =>
      rw [messageLength]
      split_ifs with same
      · subst same
        exact small m times (sub mem)
      · decide
    | _ => exact Nat.two_pow_pos 31
  have delivers := start.run (lengths (List.Subset.refl _)) run
  refine ⟨delivers.bytes, ?_, ?_, ?_⟩
  · intro none
    refine ⟨delivers.buffer ?_, delivers.counted⟩
    rintro ⟨pass, todo, holder, at'⟩
    exact none ⟨pass, _, holder, at'⟩
  · have bounded := delivers.bounded
    rwa [Nat.zero_max] at bounded
  · rintro before rest s₁ rfl first running registered quiet stopped
    obtain ⟨_, first', second⟩ := after_append.mp run
    cases first.symm.trans first'
    have stopper : s₁.StopperFlushes :=
      after_inv (fun _ _ _ h next => h.step next) (fun _ holder => nomatch free.symm.trans holder) first
    have progress : s₁.Progress i := by
      rw [Progress, running]
      exact registered
    have last := progress.run stopper (start.run (lengths (subset_append_left _ _)) first) quiet
      second
    rwa [Progress, stopped] at last

/-- One appender of files of three bytes at most, that has been registered. -/
def oneAppender : EventBase Unit where
  appenders := fun _ => ⟨[], [], 0, 3, 0, 0, true, 1024, 1000, 0, 0, 0, false, [], []⟩
  pendingFileAppenders := [()]
  fileAppenders := []
  pass := none
  stop := .running

/-- Two messages, the second of which rotates the file, and a third between the swap and the end of
the first flush. -/
def threeMessages : List (Event Unit) :=
  let times : Times := ⟨0, 0, 0⟩
  [.collectFileAppenders, .append () [1, 2] times, .append () [3] times, .flush true 0,
    .proceed times, .proceed times, .proceed times, .append () [4, 5] times, .proceed times,
    .proceed times, .proceed times, .proceed times, .stopCollect, .stopFlush 0, .proceed times,
    .proceed times, .proceed times, .proceed times, .proceed times, .proceed times, .stopClear]

theorem delivery_three_messages : ∃ s, after EventBase.step oneAppender threeMessages = some s ∧
      (s.appenders ()).rotated = [[1, 2], [3]] ∧ (s.appenders ()).current = [4, 5] ∧
      (s.appenders ()).written ++ (s.unwritten ()).flatten ++
        (s.appenders ()).pendingBufferList.flatten = accepted () oneAppender threeMessages ∧
      s.Drained () := by
  have files : (after EventBase.step oneAppender threeMessages).map (fun s =>
      ((s.appenders ()).rotated, (s.appenders ()).current, s.stop)) =
      some ([[1, 2], [3]], [4, 5], .stopped) := by decide
  obtain ⟨s, run, shape⟩ := map_eq_some_iff.mp files
  simp only [Prod.mk.injEq] at shape
  obtain ⟨rotated, current, stopped⟩ := shape
  have before : (after EventBase.step oneAppender (threeMessages.take 12)).map (fun s =>
      (s.stop, s.fileAppenders)) = some (.running, [()]) := by decide
  obtain ⟨s₁, first, shape⟩ := map_eq_some_iff.mp before
  simp only [Prod.mk.injEq] at shape
  have small : ∀ m times, .append () m times ∈ threeMessages → m.length < 2 ^ 31 := by
    intro m times mem
    have one : (m, times) ∈ [([1, 2], ⟨0, 0, 0⟩), ([3], ⟨0, 0, 0⟩), ([4, 5], ⟨0, 0, 0⟩)] := by
      simpa [threeMessages] using mem
    have short : m.length ≤ 2 := by
      simp only [mem_cons, Prod.mk.injEq, not_mem_nil, or_false] at one
      rcases one with ⟨rfl, -⟩ | ⟨rfl, -⟩ | ⟨rfl, -⟩ <;> decide
    omega
  have unused : Unused (oneAppender.appenders ()) := ⟨rfl, rfl, rfl, rfl⟩
  obtain ⟨bytes, -, -, drained⟩ := delivery unused rfl small run
  refine ⟨s, run, rotated, current, bytes, ?_⟩
  exact drained _ (threeMessages.drop 12) s₁ (take_append_drop 12 _).symm first shape.1
    (.inr (by simp [shape.2])) (by simp [threeMessages]) stopped

end EventBase

end AgentEngine.Alog
